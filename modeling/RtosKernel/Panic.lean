import RtosKernel.Printing
import RtosKernel.Protection

/-!
# Exceptions and the panic screen (`panic.c`, `isr_handler` of `idt.c`)

`isr_handler` gets the `registers_t` that the stub has built, and calls the function that is registered for its
vector. For an exception this is `exception_handler`, which prints the registers on the screen and to the serial port
and halts.
-/

namespace RtosKernel

open Lib

/-- `exception_names`. -/
def exceptionNames : List String :=
  ["Division By Zero", "Debug", "Non Maskable Interrupt", "Breakpoint", "Overflow", "Out of Bounds", "Invalid Opcode",
    "No Coprocessor", "Double Fault", "Coprocessor Segment Overrun", "Bad TSS", "Segment Not Present", "Stack Fault",
    "General Protection Fault", "Page Fault", "Unknown Interrupt", "Coprocessor Fault", "Alignment Check",
    "Machine Check"] ++ List.replicate 13 "Reserved"

/-- The terminal, and the characters that were sent to the serial port. -/
structure Console where
  terminal : Terminal
  serial : List UInt8

/-- `terminal_putchar(c); serial_putc(c);`. -/
def putBoth (s : Console) (c : UInt8) : Except OutOfBounds Console := do
  let terminal ← terminalPutchar c s.terminal
  pure { terminal := terminal, serial := s.serial ++ [c] }

/-- `print_str`. -/
def panicPrintStr (str : List UInt8) (s : Console) : Except OutOfBounds Console := str.foldlM putBoth s

/-- `print_str` of a literal. -/
def printLit (str : String) (s : Console) : Except OutOfBounds Console := panicPrintStr (CString.ofString str).chars s

/-- The registers that `panic` prints, with the strings in front of them. -/
def panicFields : List (String × (Registers → UInt32)) :=
  [("\nEIP: ", Registers.eip), ("  INT: ", Registers.intNo), ("  ERR: ", Registers.errCode),
    ("\nEAX: ", Registers.eax), ("  EBX: ", Registers.ebx), ("  ECX: ", Registers.ecx), ("  EDX: ", Registers.edx)]

/-- A register, behind its string. -/
def printField (r : Registers) (s : Console) (field : String × (Registers → UInt32)) : Except OutOfBounds Console := do
  let s ← printLit field.1 s
  panicPrintStr (panicPrintHex (field.2 r)) s

/-- `panic`, as far as its last loop, in which the processor is halted. -/
def panic (message : String) (regs : Option Registers) (s : Console) : Except OutOfBounds Console := do
  let s ← printLit "\n\n*** KERNEL PANIC ***\n" s
  let s ← printLit message s
  let s ←
    match regs with
    | none => pure s
    | some r => panicFields.foldlM (printField r) s
  printLit "\nSystem halted.\n" s

/-- The name that `exception_handler` prints. -/
def exceptionName (intNo : UInt32) : String :=
  if intNo < 32 then exceptionNames.getD intNo.toNat "" else "Unknown"

/-- `exception_handler(regs)`. -/
def exceptionHandler (r : Registers) (s : Console) : Except OutOfBounds Console :=
  panic (exceptionName r.intNo) (some r) s

/-- What `isr_handler` comes to: it returns at once, calls a function that is not one of `panic.c`, never returns, or
reads behind the end of `interrupt_handlers`. -/
inductive IsrEnd where
  | returned (s : Console)
  | called (handler : Handler) (r : Registers) (s : Console)
  | halted (s : Console)
  | outside (intNo : UInt32)

/-- `isr_handler(regs)`, with the table that it looks into. -/
def isrHandler (handlers : UInt8 → Option Handler) (r : Registers) (s : Console) : Except OutOfBounds IsrEnd :=
  if r.intNo < 256 then
    match handlers r.intNo.toUInt8 with
    | none => pure (.returned s)
    | some .exceptionHandler => do
      let s ← exceptionHandler r s
      pure (.halted s)
    | some handler => pure (.called handler r s)
  else pure (.outside r.intNo)

/-- The exception `n` in the kernel, from the processor as far as the end of `isr_handler`. -/
def takeException (t : Tables) (code : CodeAddrs) (n : UInt8) (err : Option UInt32) (m : Machine) (s : Console) :
    Except OutOfBounds IsrEnd :=
  let m := runEntry (vectorStub n ++ commonEntry) (raiseVector (code.stub n) err m)
  isrHandler t.handlers (readRegisters m.mem m.cpu.esp) s

/-! ## What the screen should show -/

/-- The lines of the panic screen. -/
def panicLines (message : String) (eip intNo errCode eax ebx ecx edx : UInt32) : List (List UInt8) :=
  let lit (str : String) : List UInt8 := (CString.ofString str).chars
  [[], lit "*** KERNEL PANIC ***", lit message,
    lit "EIP: " ++ panicPrintHex eip ++ lit "  INT: " ++ panicPrintHex intNo ++ lit "  ERR: " ++ panicPrintHex errCode,
    lit "EAX: " ++ panicPrintHex eax ++ lit "  EBX: " ++ panicPrintHex ebx ++ lit "  ECX: " ++ panicPrintHex ecx ++
      lit "  EDX: " ++ panicPrintHex edx,
    lit "System halted."]

/-- The lines for the exception `n`, with the error code of the processor and the registers at the fault. -/
def exceptionLines (n : UInt8) (err : Option UInt32) (c : Cpu) : List (List UInt8) :=
  panicLines (exceptionName n.toUInt32) c.eip n.toUInt32 (err.getD 0) c.eax c.ebx c.ecx c.edx

/-- Both outputs end with the lines: the serial port has them at its end, and the screen above its last row. -/
structure Reports (s : Console) (lines : List (List UInt8)) : Prop where
  serial : (10 :: lines.flatMap fun line => line ++ [10]) <:+ s.serial
  screen : ∀ i < lines.length, ∀ col < 80,
    charAt s.terminal (24 - lines.length + i) (col : ℕ) = (lines.getD i []).getD col 32

end RtosKernel
