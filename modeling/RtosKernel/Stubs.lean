import RtosKernel.Interrupts
import RtosKernel.Lib.StackPush

/-!
# The entry into an interrupt (`interrupts.s`, `idt.h`)

The processor pushes the flags and the place of the interrupted code, and for some exceptions an error code. The stub
of the vector and `isr_common_stub` or `irq_common_stub` push the rest of a `registers_t` and call the C function.
-/

namespace RtosKernel

open Lib

/-- `registers_t`. -/
structure Registers where
  ds : UInt32
  edi : UInt32
  esi : UInt32
  ebp : UInt32
  esp : UInt32
  ebx : UInt32
  edx : UInt32
  ecx : UInt32
  eax : UInt32
  intNo : UInt32
  errCode : UInt32
  eip : UInt32
  cs : UInt32
  eflags : UInt32
  useresp : UInt32
  ss : UInt32
  deriving DecidableEq, Repr

/-- The struct at an address. -/
def readRegisters (m : Mem) (a : UInt32) : Registers where
  ds := m.load32 a
  edi := m.load32 (a + 4)
  esi := m.load32 (a + 8)
  ebp := m.load32 (a + 12)
  esp := m.load32 (a + 16)
  ebx := m.load32 (a + 20)
  edx := m.load32 (a + 24)
  ecx := m.load32 (a + 28)
  eax := m.load32 (a + 32)
  intNo := m.load32 (a + 36)
  errCode := m.load32 (a + 40)
  eip := m.load32 (a + 44)
  cs := m.load32 (a + 48)
  eflags := m.load32 (a + 52)
  useresp := m.load32 (a + 56)
  ss := m.load32 (a + 60)

namespace Machine

/-- A `push`, of the processor or of the code. -/
def push (v : UInt32) (s : Machine) : Machine :=
  { s with cpu := { s.cpu with esp := s.cpu.esp - 4 }, mem := s.mem.store32 (s.cpu.esp - 4) v }

/-- The error code, if there is one. -/
def pushOption (v : Option UInt32) (s : Machine) : Machine :=
  match v with
  | some v => s.push v
  | none => s

end Machine

/-- The flags that the processor clears at an interrupt gate: TF, IF, NT, RF and VM. -/
def gateFlags : UInt32 := 0x34300

/-- The processor in ring 0 goes to a handler in the kernel's code segment. -/
def raiseVector (handler : UInt32) (err : Option UInt32) (s : Machine) : Machine :=
  let s' := (((s.push s.cpu.eflags).push s.cpu.cs.toUInt32).push s.cpu.eip).pushOption err
  { s' with cpu := { s'.cpu with eip := handler, cs := 0x08, eflags := s.cpu.eflags &&& ~~~gateFlags } }

/-- The instructions in front of the call of the C function. -/
inductive EntryInstr where
  | cli
  | pushImm (v : UInt32)
  | pusha
  | movAxDs
  | pushEax
  | movAxImm (v : UInt16)
  | movSegAx (r : SegReg)
  | pushEsp
  deriving DecidableEq, Repr

/-- `pusha`: the stack pointer that it pushes is the one before it. -/
def pusha (s : Machine) : Machine :=
  (((((((s.push s.cpu.eax).push s.cpu.ecx).push s.cpu.edx).push s.cpu.ebx).push s.cpu.esp).push s.cpu.ebp).push
    s.cpu.esi).push s.cpu.edi

/-- A register with its low half replaced. -/
def setLow (r : UInt32) (v : UInt16) : UInt32 := (r &&& 0xFFFF0000) ||| v.toUInt32

/-- An instruction at the start of a stub. -/
def execEntry (s : Machine) : EntryInstr → Machine
  | .cli => { s with cpu := { s.cpu with eflags := s.cpu.eflags &&& ~~~0x200 } }
  | .pushImm v => s.push v
  | .pusha => pusha s
  | .movAxDs => { s with cpu := { s.cpu with eax := setLow s.cpu.eax s.cpu.ds } }
  | .pushEax => s.push s.cpu.eax
  | .movAxImm v => { s with cpu := { s.cpu with eax := setLow s.cpu.eax v } }
  | .movSegAx r => { s with cpu := loadSeg r s.cpu }
  | .pushEsp => s.push s.cpu.esp

/-- The start of a stub. -/
def runEntry (code : List EntryInstr) (s : Machine) : Machine := code.foldl execEntry s

/-! ## The stubs -/

/-- `ISR_NOERRCODE n`, and `IRQ` for the vector `n`. -/
def isrNoErrcode (n : UInt32) : List EntryInstr := [.cli, .pushImm 0, .pushImm n]

/-- `ISR_ERRCODE n`. -/
def isrErrcode (n : UInt32) : List EntryInstr := [.cli, .pushImm n]

/-- The vectors that have an `ISR_ERRCODE` stub. -/
def errcodeVectors : List UInt8 := [8, 10, 11, 12, 13, 14]

/-- `isr0` to `isr31`, `irq0` and `irq1`, by their vector. -/
def vectorStub (n : UInt8) : List EntryInstr :=
  if n ∈ errcodeVectors then isrErrcode n.toUInt32 else isrNoErrcode n.toUInt32

/-- `isr_common_stub` and `irq_common_stub`, as far as the `registers_t`. -/
def commonEntry : List EntryInstr :=
  [.pusha, .movAxDs, .pushEax, .movAxImm 0x10, .movSegAx .ds, .movSegAx .es, .movSegAx .fs, .movSegAx .gs]

/-- The words that a stub pushes. -/
def stubWords (n : UInt8) : List UInt32 := if n ∈ errcodeVectors then [n.toUInt32] else [0, n.toUInt32]

/-- The words that an interrupt pushes, in order: those of the processor, those of the stub, and the registers. -/
def interruptWords (n : UInt8) (err : Option UInt32) (c : Cpu) : List UInt32 :=
  let frame := [c.eflags, c.cs.toUInt32, c.eip] ++ err.toList ++ stubWords n
  frame ++ [c.eax, c.ecx, c.edx, c.ebx, c.esp - 4 * UInt32.ofNat frame.length, c.ebp, c.esi, c.edi, setLow c.eax c.ds]

/-- The processor at the call of the C function. -/
def handlerCpu (handler : UInt32) (words : ℕ) (c : Cpu) : Cpu :=
  { c with
    eax := setLow (setLow c.eax c.ds) 0x10, esp := c.esp - 4 * UInt32.ofNat words, eip := handler, cs := 0x08
    eflags := c.eflags &&& ~~~gateFlags &&& ~~~0x200, ds := 0x10, es := 0x10, fs := 0x10, gs := 0x10 }

/-! ## The return -/

/-- The processor that `irq_common_stub` loads from the struct at `a`, if it stays in ring 0. -/
def Registers.resume (r : Registers) (a : UInt32) (c : Cpu) : Cpu :=
  { eax := r.eax, ecx := r.ecx, edx := r.edx, ebx := r.ebx, esp := a + 56, ebp := r.ebp, esi := r.esi, edi := r.edi
    eip := r.eip, eflags := r.eflags, cs := r.cs.toUInt16, ss := c.ss
    ds := r.ds.toUInt16, es := r.ds.toUInt16, fs := r.ds.toUInt16, gs := r.ds.toUInt16 }

/-- What an interrupt does to the task that it interrupts: the other data segments become that of DS. -/
def Cpu.flat (c : Cpu) : Cpu := { c with es := c.ds, fs := c.ds, gs := c.ds }

end RtosKernel
