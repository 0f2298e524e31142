import RtosKernel.Paging
import RtosKernel.Stubs

/-!
# Segments, gates and rings (`gdt.c`, `idt.c`, `ring.c`)

The tables that the kernel builds, and the checks that the processor makes with them: what a selector may be loaded
into, where an interrupt goes, and what `switch_to_ring3` comes to. A fault carries the error code that the processor
pushes.

Left out: the log messages, the remapping of the interrupt controller, and the I/O permission bitmap, which stands
behind the limit of the TSS.
-/

namespace RtosKernel

open Lib

/-! ## The tables -/

/-- `gdt_entry_t`. -/
structure GdtEntry where
  limitLow : UInt16
  baseLow : UInt16
  baseMiddle : UInt8
  access : UInt8
  granularity : UInt8
  baseHigh : UInt8
  deriving DecidableEq, Repr

/-- `idt_entry_t`. -/
structure IdtEntry where
  baseLow : UInt16
  sel : UInt16
  always0 : UInt8
  flags : UInt8
  baseHigh : UInt16
  deriving DecidableEq, Repr

/-- `GDT_ENTRIES`. -/
abbrev gdtEntries : ℕ := 6

/-- `gdt[GDT_ENTRIES]`. -/
abbrev Gdt := Fin gdtEntries → GdtEntry

/-- `idt[256]`. -/
abbrev Idt := UInt8 → IdtEntry

/-- `gdt_set_gate(num, base, limit, access, gran)`. -/
def gdtSetGate (num : Fin gdtEntries) (base limit : UInt32) (access gran : UInt8) (gdt : Gdt) : Gdt :=
  Function.update gdt num
    { baseLow := (base &&& 0xFFFF).toUInt16
      baseMiddle := ((base >>> 16) &&& 0xFF).toUInt8
      baseHigh := ((base >>> 24) &&& 0xFF).toUInt8
      limitLow := (limit &&& 0xFFFF).toUInt16
      granularity := ((limit >>> 16) &&& 0x0F).toUInt8 ||| (gran &&& 0xF0)
      access := access }

/-- `idt_set_gate(num, base, sel, flags)`. -/
def idtSetGate (num : UInt8) (base : UInt32) (sel : UInt16) (flags : UInt8) (idt : Idt) : Idt :=
  Function.update idt num
    { baseLow := (base &&& 0xFFFF).toUInt16
      baseHigh := ((base >>> 16) &&& 0xFFFF).toUInt16
      sel := sel
      always0 := 0
      flags := flags }

/-- The functions that are registered for interrupts. -/
inductive Handler where
  | exceptionHandler
  | timerIrqCallback
  | keyboardCallback
  | other (addr : UInt32)
  deriving DecidableEq, Repr

/-- `tss_t` without the bitmap at its end. -/
structure Tss where
  prevTss : UInt32 := 0
  esp0 : UInt32 := 0
  ss0 : UInt32 := 0
  esp1 : UInt32 := 0
  ss1 : UInt32 := 0
  esp2 : UInt32 := 0
  ss2 : UInt32 := 0
  cr3 : UInt32 := 0
  eip : UInt32 := 0
  eflags : UInt32 := 0
  eax : UInt32 := 0
  ecx : UInt32 := 0
  edx : UInt32 := 0
  ebx : UInt32 := 0
  esp : UInt32 := 0
  ebp : UInt32 := 0
  esi : UInt32 := 0
  edi : UInt32 := 0
  es : UInt32 := 0
  cs : UInt32 := 0
  ss : UInt32 := 0
  ds : UInt32 := 0
  fs : UInt32 := 0
  gs : UInt32 := 0
  ldt : UInt32 := 0
  trap : UInt16 := 0
  iomapBase : UInt16 := 0
  deriving DecidableEq, Repr

/-- `sizeof(tss_t)`. -/
def sizeofTss : UInt32 := 8296

/-- The tables, `kernel_tss`, and the base and the limit that the task register holds. -/
structure Tables where
  gdt : Gdt
  idt : Idt
  handlers : UInt8 → Option Handler
  tss : Tss
  tr : Option (UInt32 × UInt32)

/-- The addresses of the stubs, by their vector, and of `kernel_tss`. -/
structure CodeAddrs where
  stub : UInt8 → UInt32
  kernelTss : UInt32

/-- `init_gdt()`: the null descriptor, code and data of ring 0 and of ring 3, and no TSS yet. -/
def initGdt (t : Tables) : Tables :=
  let gdt := gdtSetGate 0 0 0 0 0 t.gdt
  let gdt := gdtSetGate 1 0 0xFFFFFFFF 0x9A 0xCF gdt
  let gdt := gdtSetGate 2 0 0xFFFFFFFF 0x92 0xCF gdt
  let gdt := gdtSetGate 3 0 0xFFFFFFFF 0xFA 0xCF gdt
  let gdt := gdtSetGate 4 0 0xFFFFFFFF 0xF2 0xCF gdt
  { t with gdt := gdtSetGate 5 0 0 0 0 gdt }

/-- `gdt_set_tss(base, limit)`. -/
def gdtSetTss (base limit : UInt32) (t : Tables) : Tables := { t with gdt := gdtSetGate 5 base limit 0x89 0x00 t.gdt }

/-- `register_interrupt_handler(n, handler)`. -/
def registerInterruptHandler (n : UInt8) (handler : Handler) (t : Tables) : Tables :=
  { t with handlers := Function.update t.handlers n (some handler) }

/-- `init_idt`: the vectors 0 to 33 in order, and 0x80. -/
def initIdt (code : CodeAddrs) (t : Tables) : Tables :=
  let idt := (List.range 34).foldl
    (fun idt n => idtSetGate (UInt8.ofNat n) (code.stub (UInt8.ofNat n)) 0x08 0x8E idt) t.idt
  { t with handlers := fun _ => none, idt := idtSetGate 0x80 (code.stub 0x80) 0x08 0xEE idt }

/-- `init_panic_handlers()`: the same handler for all exceptions. -/
def initPanicHandlers (t : Tables) : Tables :=
  (List.range 32).foldl (fun t n => registerInterruptHandler (UInt8.ofNat n) .exceptionHandler t) t

/-- `setup_tss`. -/
def setupTss : Tss where
  esp0 := 0x00400000
  ss0 := 0x10
  cr3 := 0
  eflags := 0x00000200
  cs := 0x0B
  ss := 0x23
  ds := 0x23
  es := 0x23
  fs := 0x23
  gs := 0x23
  iomapBase := sizeofTss.toUInt16
  trap := 0

/-! ## What the processor reads in them -/

namespace GdtEntry

/-- The base, from its three fields. -/
def base (e : GdtEntry) : UInt32 :=
  e.baseLow.toUInt32 ||| (e.baseMiddle.toUInt32 <<< 16) ||| (e.baseHigh.toUInt32 <<< 24)

/-- The limit in bytes or in pages. -/
def limitField (e : GdtEntry) : UInt32 := e.limitLow.toUInt32 ||| ((e.granularity &&& 0x0F).toUInt32 <<< 16)

/-- The last offset in the segment. -/
def limit (e : GdtEntry) : UInt32 :=
  if e.granularity &&& 0x80 = 0 then e.limitField else (e.limitField <<< 12) ||| 0xFFF

/-- The segment is present. -/
def present (e : GdtEntry) : Bool := e.access &&& 0x80 ≠ 0

/-- The privilege level of the descriptor. -/
def dpl (e : GdtEntry) : UInt8 := (e.access >>> 5) &&& 3

/-- The descriptor of a code segment. -/
def isCode (e : GdtEntry) : Bool := e.access &&& 0x18 = 0x18

/-- A code segment that keeps the ring of its caller. -/
def conforming (e : GdtEntry) : Bool := e.access &&& 0x1C = 0x1C

/-- A data segment that may be written. -/
def writableData (e : GdtEntry) : Bool := e.access &&& 0x1A = 0x12

/-- An available 32-bit TSS. -/
def availableTss (e : GdtEntry) : Bool := e.access &&& 0x1F = 0x09

end GdtEntry

namespace IdtEntry

/-- The address of the handler, from its two fields. -/
def offset (e : IdtEntry) : UInt32 := e.baseLow.toUInt32 ||| (e.baseHigh.toUInt32 <<< 16)

/-- The gate is present. -/
def present (e : IdtEntry) : Bool := e.flags &&& 0x80 ≠ 0

/-- The least privileged ring whose `int n` may use the gate. -/
def dpl (e : IdtEntry) : UInt8 := (e.flags >>> 5) &&& 3

/-- A 32-bit interrupt gate. -/
def interruptGate (e : IdtEntry) : Bool := e.flags &&& 0x1F = 0x0E

end IdtEntry

/-- The exceptions that the checks raise, with their error code. -/
inductive CpuFault where
  | invalidTss (code : UInt32)
  | notPresent (code : UInt32)
  | stack (code : UInt32)
  | protection (code : UInt32)
  | page (addr code : UInt32)
  deriving DecidableEq, Repr

/-- The index of a selector, as error codes have it. -/
def selectorCode (sel : UInt16) : UInt32 := (sel &&& 0xFFFC).toUInt32

/-- The privilege level that a selector asks for. -/
def rpl (sel : UInt16) : UInt8 := (sel &&& 3).toUInt8

/-- The descriptor of a selector. There is no local table. -/
def descriptor (t : Tables) (sel : UInt16) : Option GdtEntry :=
  if sel &&& 4 ≠ 0 then none
  else if h : (sel >>> 3).toNat < gdtEntries then some (t.gdt ⟨(sel >>> 3).toNat, h⟩) else none

/-- `ltr sel`. -/
def loadTr (sel : UInt16) (t : Tables) : Except CpuFault Tables :=
  if selectorCode sel = 0 then .error (.protection 0)
  else if sel &&& 4 ≠ 0 then .error (.protection (selectorCode sel))
  else if h : (sel >>> 3).toNat < gdtEntries then
    let e := t.gdt ⟨(sel >>> 3).toNat, h⟩
    if ¬ e.availableTss then .error (.protection (selectorCode sel))
    else if ¬ e.present then .error (.notPresent (selectorCode sel))
    else pure
      { t with
        gdt := Function.update t.gdt ⟨(sel >>> 3).toNat, h⟩ { e with access := e.access ||| 2 }
        tr := some (e.base, e.limit) }
  else .error (.protection (selectorCode sel))

/-- `ring_init()`: the TSS is filled, its descriptor set, and the task register loaded. -/
def ringInit (code : CodeAddrs) (t : Tables) : Except CpuFault Tables :=
  loadTr 0x28 (gdtSetTss code.kernelTss (sizeofTss - 1) { t with tss := setupTss })

/-- Where an interrupt goes: the handler, its code segment and, if the ring changes, its stack. -/
structure GateTarget where
  handler : UInt32
  cs : UInt16
  stack : Option (UInt16 × UInt32)
  deriving DecidableEq, Repr

/-- The stack of ring 0, from the TSS. -/
def innerStack (t : Tables) : Except CpuFault (UInt16 × UInt32) :=
  match t.tr with
  | none => .error (.invalidTss 0)
  | some _ =>
    let sel := t.tss.ss0.toUInt16
    if selectorCode sel = 0 then .error (.invalidTss 0)
    else match descriptor t sel with
      | none => .error (.invalidTss (selectorCode sel))
      | some e =>
        if rpl sel ≠ 0 ∨ ¬ e.writableData ∨ e.dpl ≠ 0 then .error (.invalidTss (selectorCode sel))
        else if ¬ e.present then .error (.stack (selectorCode sel))
        else pure (sel, t.tss.esp0)

/-- The vector `n` in the ring `cpl`, as an `int n` of the program (`soft`) or not. -/
def gateTarget (t : Tables) (cpl : UInt8) (soft : Bool) (n : UInt8) : Except CpuFault GateTarget :=
  let gate := t.idt n
  let code : UInt32 := 8 * n.toUInt32 + 2 + (if soft then 0 else 1)
  if ¬ gate.interruptGate then .error (.protection code)
  else if soft ∧ gate.dpl < cpl then .error (.protection code)
  else if ¬ gate.present then .error (.notPresent code)
  else if selectorCode gate.sel = 0 then .error (.protection 0)
  else match descriptor t gate.sel with
    | none => .error (.protection (selectorCode gate.sel))
    | some e =>
      if ¬ e.isCode ∨ cpl < e.dpl then .error (.protection (selectorCode gate.sel))
      else if ¬ e.present then .error (.notPresent (selectorCode gate.sel))
      else if e.conforming ∨ e.dpl = cpl then pure ⟨gate.offset, (gate.sel &&& 0xFFFC) ||| cpl.toUInt16, none⟩
      else do
        let stack ← innerStack t
        pure ⟨gate.offset, (gate.sel &&& 0xFFFC) ||| e.dpl.toUInt16, some stack⟩

/-! ## Runs -/

/-- The static data at boot. -/
def zeroTables : Tables where
  gdt _ := ⟨0, 0, 0, 0, 0, 0⟩
  idt _ := ⟨0, 0, 0, 0, 0⟩
  handlers _ := none
  tss := {}
  tr := none

/-- `init_gdt`, `init_idt`, `init_panic_handlers` and `ring_init`, as `kernel_main` calls them. -/
def bootTables (code : CodeAddrs) : Except CpuFault Tables :=
  ringInit code (initPanicHandlers (initIdt code (initGdt zeroTables)))

/-- The calls that change the tables after the boot. -/
inductive TableOp where
  | registerInterruptHandler (n : UInt8) (handler : Handler)
  | gdtSetTss (base limit : UInt32)
  | ringInit

/-- A call after the boot. -/
def tableStep (code : CodeAddrs) (t : Tables) : TableOp → Except CpuFault Tables
  | .registerInterruptHandler n handler => pure (registerInterruptHandler n handler t)
  | .gdtSetTss base limit => pure (gdtSetTss base limit t)
  | .ringInit => ringInit code t

/-- The tables after the boot and some calls. -/
def tableRun (code : CodeAddrs) (ops : List TableOp) : Except CpuFault Tables := do
  let t ← bootTables code
  ops.foldlM (tableStep code) t

/-! ## `switch_to_ring3` -/

/-- The vector of a fault. -/
def CpuFault.vector : CpuFault → UInt8
  | .invalidTss _ => 10
  | .notPresent _ => 11
  | .stack _ => 12
  | .protection _ => 13
  | .page _ _ => 14

end RtosKernel
