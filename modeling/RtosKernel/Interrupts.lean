import RtosKernel.Lib.Memory
import RtosKernel.Process
import RtosKernel.Task

/-!
# The return from an interrupt (`interrupts.s`)

`irq_handler` returns, in EAX, the stack pointer of the task that goes on, and the end of `irq_common_stub`
loads the processor from that stack. The instructions are those of the stub from the call on, as the processor
executes them. What `add` does to the flags is a parameter; `iret` loads all of them.
-/

namespace RtosKernel

open Lib

/-- The registers of the processor. -/
structure Cpu where
  eax : UInt32
  ecx : UInt32
  edx : UInt32
  ebx : UInt32
  esp : UInt32
  ebp : UInt32
  esi : UInt32
  edi : UInt32
  eip : UInt32
  eflags : UInt32
  cs : UInt16
  ss : UInt16
  ds : UInt16
  es : UInt16
  fs : UInt16
  gs : UInt16

/-- The processor and the memory, with the addresses of the words that were read from the stack, the latest
first. -/
structure Machine where
  cpu : Cpu
  mem : Mem
  reads : List UInt32

namespace Machine

/-- The word on top of the stack, and the machine after it is popped. -/
def pop (s : Machine) : UInt32 × Machine :=
  (s.mem.load32 s.cpu.esp,
    { s with cpu := { s.cpu with esp := s.cpu.esp + 4 }, reads := s.cpu.esp :: s.reads })

/-- `n` bytes of the stack are passed over. -/
def skip (n : UInt32) (s : Machine) : Machine := { s with cpu := { s.cpu with esp := s.cpu.esp + n } }

end Machine

/-- The data segment registers that the stub loads. -/
inductive SegReg where
  | ds
  | es
  | fs
  | gs
  deriving DecidableEq, Repr

/-- The instructions at the end of `irq_common_stub`. -/
inductive Instr where
  | movEspEax
  | popEax
  | movSegAx (r : SegReg)
  | popa
  | addEsp (n : UInt32)
  | sti
  | iret
  deriving DecidableEq, Repr

/-- `mov r, ax`. -/
def loadSeg (r : SegReg) (cpu : Cpu) : Cpu :=
  match r with
  | .ds => { cpu with ds := cpu.eax.toUInt16 }
  | .es => { cpu with es := cpu.eax.toUInt16 }
  | .fs => { cpu with fs := cpu.eax.toUInt16 }
  | .gs => { cpu with gs := cpu.eax.toUInt16 }

/-- `popa`: the stack pointer on the stack is passed over. -/
def popa (s : Machine) : Machine :=
  let (edi, s) := s.pop
  let (esi, s) := s.pop
  let (ebp, s) := s.pop
  let s := s.skip 4
  let (ebx, s) := s.pop
  let (edx, s) := s.pop
  let (ecx, s) := s.pop
  let (eax, s) := s.pop
  { s with
    cpu := { s.cpu with edi := edi, esi := esi, ebp := ebp, ebx := ebx, edx := edx, ecx := ecx, eax := eax } }

/-- `iret`: the stack of an outer ring is loaded too, if the return goes there. -/
def iret (s : Machine) : Machine :=
  let (eip, s) := s.pop
  let (cs, s) := s.pop
  let (eflags, s) := s.pop
  let inner := s.cpu.cs
  let s := { s with cpu := { s.cpu with eip := eip, cs := cs.toUInt16, eflags := eflags } }
  if inner &&& 3 < cs.toUInt16 &&& 3 then
    let (esp, s) := s.pop
    let (ss, s) := s.pop
    { s with cpu := { s.cpu with esp := esp, ss := ss.toUInt16 } }
  else s

/-- An instruction at the end of the stub. -/
def execInstr (addFlags : UInt32 → UInt32) (s : Machine) : Instr → Machine
  | .movEspEax => { s with cpu := { s.cpu with esp := s.cpu.eax } }
  | .popEax =>
    let (eax, s) := s.pop
    { s with cpu := { s.cpu with eax := eax } }
  | .movSegAx r => { s with cpu := loadSeg r s.cpu }
  | .popa => popa s
  | .addEsp n => { s.skip n with cpu := { (s.skip n).cpu with eflags := addFlags s.cpu.eflags } }
  | .sti => { s with cpu := { s.cpu with eflags := s.cpu.eflags ||| 0x200 } }
  | .iret => iret s

/-- `irq_common_stub` after `call irq_handler`. -/
def irqExit : List Instr :=
  [.movEspEax, .popEax, .movSegAx .ds, .movSegAx .es, .movSegAx .fs, .movSegAx .gs, .popa, .addEsp 8, .sti, .iret]

/-- The end of the stub, from the return of `irq_handler` to the task. -/
def runExit (addFlags : UInt32 → UInt32) (s : Machine) : Machine := irqExit.foldl (execInstr addFlags) s

/-! ## What the initial stacks are for -/

/-- The addresses of `task_pool[i].stack` and `proc_pool[i].stack`. -/
def taskStackAddr (poolAddr : UInt32) (i : ℕ) : UInt32 := poolAddr + sizeofTask * UInt32.ofNat i + taskStackOffset

/-- `proc_pool[i].stack`. -/
def procStackAddr (poolAddr : UInt32) (i : ℕ) : UInt32 :=
  poolAddr + sizeofProcess * UInt32.ofNat i + procStackOffset

/-- The stack array stands in memory at an address. -/
def StackAt (m : Mem) (addr : UInt32) (words : ℕ) (stack : ℕ → UInt32) : Prop :=
  ∀ i < words, m.load32 (addr + 4 * UInt32.ofNat i) = stack i

/-- The stores that push the words: the index in the stack array, and the word. -/
def pushStores : ℕ → List UInt32 → List (ℕ × UInt32)
  | _, [] => []
  | top, w :: ws => (top - 1, w) :: pushStores (top - 1) ws

/-- The processor is at the entry of a task, in the kernel's segments, with an empty stack, and has read only
words of the stack array that its construction had stored. -/
structure AtEntry (entry addr : UInt32) (words : ℕ) (s : Machine) : Prop where
  eip : s.cpu.eip = entry
  cs : s.cpu.cs = 0x08
  eflags : s.cpu.eflags = 0x202
  segments : s.cpu.ds = 0x10 ∧ s.cpu.es = 0x10 ∧ s.cpu.fs = 0x10 ∧ s.cpu.gs = 0x10
  registers : s.cpu.eax = 0 ∧ s.cpu.ecx = 0 ∧ s.cpu.edx = 0 ∧ s.cpu.ebx = 0 ∧ s.cpu.ebp = 0 ∧ s.cpu.esi = 0 ∧
    s.cpu.edi = 0
  esp : s.cpu.esp = addr + 4 * UInt32.ofNat words
  reads : ∀ a ∈ s.reads, ∃ p ∈ pushStores words (initialFrame entry), a = addr + 4 * UInt32.ofNat p.1

/-- A return from an interrupt with this stack pointer, by the kernel's code, goes to the entry. -/
def StartsAt (entry addr : UInt32) (words : ℕ) (stack : ℕ → UInt32) (esp : UInt32) : Prop :=
  ∀ (addFlags : UInt32 → UInt32) (s : Machine), StackAt s.mem addr words stack → s.cpu.eax = esp →
    s.cpu.cs = 0x08 → s.reads = [] → AtEntry entry addr words (runExit addFlags s)

end RtosKernel
