import RtosKernel.Kernel
import RtosKernel.Stubs

/-!
# The context switch (`interrupts.s`, `idt.c`, `task.c`)

One processor and one memory, shared by the tasks. What the running task does between two interrupts is left open: it
may load any register and store anywhere but in the stack of another task and in what the switch itself reads: the
fields of the `task_t`s, and the other data and code of the kernel that an interrupt goes through. These are not in the
memory of the model, so a store into them must be ruled out (`StackLayout.Reserved`). An interrupt goes through the
processor, the stub, `irq_handler`, `schedule` and the end of the stub.

Against this stands a specification in which every task has a processor and a stack of its own, and an interrupt does
nothing but choose the task that goes on (`VirtualStep`).

Left out: the acknowledgement of the interrupt controller. An interrupt is handled to its end before the next one comes,
and the keyboard handler is taken not to sleep: an interrupt of the keyboard returns to the task that it has
interrupted. `create_task` is not interrupted, as `kernel_main` calls it with the interrupts off.
-/

namespace RtosKernel

open Lib

/-- Where the linker has put `task_pool`, `main_task` and the stack of `boot.s`, and the ranges of the other data and
code that an interrupt depends on: `current_task` and `pool_index`, the data of `idt.c` and `timer.c`, the tables of the
processor, the stubs, and the code that they call. -/
structure StackLayout where
  pool : UInt32
  mainTask : UInt32
  mainLo : ℕ
  mainHi : ℕ
  others : List (ℕ × ℕ)
  pool_fits : pool.toNat + 8 * 4124 ≤ 2 ^ 32
  main_fits : mainHi ≤ 2 ^ 32
  apart : mainHi ≤ pool.toNat ∨ pool.toNat + 8 * 4124 ≤ mainLo

namespace StackLayout

/-- The stack of a task: the addresses `lo t ≤ a < hi t`. -/
def lo (L : StackLayout) : TaskRef → ℕ
  | .mainTask => L.mainLo
  | .pool i => L.pool.toNat + 4124 * i + 24

/-- The end of the stack of a task, where its stack pointer starts. -/
def hi (L : StackLayout) : TaskRef → ℕ
  | .mainTask => L.mainHi
  | .pool i => L.pool.toNat + 4124 * i + 24 + 4096

/-- The address is in the stack of the task. -/
def InStack (L : StackLayout) (t : TaskRef) (a : UInt32) : Prop := L.lo t ≤ a.toNat ∧ a.toNat < L.hi t

/-- What the switch reads: the fields of the `task_t`s beside the stacks of the pool, and the other ranges. -/
def Reserved (L : StackLayout) (a : UInt32) : Prop :=
  (L.pool.toNat ≤ a.toNat ∧ a.toNat < L.pool.toNat + 8 * 4124 ∧ ∀ i, ¬ L.InStack (.pool i) a) ∨
    (L.mainTask.toNat ≤ a.toNat ∧ a.toNat < L.mainTask.toNat + 4124) ∨ ∃ r ∈ L.others, r.1 ≤ a.toNat ∧ a.toNat < r.2

/-- The stack pointer is in the stack, and there is space for the frame of an interrupt and the call of
`irq_handler`. -/
def Room (L : StackLayout) (t : TaskRef) (sp : UInt32) : Prop := L.lo t + 64 ≤ sp.toNat ∧ sp.toNat ≤ L.hi t

instance (L : StackLayout) (t : TaskRef) (a : UInt32) : Decidable (L.InStack t a) :=
  inferInstanceAs (Decidable (L.lo t ≤ a.toNat ∧ a.toNat < L.hi t))

instance (L : StackLayout) (a : UInt32) : Decidable (L.Reserved a) :=
  inferInstanceAs (Decidable ((_ ∧ _ ∧ ∀ i : Fin taskPoolSize, ¬ L.InStack (.pool i) a) ∨ (_ ∧ _) ∨ ∃ r ∈ L.others, _))

instance (L : StackLayout) (t : TaskRef) (sp : UInt32) : Decidable (L.Room t sp) :=
  inferInstanceAs (Decidable (L.lo t + 64 ≤ sp.toNat ∧ sp.toNat ≤ L.hi t))

end StackLayout

/-- Bytes stored, in order. -/
abbrev ByteWrites := List (UInt32 × UInt8)

/-- The memory after the stores. -/
def storeBytes (writes : ByteWrites) (m : Mem) : Mem := writes.foldl (fun m w => m.store8 w.1 w.2) m

/-- The bytes after the stores. -/
def writeBytes (writes : ByteWrites) (f : UInt32 → UInt8) : UInt32 → UInt8 :=
  writes.foldl (fun f w => Function.update f w.1 w.2) f

/-- What does not change during a run: the timer callbacks, the budget of the loops, the layout, the addresses of the
stubs and of the instruction behind `call irq_handler`, and what `add` does to the flags. -/
structure SwitchEnv where
  body : Callbacks
  fuel : ℕ
  layout : StackLayout
  irq0Addr : UInt32
  irq1Addr : UInt32
  returnAddr : UInt32
  addFlags : UInt32 → UInt32

/-- The interrupts of the interrupt controller; `int $32` is the first of them, too. -/
inductive Irq where
  | irq0
  | irq1
  deriving DecidableEq, Repr

/-- The number of the interrupt, as `pic_remap` sets it. -/
def Irq.vector : Irq → UInt8
  | .irq0 => 32
  | .irq1 => 33

/-- What the C code of `irq_handler` does besides: its stores, and what it leaves in the registers that it need not
keep. -/
structure HandlerCall where
  writes : ByteWrites
  ecx : UInt32
  edx : UInt32
  eflags : UInt32

/-- The data of the kernel, the processor and the memory. -/
structure SwitchSys where
  kernel : Kernel
  cpu : Cpu
  mem : Mem

/-- `irq_handler(regs)`: the value that it returns, and the data of the kernel. -/
def irqHandlerRet (body : Callbacks) (fuel : ℕ) (i : Irq) (regs : UInt32) (k : Kernel) : Except Stop (UInt32 × Kernel) :=
  match i with
  | .irq0 => do
    let t := if k.timerHandler then (timerIrqCallback body k.timer).1 else k.timer
    let (esp, s) ← schedule fuel regs k.tasking
    pure (esp, { k with timer := t, tasking := s })
  | .irq1 => pure (regs, k)

/-- The machine at `call irq_handler`. -/
def enterIrq (env : SwitchEnv) (i : Irq) (cpu : Cpu) (mem : Mem) : Machine :=
  let handler := match i with
    | .irq0 => env.irq0Addr
    | .irq1 => env.irq1Addr
  runEntry [.pushEsp] (runEntry (vectorStub i.vector ++ commonEntry) (raiseVector handler none ⟨cpu, mem, []⟩))

/-- An interrupt, until the processor is back in a task. -/
def irqSwitch (env : SwitchEnv) (i : Irq) (call : HandlerCall) (s : SwitchSys) : Except Stop SwitchSys := do
  let m := enterIrq env i s.cpu s.mem
  let regs := m.mem.load32 m.cpu.esp
  let (esp, k) ← irqHandlerRet env.body env.fuel i regs s.kernel
  let mem := storeBytes call.writes (m.push env.returnAddr).mem
  let m' := runExit env.addFlags
    { cpu := { m.cpu with eax := esp, ecx := call.ecx, edx := call.edx, eflags := call.eflags }, mem := mem, reads := [] }
  pure { kernel := k, cpu := m'.cpu, mem := m'.mem }

/-- `create_task`, with the stores into the stack of the new task. -/
def createSwitch (entry priority : UInt32) (s : SwitchSys) : SwitchSys :=
  let k := s.kernel.tasking
  { s with
    kernel := { s.kernel with tasking := createTask entry priority k }
    mem := if k.poolIndex < taskPoolSize then
        s.mem.pushAll (taskStackAddr k.poolAddr k.poolIndex + 4096) (initialFrame entry)
      else s.mem }

/-- A step of the system: of the running task, of the functions that it calls, or an interrupt. -/
inductive SwitchOp where
  /-- The running task executes some instructions: the processor behind them, and what they stored. -/
  | exec (cpu : Cpu) (writes : ByteWrites)
  /-- The assignments of `task_sleep(ticks)`. -/
  | sleep (ticks : UInt32)
  | create (entry priority : UInt32)
  | irq (i : Irq) (call : HandlerCall)

/-- A step of the one processor. -/
def switchStep (env : SwitchEnv) (s : SwitchSys) : SwitchOp → Except Stop SwitchSys
  | .exec cpu writes => pure { s with cpu := cpu, mem := storeBytes writes s.mem }
  | .sleep ticks => pure { s with kernel := { s.kernel with tasking := markSleeping ticks s.kernel.tasking } }
  | .create entry priority => pure (createSwitch entry priority s)
  | .irq i call => irqSwitch env i call s

/-- The running task stays in the kernel's segments, has space on its stack, and stores nothing into the stack of
another task, nor into what the switch reads. The C code of the handler uses the stack below the frame, and leaves what
the switch reads alone but for the assignments of `schedule` and `timer_irq_callback`. -/
def SwitchOp.Safe (L : StackLayout) (s : SwitchSys) : SwitchOp → Prop
  | .exec cpu writes => cpu.cs = 0x08 ∧ cpu.ss = 0x10 ∧ L.Room s.kernel.tasking.current cpu.esp ∧
      ∀ w ∈ writes, ¬ L.Reserved w.1 ∧ ∀ t, L.InStack t w.1 → t = s.kernel.tasking.current
  | .irq _ call => ∀ w ∈ call.writes, ¬ L.Reserved w.1 ∧ ∀ t, L.InStack t w.1 →
      t = s.kernel.tasking.current ∧ w.1.toNat < s.cpu.esp.toNat - 56
  | _ => True

/-- The system when `init_tasking` has returned. -/
def bootSwitch (k : Kernel) (cpu : Cpu) (mem : Mem) : SwitchSys where
  kernel := { k with tasking := initTasking k.tasking }
  cpu := cpu
  mem := mem

/-! ## The specification -/

/-- A processor and a stack for each task, the task that runs, and the number of tasks created. -/
structure VirtualSys where
  cpu : TaskRef → Cpu
  stack : TaskRef → UInt32 → UInt8
  current : TaskRef
  created : ℕ

/-- The task exists. -/
def VirtualSys.Exists (v : VirtualSys) : TaskRef → Prop
  | .mainTask => True
  | .pool i => i < v.created

/-- A new task: at its entry, with an empty stack. -/
def entryCpu (entry top : UInt32) : Cpu :=
  { eax := 0, ecx := 0, edx := 0, ebx := 0, esp := top, ebp := 0, esi := 0, edi := 0, eip := entry, eflags := 0x202
    cs := 0x08, ss := 0x10, ds := 0x10, es := 0x10, fs := 0x10, gs := 0x10 }

/-- The running task is interrupted, and `next` goes on. -/
def VirtualSys.goOn (v : VirtualSys) (next : TaskRef) : VirtualSys :=
  { v with cpu := Function.update v.cpu v.current (v.cpu v.current).flat, current := next }

/-- A step of the specification. -/
inductive VirtualStep (L : StackLayout) (v : VirtualSys) : SwitchOp → VirtualSys → Prop
  /-- The running task has its processor. Below the stack pointer its stack may hold anything. -/
  | exec (cpu : Cpu) (writes : ByteWrites) (bytes : UInt32 → UInt8)
      (hbytes : ∀ a, (v.cpu v.current).esp ≤ a → bytes a = v.stack v.current a) :
      VirtualStep L v (.exec cpu writes)
        { v with
          cpu := Function.update v.cpu v.current cpu
          stack := Function.update v.stack v.current (writeBytes writes bytes) }
  | sleep (ticks : UInt32) : VirtualStep L v (.sleep ticks) v
  | create (entry priority : UInt32) (i : Fin taskPoolSize) (hi : i = v.created) :
      VirtualStep L v (.create entry priority)
        { v with
          cpu := Function.update v.cpu (.pool i) (entryCpu entry (UInt32.ofNat (L.hi (.pool i))))
          created := v.created + 1 }
  | full (entry priority : UInt32) (hfull : taskPoolSize ≤ v.created) : VirtualStep L v (.create entry priority) v
  /-- An interrupt: some task goes on, with the keyboard the same one. -/
  | irq (i : Irq) (call : HandlerCall) (next : TaskRef) (hnext : v.Exists next) (hkey : i = .irq1 → next = v.current) :
      VirtualStep L v (.irq i call) (v.goOn next)

/-- The processor is that of the running task, and the bytes from a task's stack pointer on are its own. -/
structure Simulates (L : StackLayout) (s : SwitchSys) (v : VirtualSys) : Prop where
  current : s.kernel.tasking.current = v.current
  running : s.cpu = v.cpu v.current
  stack : ∀ t, v.Exists t → ∀ a, (v.cpu t).esp ≤ a → a.toNat < L.hi t → s.mem.byte a = v.stack t a

end RtosKernel
