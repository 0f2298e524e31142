import RtosKernel.Mutex
import RtosKernel.Process
import RtosKernel.Semaphore
import RtosKernel.Timer

/-!
# The kernel: interrupts on vector 32

`irq_handler` serves vector 32 for the hardware timer (IRQ0) and for the `int $32` by which tasks give up
the CPU: in both cases it calls the registered handler, `timer_irq_callback`, and then `schedule`.

A step of the kernel is a hardware interrupt or a call by the task that is running. `mutex_lock` and
`sem_wait` are loops with a `task_sleep(1)` in them, so that other tasks run between two attempts: a step
is one attempt, with the sleep if it fails. Which task makes the next call is left open, so the runs
include every interleaving.
-/

namespace RtosKernel

open Lib

/-- The kernel data: those of `timer.c`, `task.c` and `process.c`, any number of mutexes and semaphores,
and whether `interrupt_handlers[32]` is `timer_irq_callback` or null. -/
structure Kernel where
  timer : Timer
  tasking : Tasking
  procs : Procs
  mutexes : ℕ → Mutex
  sems : ℕ → Semaphore
  timerHandler : Bool

/-- `irq_handler` for `int_no == 32`, with the stack pointer it is called with. -/
def irqHandler (body : Callbacks) (fuel : ℕ) (regs : UInt32) (k : Kernel) : Except Stop Kernel := do
  let t := if k.timerHandler then (timerIrqCallback body k.timer).1 else k.timer
  let (_, s) ← schedule fuel regs k.tasking
  pure { k with timer := t, tasking := s }

/-- A hardware interrupt, or a call by the running task. The `esp` is the stack pointer at an interrupt,
if there is one. -/
inductive KernelOp where
  | irq0 (esp : UInt32)
  | taskYield (esp : UInt32)
  | taskSleep (ticks esp : UInt32)
  | processSleep (ticks esp : UInt32)
  /-- One attempt of `mutex_lock`. -/
  | mutexLock (m : ℕ) (esp : UInt32)
  | mutexUnlock (m : ℕ)
  /-- One attempt of `sem_wait`. -/
  | semWait (i : ℕ) (esp : UInt32)
  | semPost (i : ℕ)
  | createTask (entry priority : UInt32)
  | timer (call : TimerCall)

/-- `task_sleep`. -/
def sleepTask (body : Callbacks) (fuel : ℕ) (ticks esp : UInt32) (k : Kernel) : Except Stop Kernel :=
  if ticks = 0 then pure k
  else irqHandler body fuel esp { k with tasking := markSleeping ticks k.tasking }

/-- `process_sleep`. -/
def sleepProcess (body : Callbacks) (fuel : ℕ) (ticks esp : UInt32) (k : Kernel) : Except Stop Kernel := do
  let p ← processSleep ticks (getTicks k.timer) k.procs
  if ticks = 0 then pure k else irqHandler body fuel esp { k with procs := p }

/-- An interrupt, or what the running task calls. A pass of `mutex_lock` or `sem_wait` that does not get through ends in
the sleep of a tick. -/
def kernelCall (body : Callbacks) (fuel : ℕ) (k : Kernel) : KernelOp → Except Stop Kernel
  | .irq0 esp => irqHandler body fuel esp k
  | .taskYield esp => irqHandler body fuel esp k
  | .taskSleep ticks esp => sleepTask body fuel ticks esp k
  | .processSleep ticks esp => sleepProcess body fuel ticks esp k
  | .mutexLock m esp =>
    match mutexTryLock k.tasking.current (k.mutexes m) with
    | some mx => pure { k with mutexes := Function.update k.mutexes m mx }
    | none => sleepTask body fuel 1 esp k
  | .mutexUnlock m =>
    pure { k with mutexes := Function.update k.mutexes m (mutexUnlock k.tasking.current (k.mutexes m)) }
  | .semWait i esp =>
    match semTake (k.sems i) with
    | some sem => pure { k with sems := Function.update k.sems i sem }
    | none => sleepTask body fuel 1 esp k
  | .semPost i => pure { k with sems := Function.update k.sems i (semPost (k.sems i)) }
  | .createTask entry priority => pure { k with tasking := createTask entry priority k.tasking }
  | .timer call => pure { k with timer := timerCall k.timer call }

/-- The kernel with the number of hardware timer interrupts delivered since boot. -/
structure KernelSys where
  kernel : Kernel
  irqs : ℕ

/-- A step of the kernel, with the interrupts of the timer counted. -/
def kernelStep (body : Callbacks) (fuel : ℕ) (s : KernelSys) (op : KernelOp) : Except Stop KernelSys := do
  let k ← kernelCall body fuel s.kernel op
  let irqs := match op with
    | .irq0 _ => s.irqs + 1
    | _ => s.irqs
  pure { kernel := k, irqs := irqs }

/-- The kernel when `kernel_main` enables interrupts: `init_timer`, `init_tasking` and `process_init` are
done. -/
def bootKernel (frequency : UInt32) (s : Tasking) (p : Procs) (sems : ℕ → Semaphore) : KernelSys where
  kernel :=
    { timer := initTimer frequency bootTimer
      tasking := initTasking s
      procs := processInit p
      mutexes := fun _ => mutexInit
      sems := sems
      timerHandler := true }
  irqs := 0

/-! ## Runs with the process table -/

/-- A step of the kernel, or a call of the process API. `process_schedule` is not among them: no function
of the kernel calls it. -/
inductive KernelProcOp where
  | kernel (op : KernelOp)
  | processCreate (name : List UInt8) (entry priority ppid : UInt32)
  | processExit (pid : UInt32)

/-- A step of the kernel, or a call for the process table. -/
def kernelProcStep (body : Callbacks) (fuel : ℕ) (k : Kernel) : KernelProcOp → Except Stop Kernel
  | .kernel op => kernelCall body fuel k op
  | .processCreate name entry priority ppid => do
    let (_, p) ← processCreate fuel name entry priority ppid k.procs
    pure { k with procs := p }
  | .processExit pid => pure { k with procs := processExit pid k.procs }

end RtosKernel
