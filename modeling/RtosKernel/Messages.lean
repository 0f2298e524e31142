import RtosKernel.Kernel
import RtosKernel.Printing
import RtosKernel.Queue

/-!
# The two tasks (`kernel.c`)

`task_a` counts its rounds and pushes the counter into `msg_queue`; `task_b` pops what is there. Each shows its
number in the header, under `vga_mutex`, and sleeps. A timer interrupt can come between any two statements, so the
tasks are given statement by statement, as the queue is: a `LoopPc` is the statement of the loop that a task
executes next. The CPU goes from task to task as `schedule` says, and `kernel_main` is the main task.

Of the screen, `screen` has what the two tasks store on the rows 2 and 3. Left out: what `uptime_display_cb` draws on
row 1 from the timer interrupt, and the keyboard interrupt. Its handler uses neither the queue nor `vga_mutex`, but the
command `clear` blanks the rows 2 and 3 too: no key is typed here. `kernel_main` enables interrupts only behind its
calls of `create_task`; here one may come before.
-/

namespace RtosKernel

open Lib

/-- The statements of `task_sleep(ticks)`; `ticks` is not zero in the calls here. -/
inductive SleepPc where
  /-- `current_task->sleep_ticks = ticks` -/
  | ticks
  /-- `current_task->state = TASK_SLEEPING` -/
  | state
  /-- `int $32` -/
  | trap
  deriving DecidableEq

/-- Where a task is in the loop of `task_a` or `task_b`. -/
inductive LoopPc where
  /-- In `queue_push` or `queue_pop`. -/
  | queue (pc : QueuePc)
  /-- In the `task_sleep(1)` of `mutex_lock(&q->lock)`. -/
  | queueWait (pc : QueuePc) (p : SleepPc)
  /-- In the loop of `mutex_lock(&vga_mutex)`. -/
  | lock
  | lockWait (p : SleepPc)
  /-- In `terminal_write_dec`: the characters that are still to be stored, and the place of the first. -/
  | put (j : ℕ) (rest : List UInt8)
  /-- `mutex_unlock(&vga_mutex)` -/
  | unlock
  /-- `count++` -/
  | incr
  /-- In `task_sleep(50)` or `task_sleep(75)`. -/
  | sleep (p : SleepPc)
  deriving DecidableEq

/-- A task in its loop: the statement, the local variable `count` or `val`, and the number that it has shown in the
header, if it has shown one. Nothing reads the last. -/
structure Frame where
  pc : LoopPc
  num : UInt32
  shown : Option UInt32

/-- What the loops of `task_a` and `task_b` consist of. -/
structure LoopBody where
  /-- The call on the queue with which a round begins. -/
  call : UInt32 → QueuePc
  /-- Where the task goes on when that call has returned, and its local variable. -/
  returned : QueueEvent → UInt32 → LoopPc × UInt32
  /-- The row of the header. -/
  row : ℤ
  /-- The statement behind `mutex_unlock(&vga_mutex)`. -/
  next : LoopPc
  /-- The argument of `task_sleep`. -/
  ticks : UInt32

/-- `task_a`. It does not look at what `queue_push` returns. -/
def taskA : LoopBody where
  call count := .pushLock count
  returned _ count := (.lock, count)
  row := 2
  next := .incr
  ticks := 50

/-- `task_b`. It shows what it has popped; if there was nothing, it sleeps. -/
def taskB : LoopBody where
  call _ := .popLock
  returned
    | .popped v, _ => (.lock, v)
    | _, val => (.sleep .ticks, val)
  row := 3
  next := .sleep .ticks
  ticks := 75

/-- The tasks run these functions: `create_task` takes the pool in order. -/
def loopOf : TaskRef → Option LoopBody
  | .mainTask => none
  | .pool i => if i = 0 then some taskA else if i = 1 then some taskB else none

/-- The data that the two tasks use, with the tasks and the events of the queue. -/
structure Messages where
  kernel : Kernel
  msgQueue : Queue
  vgaMutex : Mutex
  /-- With the rows 2 and 3 as they are on the screen. -/
  screen : Terminal
  /-- The calls of `create_task` that `kernel_main` has made. -/
  created : ℕ
  frame : TaskRef → Frame
  events : List QueueEvent

/-- What does not change during a run: the timer callbacks, the budget of the loops, and the addresses of the
functions. -/
structure TaskEnv where
  body : Callbacks
  fuel : ℕ
  taskAAddr : UInt32
  taskBAddr : UInt32

/-- Why a statement has not been executed. -/
inductive TaskStop where
  | kernel (e : Stop)
  | text (e : ShellStop)
  deriving DecidableEq, Repr

namespace Messages

/-- `current_task`. -/
def current (s : Messages) : TaskRef := s.kernel.tasking.current

/-- The frame of the running task is now `f`. -/
def setFrame (s : Messages) (f : Frame) : Messages := { s with frame := Function.update s.frame s.current f }

/-- The running task goes on at `pc`. -/
def goto (s : Messages) (pc : LoopPc) : Messages := s.setFrame { s.frame s.current with pc := pc }

/-- An assignment to the task that runs. -/
def setCurrent (s : Messages) (v : Task) : Messages :=
  { s with kernel := { s.kernel with tasking := s.kernel.tasking.setTask s.current v } }

/-- The task that runs. -/
def task (s : Messages) : Task := s.kernel.tasking.tasks s.current

end Messages

/-- `irq_handler` for `int_no == 32`. What the timer callbacks draw, on rows other than 2 and 3, is left out. -/
def messageIrq (env : TaskEnv) (esp : UInt32) (s : Messages) : Except TaskStop Messages := do
  let k ← (irqHandler env.body env.fuel esp s.kernel).mapError .kernel
  pure { s with kernel := k }

/-- A statement of `task_sleep(ticks)`; `here` is where the task is in it, and `after` where it goes on. -/
def sleepExec (env : TaskEnv) (ticks esp : UInt32) (here : SleepPc → LoopPc) (after : LoopPc) (s : Messages) :
    SleepPc → Except TaskStop Messages
  | .ticks => pure ((s.setCurrent { s.task with sleepTicks := ticks }).goto (here .state))
  | .state => pure ((s.setCurrent { s.task with state := .sleeping }).goto (here .trap))
  | .trap => messageIrq env esp (s.goto after)

/-- The characters that `terminal_write_dec` stores, from the column `col` on. -/
def writeDecText (buf : ℕ → UInt8) (n : UInt32) : Except ShellStop (List UInt8) :=
  if n = 0 then pure [48, 32]
  else do
    let (buf, i) ← putDigits 12 n buf 0
    pure ((List.range i).map (fun j => buf (i - 1 - j)) ++ [32])

/-- A statement of the queue call. A failed attempt to lock the queue leads to `task_sleep(1)`. -/
def queueCallExec (body : LoopBody) (s : Messages) (pc : QueuePc) : Messages :=
  let f := s.frame s.current
  let (q, pc', e) := queueExec s.current s.msgQueue pc
  let f' : Frame := match e with
    | some e => { f with pc := (body.returned e f.num).1, num := (body.returned e f.num).2 }
    | none => { f with pc := if pc' = pc then .queueWait pc .ticks else .queue pc' }
  { s.setFrame f' with msgQueue := q, events := s.events ++ e.toList }

/-- The next statement of the loop. `esp` is the stack pointer at an `int $32`, and `buf` what the local array of
`terminal_write_dec` holds. -/
def loopExec (env : TaskEnv) (body : LoopBody) (esp : UInt32) (buf : ℕ → UInt8) (s : Messages) :
    Except TaskStop Messages :=
  let f := s.frame s.current
  match f.pc with
  | .queue pc => pure (queueCallExec body s pc)
  | .queueWait pc p => sleepExec env 1 esp (.queueWait pc) (.queue pc) s p
  | .lock =>
    match mutexTryLock s.current s.vgaMutex with
    | some mx => do
      let text ← (writeDecText buf f.num).mapError .text
      pure { s.goto (.put 0 text) with vgaMutex := mx }
    | none => pure (s.goto (.lockWait .ticks))
  | .lockWait p => sleepExec env 1 esp .lockWait .lock s p
  | .put j (c :: rest) =>
    pure { s.goto (.put (j + 1) rest) with screen := vgaPutAt body.row (26 + j) c vgaColorDefault s.screen }
  | .put _ [] => pure (s.setFrame { f with pc := .unlock, shown := some f.num })
  | .unlock => pure { s.goto body.next with vgaMutex := mutexUnlock s.current s.vgaMutex }
  | .incr => pure (s.setFrame { f with pc := .sleep .ticks, num := f.num + 1 })
  | .sleep p => sleepExec env body.ticks esp .sleep (.queue (body.call f.num)) s p

/-- The next statement of `kernel_main`: the two calls of `create_task`, and then `hlt`. -/
def mainExec (env : TaskEnv) (s : Messages) : Messages :=
  let create (entry priority : UInt32) : Messages :=
    { s with
      kernel := { s.kernel with tasking := createTask entry priority s.kernel.tasking }
      created := s.created + 1 }
  if s.created = 0 then create env.taskAAddr 3
  else if s.created = 1 then create env.taskBAddr 2
  else s

/-- A timer interrupt, or the next statement of the task that runs. -/
inductive MessageOp where
  | irq0 (esp : UInt32)
  | exec (esp : UInt32) (buf : ℕ → UInt8)

/-- A step of the system. -/
def messageStep (env : TaskEnv) (s : Messages) : MessageOp → Except TaskStop Messages
  | .irq0 esp => messageIrq env esp s
  | .exec esp buf =>
    match loopOf s.current with
    | some body => loopExec env body esp buf s
    | none => pure (mainExec env s)

/-- The task at its entry. -/
def entryFrame (t : TaskRef) : Frame where
  pc := match loopOf t with
    | some body => .queue (body.call 0)
    | none => .queue .idle
  num := 0
  shown := none

/-- The kernel when `init_tasking` has returned to `kernel_main`. -/
def bootMessages (k : Kernel) (q : Queue) (screen : Terminal) : Messages where
  kernel := { k with tasking := initTasking k.tasking }
  msgQueue := queueInit q
  vgaMutex := mutexInit
  screen := screen
  created := 0
  frame := entryFrame
  events := []

/-! ## What the messages are -/

/-- The values that the calls of `queue_push` were made with. -/
def offeredValues (events : List QueueEvent) : List UInt32 :=
  events.filterMap fun
    | .pushed v => some v
    | .full v => some v
    | _ => none

/-- The first `n` values of the counter of `task_a`. -/
def counterValues (n : ℕ) : List UInt32 := (List.range n).map UInt32.ofNat

/-- The text that the header shows behind the label of the row. -/
def HeaderShows (s : Terminal) (row : ℤ) (text : List UInt8) : Prop :=
  ∀ j < text.length, charAt s row (26 + j) = text.getD j 0

end RtosKernel
