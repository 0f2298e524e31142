import RtosKernel.Basic
import RtosKernel.Lib.Ring
import RtosKernel.Lib.Run

/-!
# The task scheduler (`task.c`)

The tasks are `main_task` and the pool of eight, linked into a circular list by `next`. `schedule` is
called with the stack pointer of the interrupted task, at every interrupt on vector 32.

`current_task` is only ever assigned the address of a task, so it is a `TaskRef` here and the null
test at the head of `schedule` disappears.
-/

namespace RtosKernel

open Lib

/-- `task_state_t`. -/
inductive TaskState where
  | ready
  | sleeping
  | blocked
  | zombie
  deriving DecidableEq, Repr

/-- `task_t`. The stack array is given by its words; a `Task` with all fields zero is what static
storage holds at boot. -/
structure Task where
  esp : UInt32 := 0
  id : UInt32 := 0
  priority : UInt32 := 0
  state : TaskState := .ready
  sleepTicks : UInt32 := 0
  cpuTicks : UInt32 := 0
  stack : ℕ → UInt32 := fun _ => 0
  next : Option TaskRef := none

/-- The static data of `task.c`. `poolAddr` is the address of `task_pool`, fixed by the linker. -/
structure Tasking where
  tasks : TaskRef → Task
  current : TaskRef
  nextPid : UInt32
  totalTasks : UInt32
  poolIndex : ℕ
  poolAddr : UInt32

namespace Tasking

/-- The links of the task list. -/
def next (s : Tasking) (t : TaskRef) : Option TaskRef := (s.tasks t).next

/-- `*t = v` -/
def setTask (s : Tasking) (t : TaskRef) (v : Task) : Tasking :=
  { s with tasks := Function.update s.tasks t v }

end Tasking

/-- `sizeof(task_t)` and the offset of `stack` in it. -/
def sizeofTask : UInt32 := 4124

/-- The offset of `stack` in `task_t`. -/
def taskStackOffset : UInt32 := 24

/-- Words of `stack[4096]`. -/
def taskStackWords : ℕ := 1024

/-- The static data at boot. -/
def bootTasking (poolAddr : UInt32) : Tasking :=
  { tasks := fun _ => {}, current := .mainTask, nextPid := 1, totalTasks := 1, poolIndex := 0, poolAddr }

/-- `init_tasking()`. The slots of the pool keep what they have. -/
def initTasking (s : Tasking) : Tasking :=
  let main := { s.tasks .mainTask with
    id := 0, priority := 1, esp := 0, state := .ready, sleepTicks := 0, cpuTicks := 0,
    next := some .mainTask }
  { s.setTask .mainTask main with current := .mainTask, totalTasks := 1, poolIndex := 0 }

/-- The new task of `create_task`, before it is linked in. -/
def newTask (old : Task) (id entry priority stackAddr : UInt32) : Task :=
  let st := buildStack entry taskStackWords old.stack
  { old with
    id := id, priority := priority, state := .ready, sleepTicks := 0, cpuTicks := 0,
    stack := st.1, esp := stackAddr + 4 * UInt32.ofNat st.2 }

/-- `create_task(entry, priority)`: the new task stands behind the current one on the ring. On a full pool nothing
happens. -/
def createTask (entry priority : UInt32) (s : Tasking) : Tasking :=
  if h : s.poolIndex < taskPoolSize then
    let nt := TaskRef.pool ⟨s.poolIndex, h⟩
    let stackAddr := s.poolAddr + sizeofTask * UInt32.ofNat s.poolIndex + taskStackOffset
    let v := newTask (s.tasks nt) s.nextPid entry priority stackAddr
    -- nt->next = current_task->next; current_task->next = nt;
    let s1 := s.setTask nt v
    let s2 := s1.setTask nt { s1.tasks nt with next := s1.next s1.current }
    let s3 := s2.setTask s2.current { s2.tasks s2.current with next := some nt }
    { s3 with poolIndex := s.poolIndex + 1, nextPid := s.nextPid + 1, totalTasks := s.totalTasks + 1 }
  else s

/-- What the first loop of `schedule` does to one task. -/
def wakeTask (t : Task) : Task :=
  if t.state = .sleeping then
    let t' := if 0 < t.sleepTicks then { t with sleepTicks := t.sleepTicks - 1 } else t
    if t'.sleepTicks = 0 then { t' with state := .ready } else t'
  else t

/-- What the second loop of `schedule` does with one task: `(best, best_prio)`. -/
def pickTask (s : Tasking) (t : TaskRef) (b : Option TaskRef × UInt32) : Option TaskRef × UInt32 :=
  if (s.tasks t).state = .ready ∧ b.2 < (s.tasks t).priority then (some t, (s.tasks t).priority) else b

/-- The decrementing loop of `schedule`, from `current_task` around the list. -/
def wakePass (fuel : ℕ) (s : Tasking) : Except Stop Tasking :=
  traverse Stop.spent Stop.null Tasking.next (fun t s => s.setTask t (wakeTask (s.tasks t)))
    s.current fuel s

/-- The selecting loop of `schedule`, from `current_task->next` around the list. -/
def selectPass (fuel : ℕ) (s : Tasking) : Except Stop (Option TaskRef × UInt32) :=
  match s.next s.current with
  | none => .error .null
  | some start =>
    traverse Stop.spent Stop.null (fun _ => s.next) (fun t b => pickTask s t b) start fuel (none, 0)

/-- `schedule(current_esp)`, with the stack pointer that it returns. It counts the sleepers down, and goes on with the
first ready task of the highest priority. -/
def schedule (fuel : ℕ) (currentEsp : UInt32) (s : Tasking) : Except Stop (UInt32 × Tasking) := do
  let s1 ← wakePass fuel (s.setTask s.current { s.tasks s.current with esp := currentEsp })
  let (best, _) ← selectPass fuel s1
  let cur := best.getD s1.current
  let t := s1.tasks cur
  pure (t.esp, { s1.setTask cur { t with cpuTicks := t.cpuTicks + 1 } with current := cur })

/-- The two assignments of `task_sleep(ticks)`, before its `int $32`. -/
def markSleeping (ticks : UInt32) (s : Tasking) : Tasking :=
  s.setTask s.current { s.tasks s.current with sleepTicks := ticks, state := .sleeping }

/-- `task_sleep(ticks)` as far as `task.c` goes: the `int $32` reaches `schedule` with the stack
pointer of the interrupted task. -/
def taskSleep (fuel : ℕ) (ticks esp : UInt32) (s : Tasking) : Except Stop Tasking :=
  if ticks = 0 then pure s
  else do
    let (_, s') ← schedule fuel esp (markSleeping ticks s)
    pure s'

/-- `task_count`. -/
def taskCount (s : Tasking) : UInt32 := s.totalTasks

/-! ## Runs -/

/-- A call of the task API, with the stack pointer at the call where it is saved. -/
inductive TaskOp where
  | create (entry priority : UInt32)
  | sleep (ticks esp : UInt32)
  | schedule (esp : UInt32)

/-- The scheduler, with the number of `schedule` calls that each task still has to sleep through: `n`
at a `task_sleep(n)`, and one less at each `schedule` call, that of the `task_sleep` included. -/
structure TaskSys where
  tasking : Tasking
  asleep : TaskRef → ℕ

/-- The sleepers after one `schedule` call. -/
def countPass (asleep : TaskRef → ℕ) : TaskRef → ℕ := fun t => asleep t - 1

/-- A step, with the passes of `schedule` that each sleeper still waits for. -/
def taskStep (fuel : ℕ) (s : TaskSys) : TaskOp → Except Stop TaskSys
  | .create entry priority => pure { s with tasking := createTask entry priority s.tasking }
  | .sleep ticks esp => do
    let k ← taskSleep fuel ticks esp s.tasking
    let asleep := if ticks = 0 then s.asleep
      else countPass (Function.update s.asleep s.tasking.current ticks.toNat)
    pure { tasking := k, asleep := asleep }
  | .schedule esp => do
    let (_, k) ← schedule fuel esp s.tasking
    pure { tasking := k, asleep := countPass s.asleep }

/-- The scheduler right after `init_tasking`. -/
def bootTasks (s : Tasking) : TaskSys := { tasking := initTasking s, asleep := fun _ => 0 }

/-- The tasks that are made current by the calls of `schedule` in turn, with what happens to the data of
`task.c` before each of them. -/
def currents (fuel : ℕ) : List ((Tasking → Tasking) × UInt32) → Tasking → Except Stop (List TaskRef)
  | [], _ => pure []
  | (before, esp) :: calls, s => do
    let (_, s') ← schedule fuel esp (before s)
    let ts ← currents fuel calls s'
    pure (s'.current :: ts)

/-- The scheduler with the record of its `schedule` calls: which task was current and which stack
pointer was passed, the latest call first, and the tasks that have been current so far. -/
structure ContextSys where
  tasking : Tasking
  saves : List (TaskRef × UInt32)
  ran : List TaskRef

/-- The record after a `schedule` call with `esp` that left the scheduler in `k`. -/
def ContextSys.record (s : ContextSys) (esp : UInt32) (k : Tasking) : ContextSys :=
  { tasking := k, saves := (s.tasking.current, esp) :: s.saves, ran := k.current :: s.ran }

/-- A step, with the stack pointers that were handed to `schedule` noted. -/
def contextStep (fuel : ℕ) (s : ContextSys) : TaskOp → Except Stop ContextSys
  | .create entry priority => pure { s with tasking := createTask entry priority s.tasking }
  | .sleep ticks esp => do
    let k ← taskSleep fuel ticks esp s.tasking
    pure (if ticks = 0 then s else s.record esp k)
  | .schedule esp => do
    let (_, k) ← schedule fuel esp s.tasking
    pure (s.record esp k)

/-- The main task runs, and nothing has been saved. -/
def bootContexts (s : Tasking) : ContextSys := { tasking := initTasking s, saves := [], ran := [.mainTask] }

/-- The stack pointer passed to the latest `schedule` call that was made while `t` was current. -/
def lastSave (saves : List (TaskRef × UInt32)) (t : TaskRef) : Option UInt32 :=
  (saves.find? fun x => x.1 = t).map Prod.snd

/-- The stack pointer of a fresh pool task: its stack holds the initial frame and nothing else. -/
def initialEsp (poolAddr : UInt32) (i : Fin taskPoolSize) : UInt32 :=
  poolAddr + sizeofTask * UInt32.ofNat i + taskStackOffset +
    4 * UInt32.ofNat (taskStackWords - (initialFrame 0).length)

end RtosKernel
