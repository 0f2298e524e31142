import RtosKernel.Task
import RtosKernel.Lib.Loop

/-!
# Mutexes (`mutex.c`)

`mutex_lock` is a retry loop: a `cli..sti` section that takes the mutex if it is not locked, and
otherwise `task_sleep(1)`, during which other tasks run. A `Caller` is the calling task together with
what the other tasks do to the mutex during each of its sleeps, so a statement for all callers is a
statement for all schedules.
-/

namespace RtosKernel

open Lib

/-- `mutex_t`. -/
structure Mutex where
  locked : UInt32
  owner : Option TaskRef
  deriving DecidableEq, Repr

/-- `mutex_init`. -/
def mutexInit : Mutex := ⟨0, none⟩

/-- The `cli..sti` section of `mutex_lock`: the mutex taken by `t`, or nothing if it is locked. -/
def mutexTryLock (t : TaskRef) (m : Mutex) : Option Mutex :=
  if m.locked = 0 then some ⟨1, some t⟩ else none

/-- `mutex_unlock(m)` by task `t`: nothing, unless the task is the owner. -/
def mutexUnlock (t : TaskRef) (m : Mutex) : Mutex :=
  if m.locked ≠ 0 ∧ m.owner = some t then ⟨0, none⟩ else m

/-- What a task does to a mutex in one `cli..sti` section. -/
inductive MutexCall where
  | lock
  | unlock
  deriving DecidableEq, Repr

/-- One `cli..sti` section by another task. A failed attempt to lock changes nothing. -/
def mutexStep (m : Mutex) (c : TaskRef × MutexCall) : Mutex :=
  match c.2 with
  | .lock => (mutexTryLock c.1 m).getD m
  | .unlock => mutexUnlock c.1 m

/-- A calling task, the budget of its loops, and what the other tasks do to the mutex it waits for
during its `k`-th sleep. -/
structure Caller where
  task : TaskRef
  fuel : ℕ
  others : ℕ → List (TaskRef × MutexCall)
  others_ne : ∀ k, ∀ c ∈ others k, c.1 ≠ task

/-- A task that is alone: nobody else touches the mutex while it waits. -/
def soloCaller (t : TaskRef) : Caller :=
  { task := t, fuel := 0, others := fun _ => [], others_ne := by simp }

/-- The same caller with another budget. -/
def Caller.withFuel (c : Caller) (fuel : ℕ) : Caller := { c with fuel := fuel }

/-- One pass of the loop of `mutex_lock`, with the number of sleeps so far. -/
def mutexLockBody (c : Caller) : Mutex × ℕ → Except Stop ((Mutex × ℕ) ⊕ Mutex)
  | (m, k) =>
    match mutexTryLock c.task m with
    | some m' => .ok (.inr m')
    | none => .ok (.inl ((c.others k).foldl mutexStep m, k + 1))

/-- `mutex_lock`. A call that is still waiting when the budget is spent says for whom. -/
def mutexLock (c : Caller) (m : Mutex) : Except Stop Mutex :=
  loop (.waiting m.owner) (mutexLockBody c) c.fuel (m, 0)

/-! ## Runs of several tasks on several mutexes -/

/-- `current_task`, the mutexes, and for each mutex the tasks that are between the return of their
`mutex_lock` and their `mutex_unlock`. -/
structure LockSys where
  current : TaskRef
  mutexes : ℕ → Mutex
  inside : ℕ → List TaskRef

/-- A context switch, or what the running task does next. -/
inductive LockOp where
  | switch (t : TaskRef)
  /-- One pass of the loop of `mutex_lock`. A task that finds the mutex locked makes the next pass when
  it runs again. -/
  | lock (m : ℕ)
  | unlock (m : ℕ)

/-- A step of the tasks on the mutexes. The pass of a task that finds its mutex locked changes nothing. -/
def lockStep (s : LockSys) : LockOp → LockSys
  | .switch t => { s with current := t }
  | .lock m =>
    match mutexTryLock s.current (s.mutexes m) with
    | some mx =>
      { s with
        mutexes := Function.update s.mutexes m mx
        inside := Function.update s.inside m (s.current :: s.inside m) }
    | none => s
  | .unlock m =>
    { s with
      mutexes := Function.update s.mutexes m (mutexUnlock s.current (s.mutexes m))
      inside := Function.update s.inside m ((s.inside m).erase s.current) }

/-- All mutexes are initialised and no task has called anything yet. -/
def bootLocks : LockSys := { current := .mainTask, mutexes := fun _ => mutexInit, inside := fun _ => [] }

end RtosKernel
