import RtosKernel.Lib.RingBuffer
import RtosKernel.Mutex

/-!
# Message queues (`queue.c`)

A queue is a circular buffer of 8 words under a mutex. Tasks are preempted anywhere, so `queue_push` and
`queue_pop` are given statement by statement: a `QueuePc` is the statement of the two functions that a task
executes next, together with its local data, and `queueExec` is what that statement does. The `cli..sti`
sections of `mutex_lock` and `mutex_unlock` are one statement each.
-/

namespace RtosKernel

open Lib

/-- `QUEUE_SIZE`. -/
def queueSize : ℤ := 8

/-- `queue_t`. -/
structure Queue where
  data : ℤ → UInt32
  head : ℤ
  tail : ℤ
  count : ℤ
  lock : Mutex

/-- `queue_init(q)`; the buffer keeps what it had. -/
def queueInit (q : Queue) : Queue := { q with head := 0, tail := 0, count := 0, lock := mutexInit }

/-- Where a task is in `queue_push(q, val)` or `queue_pop(q, &val)`. -/
inductive QueuePc where
  /-- In neither of the two. -/
  | idle
  /-- In the loop of `mutex_lock`. -/
  | pushLock (val : UInt32)
  /-- `if (q->count >= QUEUE_SIZE)` -/
  | pushTest (val : UInt32)
  /-- `q->data[q->tail] = val` -/
  | pushStore (val : UInt32)
  /-- `q->tail = (q->tail + 1) % QUEUE_SIZE` -/
  | pushTail (val : UInt32)
  /-- `q->count++` -/
  | pushCount (val : UInt32)
  /-- `mutex_unlock`, then `return true`. -/
  | pushDone (val : UInt32)
  /-- `mutex_unlock`, then `return false`. -/
  | pushFull (val : UInt32)
  | popLock
  /-- `if (q->count == 0)` -/
  | popTest
  /-- `*val = q->data[q->head]` -/
  | popLoad
  /-- `q->head = (q->head + 1) % QUEUE_SIZE` -/
  | popHead (val : UInt32)
  /-- `q->count--` -/
  | popCount (val : UInt32)
  | popDone (val : UInt32)
  | popEmpty
  deriving DecidableEq

/-- The task has returned from `mutex_lock` and not yet from `mutex_unlock`. -/
def QueuePc.inside : QueuePc → Bool
  | .idle | .pushLock _ | .popLock => false
  | _ => true

/-- What a call has returned, and a successful `queue_pop` in `*val`. -/
inductive QueueEvent where
  | pushed (val : UInt32)
  | full (val : UInt32)
  | popped (val : UInt32)
  | empty
  deriving DecidableEq

/-- The statement at `pc`, executed by the task `t`: the queue, where the task is then, and what the call
returned if it has. -/
def queueExec (t : TaskRef) (q : Queue) : QueuePc → Queue × QueuePc × Option QueueEvent
  | .idle => (q, .idle, none)
  | .pushLock v =>
    match mutexTryLock t q.lock with
    | some mx => ({ q with lock := mx }, .pushTest v, none)
    | none => (q, .pushLock v, none)
  | .pushTest v => (q, if q.count ≥ queueSize then .pushFull v else .pushStore v, none)
  | .pushStore v => ({ q with data := Function.update q.data q.tail v }, .pushTail v, none)
  | .pushTail v => ({ q with tail := (q.tail + 1).tmod queueSize }, .pushCount v, none)
  | .pushCount v => ({ q with count := q.count + 1 }, .pushDone v, none)
  | .pushDone v => ({ q with lock := mutexUnlock t q.lock }, .idle, some (.pushed v))
  | .pushFull v => ({ q with lock := mutexUnlock t q.lock }, .idle, some (.full v))
  | .popLock =>
    match mutexTryLock t q.lock with
    | some mx => ({ q with lock := mx }, .popTest, none)
    | none => (q, .popLock, none)
  | .popTest => (q, if q.count = 0 then .popEmpty else .popLoad, none)
  | .popLoad => (q, .popHead (q.data q.head), none)
  | .popHead v => ({ q with head := (q.head + 1).tmod queueSize }, .popCount v, none)
  | .popCount v => ({ q with count := q.count - 1 }, .popDone v, none)
  | .popDone v => ({ q with lock := mutexUnlock t q.lock }, .idle, some (.popped v))
  | .popEmpty => ({ q with lock := mutexUnlock t q.lock }, .idle, some .empty)

/-- A queue, where each task is, and what the calls have returned so far in the order of their
`mutex_unlock`. -/
structure QueueSys where
  queue : Queue
  pc : TaskRef → QueuePc
  events : List QueueEvent

/-- A task calls one of the two functions, or executes its next statement. -/
inductive QueueOp where
  | push (t : TaskRef) (val : UInt32)
  | pop (t : TaskRef)
  | exec (t : TaskRef)

/-- A task that is inside a call makes no other call. -/
def queueStep (s : QueueSys) : QueueOp → QueueSys
  | .push t v => if s.pc t = .idle then { s with pc := Function.update s.pc t (.pushLock v) } else s
  | .pop t => if s.pc t = .idle then { s with pc := Function.update s.pc t .popLock } else s
  | .exec t =>
    let r := queueExec t s.queue (s.pc t)
    { queue := r.1, pc := Function.update s.pc t r.2.1, events := s.events ++ r.2.2.toList }

/-- A queue that has just been initialised; no task is in a call. -/
def newQueue (q : Queue) : QueueSys := { queue := queueInit q, pc := fun _ => .idle, events := [] }

/-- The values that the queue holds, the oldest first. -/
def queueItems (q : Queue) : List UInt32 := ringItems q.data queueSize q.head q.count.toNat

/-! ## The specification: the histories of a FIFO queue of capacity 8 -/

/-- The values held after a call that returned `e`, if the call may return that. -/
def fifoEvent (items : List UInt32) : QueueEvent → Option (List UInt32)
  | .pushed v => if items.length < 8 then some (items ++ [v]) else none
  | .full _ => if items.length = 8 then some items else none
  | .popped v =>
    match items with
    | [] => none
    | w :: rest => if v = w then some rest else none
  | .empty => if items = [] then some [] else none

/-- The values held after calls one after the other, if they may return that. -/
def heldAfter (events : List QueueEvent) : Option (List UInt32) := events.foldlM fifoEvent []

/-- The values of the successful pushes. -/
def pushedValues (events : List QueueEvent) : List UInt32 :=
  events.filterMap fun
    | .pushed v => some v
    | _ => none

/-- The values of the successful pops. -/
def poppedValues (events : List QueueEvent) : List UInt32 :=
  events.filterMap fun
    | .popped v => some v
    | _ => none

end RtosKernel
