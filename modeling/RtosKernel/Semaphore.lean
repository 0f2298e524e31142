import RtosKernel.Basic
import RtosKernel.Lib.Run

/-!
# Counting semaphores (`semaphore.c`)

Each function is its `cli..sti` section; the sleep of `sem_wait` between two attempts is a step of
the kernel model.
-/

namespace RtosKernel

open Lib

/-- `semaphore_t`. -/
structure Semaphore where
  count : Int32
  max : UInt32
  deriving DecidableEq

/-- `sem_init(sem, initial, max)`. -/
def semInit (initial : Int32) (max : UInt32) : Semaphore := ⟨initial, max⟩

/-- One attempt of `sem_wait`: the semaphore after a successful one. -/
def semTake (s : Semaphore) : Option Semaphore :=
  if 0 < s.count then some { s with count := s.count - 1 } else none

/-- `sem_post(sem)`. The count is compared as an unsigned number. -/
def semPost (s : Semaphore) : Semaphore :=
  if s.count.toUInt32 < s.max then { s with count := s.count + 1 } else s

/-- `sem_trywait`: its return value and the semaphore. -/
def semTrywait (s : Semaphore) : Int32 × Semaphore :=
  match semTake s with
  | some s' => (0, s')
  | none => (-1, s)

/-! ## Runs -/

/-- A call of a semaphore function, by any task: none of them looks at its caller. `wait` is one attempt of
`sem_wait`. -/
inductive SemOp where
  | post
  | wait
  | trywait
  deriving DecidableEq, Repr

/-- The semaphore, with the number of posts that were made while the count was below the maximum and the
number of waits that succeeded. -/
structure SemSys where
  sem : Semaphore
  posts : ℕ
  takes : ℕ

/-- A step of the tasks on the semaphore, with the posts and the takes counted. -/
def semStep (s : SemSys) : SemOp → Except Stop SemSys
  | .post =>
    let below := s.sem.count.toInt < s.sem.max.toNat
    pure { s with sem := semPost s.sem, posts := if below then s.posts + 1 else s.posts }
  | .wait =>
    match semTake s.sem with
    | some sem => pure { s with sem := sem, takes := s.takes + 1 }
    | none => pure s
  | .trywait =>
    let (ret, sem) := semTrywait s.sem
    pure { s with sem := sem, takes := if ret = 0 then s.takes + 1 else s.takes }

/-- After `sem_init`. -/
def initSem (initial : Int32) (max : UInt32) : SemSys := { sem := semInit initial max, posts := 0, takes := 0 }

/-! ## What a semaphore is for -/

/-- The law of one call, on the count as an integer: a post raises it if it is below the maximum, and a wait
succeeds exactly if it is positive, and lowers it. -/
def CallRight (s : Semaphore) : SemOp → Prop
  | .post => (semPost s).count.toInt = if s.count.toInt < s.max.toNat then s.count.toInt + 1 else s.count.toInt
  | .wait => ((semTake s).isSome ↔ 0 < s.count.toInt) ∧
      ∀ s', semTake s = some s' → s'.count.toInt = s.count.toInt - 1
  | .trywait => ((semTrywait s).1 = 0 ↔ 0 < s.count.toInt) ∧
      (semTrywait s).2.count.toInt = if 0 < s.count.toInt then s.count.toInt - 1 else s.count.toInt

/-- The count is what the calls make of the initial value, and stays within its bounds. -/
structure Conserved (initial : Int32) (max : UInt32) (s : SemSys) : Prop where
  max_eq : s.sem.max = max
  lower : min initial.toInt 0 ≤ s.sem.count.toInt
  upper : s.sem.count.toInt ≤ max.toNat
  balance : s.sem.count.toInt = initial.toInt + s.posts - s.takes

/-- In the whole run every call obeys its law and the count is conserved. -/
def SemCorrect (initial : Int32) (max : UInt32) (ops : List SemOp) : Prop :=
  AllSteps semStep (initSem initial max) (fun s => CallRight s.sem) ops ∧
    Along semStep (initSem initial max) (Conserved initial max) ops

/-- A post does not meet the comparison `(uint32_t)count < max` where it goes wrong: with a negative count,
unless the maximum is above its unsigned reading, or with the largest `int32_t` below the maximum. -/
def PostInRange (s : SemSys) : SemOp → Prop
  | .post => (s.sem.count.toInt < 0 → 2 ^ 32 + s.sem.count.toInt < s.sem.max.toNat) ∧
      (s.sem.count.toInt = 2 ^ 31 - 1 → s.sem.max.toNat < 2 ^ 31)
  | _ => True

end RtosKernel
