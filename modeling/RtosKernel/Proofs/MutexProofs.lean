import RtosKernel.Mutex

/-!
# Proofs: mutexes

A free mutex is taken at once, and a mutex is only given back by its owner. So a task that calls
`mutex_lock` on a mutex it already holds waits for ever, whatever the other tasks do.
-/

namespace RtosKernel

open Lib

/-- The mutex held by `t`. -/
def heldBy (t : TaskRef) : Mutex := ⟨1, some t⟩

theorem mutexLock_free (c : Caller) {m : Mutex} (hm : m.locked = 0) (hf : 0 < c.fuel) :
    mutexLock c m = .ok (heldBy c.task) := by
  obtain ⟨n, hn⟩ : ∃ n, c.fuel = n + 1 := ⟨c.fuel - 1, by omega⟩
  rw [mutexLock, hn]
  exact loop_exit (by simp [mutexLockBody, mutexTryLock, hm, heldBy])

/-- The mutex of a component between two calls is taken at once. -/
theorem mutexLock_init (c : Caller) {m : Mutex} (hm : m = mutexInit) (hf : 0 < c.fuel) :
    mutexLock c m = .ok (heldBy c.task) := by
  subst hm
  exact mutexLock_free c rfl hf

@[simp] theorem mutexUnlock_heldBy (t : TaskRef) : mutexUnlock t (heldBy t) = mutexInit := by
  simp [mutexUnlock, heldBy, mutexInit]

/-- The mutex that is free, or held by a task. -/
def heldMutex : Option TaskRef → Mutex
  | none => mutexInit
  | some t => heldBy t

theorem mutexTryLock_free (t : TaskRef) : mutexTryLock t (heldMutex none) = some (heldMutex (some t)) := rfl

theorem mutexTryLock_held (t u : TaskRef) : mutexTryLock t (heldMutex (some u)) = none := rfl

/-- Only the task that holds a mutex gives it back. -/
theorem mutexUnlock_heldMutex (t : TaskRef) (o : Option TaskRef) :
    mutexUnlock t (heldMutex o) = heldMutex (if o = some t then none else o) := by
  cases o with
  | none => simp [mutexUnlock, heldMutex, mutexInit]
  | some u =>
    by_cases h : u = t
    · subst h
      simp [heldMutex]
    · simp [mutexUnlock, heldMutex, heldBy, h]

/-- No other task changes a mutex held by `t`. -/
theorem mutexStep_heldBy {t : TaskRef} {c : TaskRef × MutexCall} (hc : c.1 ≠ t) :
    mutexStep (heldBy t) c = heldBy t := by
  obtain ⟨u, call⟩ := c
  cases call with
  | lock => simp [mutexStep, mutexTryLock, heldBy]
  | unlock =>
    have : t ≠ u := fun e => hc e.symm
    simp [mutexStep, mutexUnlock, heldBy, this]

theorem foldl_mutexStep_heldBy {t : TaskRef} {cs : List (TaskRef × MutexCall)}
    (hcs : ∀ c ∈ cs, c.1 ≠ t) : cs.foldl mutexStep (heldBy t) = heldBy t := by
  induction cs with
  | nil => rfl
  | cons c cs ih =>
    rw [List.foldl_cons, mutexStep_heldBy (hcs c (by simp))]
    exact ih fun d hd => hcs d (by simp [hd])

/-- **Locking a mutex that the caller already holds never returns.** -/
theorem mutexLock_heldBy (c : Caller) :
    mutexLock c (heldBy c.task) = .error (.waiting (some c.task)) := by
  refine loop_forever (fun x => x.1 = heldBy c.task) ?_ rfl c.fuel
  rintro ⟨m, k⟩ rfl
  refine ⟨(heldBy c.task, k + 1), ?_, rfl⟩
  have hk := foldl_mutexStep_heldBy (c.others_ne k)
  simp only [mutexLockBody, hk]
  simp [mutexTryLock, heldBy]

end RtosKernel
