import RtosKernel.Kernel
import RtosKernel.Lib.Run
import RtosKernel.Proofs.MutexProofs

/-!
# Proofs: mutual exclusion

Any tasks lock and unlock any mutexes, and the CPU goes from task to task between any two `cli..sti`
sections. Each mutex is then free with no task inside, or held by the one task that is inside. The runs of
the kernel are such runs, with the context switches that `schedule` makes.
-/

namespace RtosKernel

open Lib

/-- What holds of the mutex `m`: at most one task is between the return of its `mutex_lock` and its
`mutex_unlock`, `locked` says whether there is one and `owner` which, and an unlock by any other task
changes nothing. -/
structure MutexSafe (s : LockSys) (m : ℕ) : Prop where
  one_inside : (s.inside m).length ≤ 1
  locked_range : (s.mutexes m).locked = 0 ∨ (s.mutexes m).locked = 1
  locked_iff : (s.mutexes m).locked = 1 ↔ ∃ t, t ∈ s.inside m
  owner : ∀ t ∈ s.inside m, (s.mutexes m).owner = some t
  foreign_unlock : ∀ t, t ∉ s.inside m → lockStep { s with current := t } (.unlock m) = { s with current := t }

/-- Each mutex is in the state that belongs to the tasks inside. -/
def LockInv (s : LockSys) : Prop := ∀ m, ∃ o, s.mutexes m = heldMutex o ∧ s.inside m = o.toList

section Steps

variable {s : LockSys}

theorem toList_erase (o : Option TaskRef) (t : TaskRef) :
    o.toList.erase t = (if o = some t then none else o).toList := by
  cases o with
  | none => rfl
  | some u =>
    by_cases h : u = t
    · simp [h]
    · simp [h]

theorem LockInv.lock (h : LockInv s) (m : ℕ) : LockInv (lockStep s (.lock m)) := by
  obtain ⟨o, hm, hi⟩ := h m
  cases o with
  | none =>
    intro j
    simp only [lockStep, hm, mutexTryLock_free, hi]
    by_cases hj : j = m
    · subst hj
      exact ⟨some s.current, Function.update_self .., Function.update_self ..⟩
    · obtain ⟨o', hm', hi'⟩ := h j
      exact ⟨o', by rw [Function.update_of_ne hj, hm'], by rw [Function.update_of_ne hj, hi']⟩
  | some u =>
    simp only [lockStep, hm, mutexTryLock_held]
    exact h

theorem LockInv.unlock (h : LockInv s) (m : ℕ) : LockInv (lockStep s (.unlock m)) := by
  intro j
  simp only [lockStep]
  by_cases hj : j = m
  · subst hj
    obtain ⟨o, hm, hi⟩ := h j
    refine ⟨if o = some s.current then none else o, ?_, ?_⟩
    · rw [Function.update_self, hm, mutexUnlock_heldMutex]
    · rw [Function.update_self, hi, toList_erase]
  · obtain ⟨o, hm, hi⟩ := h j
    exact ⟨o, by rw [Function.update_of_ne hj, hm], by rw [Function.update_of_ne hj, hi]⟩

theorem lockStep_inv (h : LockInv s) (op : LockOp) : LockInv (lockStep s op) := by
  cases op with
  | switch t => exact h
  | lock m => exact h.lock m
  | unlock m => exact h.unlock m

theorem LockInv.safe (h : LockInv s) (m : ℕ) : MutexSafe s m := by
  obtain ⟨o, hm, hi⟩ := h m
  refine ⟨?_, ?_, ?_, ?_, ?_⟩
  · rw [hi]
    cases o <;> simp
  · rw [hm]
    cases o with
    | none => exact .inl rfl
    | some u => exact .inr rfl
  · rw [hm, hi]
    cases o with
    | none => simp [heldMutex, mutexInit]
    | some u => simp [heldMutex, heldBy]
  · intro t ht
    rw [hi] at ht
    obtain rfl : o = some t := by simpa using ht
    rw [hm]
    rfl
  · intro t ht
    have ho : o ≠ some t := by
      rw [hi] at ht
      simpa using ht
    have hkeep : mutexUnlock t (s.mutexes m) = s.mutexes m := by
      rw [hm, mutexUnlock_heldMutex, if_neg ho]
    simp only [lockStep, hkeep, List.erase_of_not_mem ht, Function.update_eq_self]

end Steps

theorem lockRun_inv (ops : List LockOp) : LockInv (ops.foldl lockStep bootLocks) :=
  ops.foldlRecOn lockStep (fun _ => ⟨none, rfl, rfl⟩) fun _ h op _ => lockStep_inv h op

/-- **Mutual exclusion: whatever mutexes the tasks lock and unlock, in whatever order, and wherever they
are preempted, each mutex has at most one task inside, is locked exactly when there is one, with that task
as its owner, and is not changed by an unlock of any other.** -/
theorem mutual_exclusion (ops : List LockOp) (m : ℕ) : MutexSafe (ops.foldl lockStep bootLocks) m :=
  (lockRun_inv ops).safe m

/-! ## The runs of the kernel -/

section Kernel

variable {body : Callbacks} {fuel : ℕ} {k k' : Kernel}

/-- An interrupt on vector 32 reaches the timer and the tasks only. -/
theorem irqHandler_keeps {esp : UInt32} (h : irqHandler body fuel esp k = .ok k') :
    (k'.mutexes = k.mutexes ∧ k'.sems = k.sems) ∧ k'.procs = k.procs := by
  rw [irqHandler] at h
  cases hs : schedule fuel esp k.tasking with
  | error e => simp [hs] at h
  | ok r =>
    rw [hs, ok_bind] at h
    rw [← Except.ok.inj h]
    exact ⟨⟨rfl, rfl⟩, rfl⟩

theorem sleepTask_keeps {ticks esp : UInt32} (h : sleepTask body fuel ticks esp k = .ok k') :
    (k'.mutexes = k.mutexes ∧ k'.sems = k.sems) ∧ k'.procs = k.procs := by
  rw [sleepTask] at h
  split at h
  · rw [← Except.ok.inj h]
    exact ⟨⟨rfl, rfl⟩, rfl⟩
  · have hk := irqHandler_keeps h
    exact hk

/-- `process_sleep` changes what `process.c` says, and its interrupt the rest. -/
theorem sleepProcess_keeps {ticks esp : UInt32} (h : sleepProcess body fuel ticks esp k = .ok k') :
    (k'.mutexes = k.mutexes ∧ k'.sems = k.sems) ∧
      processSleep ticks (getTicks k.timer) k.procs = .ok k'.procs := by
  rw [sleepProcess] at h
  cases hs : processSleep ticks (getTicks k.timer) k.procs with
  | error e => simp [hs] at h
  | ok p =>
    rw [hs, ok_bind] at h
    split at h
    · rename_i h0
      obtain rfl := Except.ok.inj h
      rw [processSleep, if_pos h0] at hs
      exact ⟨⟨rfl, rfl⟩, by rw [← Except.ok.inj hs]⟩
    · obtain ⟨hm, hp⟩ := irqHandler_keeps h
      exact ⟨hm, by rw [hp]⟩

/-- What a step of the kernel does to the mutexes, the semaphores and the process table: at most one call on
one of them. -/
inductive KernelEffect (k k' : Kernel) : Prop
  | keeps (hm : k'.mutexes = k.mutexes) (hs : k'.sems = k.sems)
      (hp : k'.procs = k.procs ∨ ∃ ticks now, processSleep ticks now k.procs = .ok k'.procs)
  | lock (m : ℕ) (mx : Mutex) (hmx : mutexTryLock k.tasking.current (k.mutexes m) = some mx)
      (he : k' = { k with mutexes := Function.update k.mutexes m mx })
  | unlock (m : ℕ) (he : k' = { k with
      mutexes := Function.update k.mutexes m (mutexUnlock k.tasking.current (k.mutexes m)) })
  | take (i : ℕ) (sem : Semaphore) (hsem : semTake (k.sems i) = some sem)
      (he : k' = { k with sems := Function.update k.sems i sem })
  | post (i : ℕ) (he : k' = { k with sems := Function.update k.sems i (semPost (k.sems i)) })

theorem irqHandler_effect {esp : UInt32} (h : irqHandler body fuel esp k = .ok k') : KernelEffect k k' := by
  obtain ⟨⟨hm, hs⟩, hp⟩ := irqHandler_keeps h
  exact .keeps hm hs (.inl hp)

theorem sleepTask_effect {ticks esp : UInt32} (h : sleepTask body fuel ticks esp k = .ok k') :
    KernelEffect k k' := by
  obtain ⟨⟨hm, hs⟩, hp⟩ := sleepTask_keeps h
  exact .keeps hm hs (.inl hp)

theorem kernelCall_effect {op : KernelOp} (h : kernelCall body fuel k op = .ok k') : KernelEffect k k' := by
  cases op with
  | irq0 esp => exact irqHandler_effect h
  | taskYield esp => exact irqHandler_effect h
  | taskSleep ticks esp => exact sleepTask_effect h
  | processSleep ticks esp =>
    obtain ⟨⟨hm, hs⟩, hp⟩ := sleepProcess_keeps h
    exact .keeps hm hs (.inr ⟨ticks, _, hp⟩)
  | mutexLock m esp =>
    simp only [kernelCall] at h
    split at h
    · next mx hmx => exact .lock m mx hmx (Except.ok.inj h).symm
    · exact sleepTask_effect h
  | mutexUnlock m => exact .unlock m (Except.ok.inj h).symm
  | semWait i esp =>
    simp only [kernelCall] at h
    split at h
    · next sem hsem => exact .take i sem hsem (Except.ok.inj h).symm
    · exact sleepTask_effect h
  | semPost i => exact .post i (Except.ok.inj h).symm
  | createTask entry priority =>
    obtain rfl := Except.ok.inj h
    exact .keeps rfl rfl (.inl rfl)
  | timer call =>
    obtain rfl := Except.ok.inj h
    exact .keeps rfl rfl (.inl rfl)

/-- The kernel and the mutexes with the task that runs. -/
def SeesLocks (s : LockSys) (k : Kernel) : Prop := s.current = k.tasking.current ∧ s.mutexes = k.mutexes

/-- A step of the kernel does to the mutexes what steps on the mutexes alone do. -/
theorem kernelCall_locks {s : LockSys} {op : KernelOp} (hs : SeesLocks s k)
    (h : kernelCall body fuel k op = .ok k') : ∃ ops : List LockOp, SeesLocks (ops.foldl lockStep s) k' := by
  obtain ⟨hcur, hmut⟩ := hs
  -- a step that does not touch the mutexes is at most a context switch
  have hswitch : k'.mutexes = k.mutexes → ∃ ops : List LockOp, SeesLocks (ops.foldl lockStep s) k' :=
    fun hk => ⟨[.switch k'.tasking.current], rfl, by rw [hk]; exact hmut⟩
  cases kernelCall_effect h with
  | keeps hm hs hp => exact hswitch hm
  | lock m mx hmx he =>
    subst he
    refine ⟨[.lock m], ?_, ?_⟩
    · simp [lockStep, hcur, hmut, hmx]
    · simp [lockStep, hcur, hmut, hmx]
  | unlock m he =>
    subst he
    refine ⟨[.unlock m], hcur, ?_⟩
    simp [lockStep, hcur, hmut]
  | take i sem hsem he =>
    subst he
    exact hswitch rfl
  | post i he =>
    subst he
    exact hswitch rfl

/-- **In every state of a run of the kernel the mutexes are those of a run of the tasks on them, made by
the tasks that `schedule` lets run: each is free or held by one task.** -/
theorem kernelRun_locks {frequency : UInt32} {s₀ : Tasking} {p₀ : Procs} {sems : ℕ → Semaphore}
    {ops : List KernelOp} {s : KernelSys}
    (h : run (kernelStep body fuel) (bootKernel frequency s₀ p₀ sems) ops = .ok s) :
    ∃ locks : List LockOp, SeesLocks (locks.foldl lockStep bootLocks) s.kernel := by
  refine run_inv (I := fun s => ∃ locks : List LockOp, SeesLocks (locks.foldl lockStep bootLocks) s.kernel)
    ?_ ⟨[], rfl, rfl⟩ h
  rintro s op s' ⟨locks, hl⟩ hstep
  unfold kernelStep at hstep
  cases hk : kernelCall body fuel s.kernel op with
  | error e => simp [hk] at hstep
  | ok k' =>
    rw [hk, ok_bind] at hstep
    obtain ⟨ops', hops⟩ := kernelCall_locks hl hk
    rw [← Except.ok.inj hstep]
    exact ⟨locks ++ ops', by rw [List.foldl_append]; exact hops⟩

end Kernel

end RtosKernel
