import RtosKernel.Proofs.TaskProofs

/-!
# Runs of the task scheduler

`schedule` gives the CPU to a ready task of positive priority if the wake-up pass leaves one, and to
the interrupted task otherwise, whatever its state. So in a run from `init_tasking` the running task is
always ready (`RunsReady`) exactly when every `schedule` call finds a task to run (`FindsReady`).
-/

namespace RtosKernel

open Lib

/-- The running task is ready, and has no `schedule` call left to sleep through. -/
structure RunsReady (s : TaskSys) : Prop where
  ready : (s.tasking.tasks s.tasking.current).state = .ready
  expired : s.asleep s.tasking.current = 0

/-- The wake-up pass leaves a task that `schedule` can run: the current one, or a created one of
positive priority. -/
def FindsReady (s : Tasking) : Prop :=
  WakesReady (s.tasks s.current) ∨ ∃ t, Created s t ∧ WakesReady (s.tasks t) ∧ 0 < (s.tasks t).priority

/-- The `schedule` call that the operation makes, if it makes one, finds a task to run. -/
def SchedulesReady (s : TaskSys) : TaskOp → Prop
  | .create .. => True
  | .sleep ticks _ => ticks ≠ 0 → FindsReady (markSleeping ticks s.tasking)
  | .schedule _ => FindsReady s.tasking

/-- The counters of the sleepers are those of the specification, and nobody else sleeps. -/
structure SleepInv (s : TaskSys) : Prop where
  sleeping : ∀ t, Created s.tasking t → (s.tasking.tasks t).state = .sleeping →
    (s.tasking.tasks t).sleepTicks.toNat = s.asleep t ∧ s.asleep t ≠ 0
  awake : ∀ t, (Created s.tasking t → (s.tasking.tasks t).state ≠ .sleeping) → s.asleep t = 0

/-- The invariant of the runs in which every `schedule` call finds a task to run. -/
structure TaskInv (s : TaskSys) : Prop where
  ring : ∃ l, TaskRing s.tasking l
  sleep : SleepInv s
  ready : (s.tasking.tasks s.tasking.current).state = .ready

section Steps

variable {s : TaskSys} {k k' : Tasking} {l : List TaskRef} {fuel : ℕ}

theorem TaskInv.runsReady (h : TaskInv s) : RunsReady s :=
  ⟨h.ready, h.sleep.awake _ fun _ => by rw [h.ready]; decide⟩

theorem bootTasks_inv (s₀ : Tasking) : TaskInv (bootTasks s₀) := by
  have hmain : ((bootTasks s₀).tasking.tasks .mainTask).state = .ready := by
    simp [bootTasks, initTasking]
  refine ⟨⟨_, initTasking_ring s₀⟩, ⟨fun t ht hs => ?_, fun _ _ => rfl⟩, hmain⟩
  cases t with
  | mainTask =>
    rw [hmain] at hs
    cases hs
  | pool i => exact absurd ht (Nat.not_lt_zero _)

/-! ## `create_task` -/

theorem createTask_inv (h : TaskInv s) (entry priority : UInt32) :
    TaskInv { s with tasking := createTask entry priority s.tasking } := by
  obtain ⟨l, hl⟩ := h.ring
  by_cases hp : s.tasking.poolIndex < taskPoolSize
  · have hfresh : ¬ Created s.tasking (.pool ⟨s.tasking.poolIndex, hp⟩) := Nat.lt_irrefl _
    have hx : s.tasking.current ≠ .pool ⟨s.tasking.poolIndex, hp⟩ := fun e =>
      hfresh (e ▸ (hl.mem _).mp hl.current)
    obtain ⟨-, hcur, -, hnew, hold⟩ := createTask_spec entry priority hp hx
    -- every task but the new one is as it was, its link aside
    have hsame : ∀ t, t ≠ .pool ⟨s.tasking.poolIndex, hp⟩ →
        ((createTask entry priority s.tasking).tasks t).state = (s.tasking.tasks t).state ∧
        ((createTask entry priority s.tasking).tasks t).sleepTicks = (s.tasking.tasks t).sleepTicks := by
      intro t ht
      obtain ⟨n, hn⟩ := hold t ht
      rw [hn]
      exact ⟨rfl, rfl⟩
    have hcreated : ∀ t, t ≠ .pool ⟨s.tasking.poolIndex, hp⟩ →
        (Created (createTask entry priority s.tasking) t ↔ Created s.tasking t) := by
      intro t ht
      rw [created_createTask entry priority hp hx]
      exact or_iff_right ht
    refine ⟨hl.create entry priority, ⟨fun t ht hs => ?_, fun t ht => ?_⟩, ?_⟩
    · by_cases hne : t = .pool ⟨s.tasking.poolIndex, hp⟩
      · rw [hne, hnew] at hs
        cases hs
      · rw [(hsame t hne).1] at hs
        rw [(hsame t hne).2]
        exact h.sleep.sleeping t ((hcreated t hne).mp ht) hs
    · by_cases hne : t = .pool ⟨s.tasking.poolIndex, hp⟩
      · exact h.sleep.awake t fun hc => absurd (hne ▸ hc) hfresh
      · refine h.sleep.awake t fun hc => ?_
        rw [← (hsame t hne).1]
        exact ht ((hcreated t hne).mpr hc)
    · show ((createTask entry priority s.tasking).tasks (createTask entry priority s.tasking).current).state = _
      rw [hcur, (hsame _ hx).1]
      exact h.ready
  · rw [createTask_full entry priority hp]
    exact h

/-! ## `schedule` -/

theorem Scheduled.ring (h : Scheduled k k' l) (hl : TaskRing k l) : TaskRing k' l := by
  refine ⟨by rw [h.next]; exact hl.ring, fun t => ?_, h.chosen.1⟩
  rw [hl.mem]
  cases t with
  | mainTask => exact Iff.rfl
  | pool i => rw [Created, Created, h.poolIndex]

/-- An assignment to a task that keeps its link. -/
theorem setTask_ring {k : Tasking} {l : List TaskRef} (hl : TaskRing k l) {t : TaskRef} {v : Task}
    (hv : v.next = k.next t) : TaskRing (k.setTask t v) l := by
  refine ⟨by rw [k.setTask_keeps_next t v hv]; exact hl.ring, fun u => ?_, hl.current⟩
  rw [hl.mem]
  cases u <;> exact Iff.rfl

theorem Scheduled.state (h : Scheduled k k' l) {t : TaskRef} (ht : t ∈ l) :
    (k'.tasks t).state = (wakeTask (k.tasks t)).state ∧
      (k'.tasks t).sleepTicks = (wakeTask (k.tasks t)).sleepTicks := by
  obtain ⟨e, c, he⟩ := h.woken t ht
  rw [he]
  exact ⟨rfl, rfl⟩

/-- The chosen task is ready exactly when there was one to find. -/
theorem Scheduled.ready_iff (h : Scheduled k k' l) (hl : TaskRing k l) :
    (k'.tasks k'.current).state = .ready ↔ FindsReady k := by
  rw [(h.state h.chosen.1).1, wakeTask_ready]
  constructor
  · intro hr
    rcases h.chosen.2 with hc | ⟨hcur, -⟩
    · exact .inr ⟨_, (hl.mem _).mp h.chosen.1, hc⟩
    · exact .inl (hcur ▸ hr)
  · intro hfind
    rcases h.chosen.2 with hc | ⟨hcur, hno⟩
    · exact hc.1
    · rw [hcur]
      rcases hfind with hr | ⟨t, ht, hr⟩
      · exact hr
      · exact absurd hr (hno t ((hl.mem t).mpr ht))

/-- One `schedule` call keeps the counters of the sleepers in step. -/
theorem Scheduled.sleep (h : Scheduled k k' l) (hl : TaskRing k l) {asleep : TaskRef → ℕ}
    (hs : SleepInv { tasking := k, asleep := asleep }) :
    SleepInv { tasking := k', asleep := countPass asleep } := by
  have hcreated : ∀ t, Created k' t ↔ Created k t := fun t => ((h.ring hl).mem t).symm.trans (hl.mem t)
  refine ⟨fun t ht hst => ?_, fun t ht => ?_⟩
  · have htl := (hl.mem t).mpr ((hcreated t).mp ht)
    obtain ⟨h1, h2⟩ := h.state htl
    by_cases hsl : (k.tasks t).state = .sleeping
    · obtain ⟨hn, hpos⟩ := hs.sleeping t ((hcreated t).mp ht) hsl
      obtain ⟨hw1, hw2⟩ := wakeTask_sleeping hsl
      have hgt : ¬ (k.tasks t).sleepTicks.toNat ≤ 1 := by
        intro hle
        simp only [h1, hw2, hle, if_true] at hst
        cases hst
      show (k'.tasks t).sleepTicks.toNat = asleep t - 1 ∧ asleep t - 1 ≠ 0
      have hn' : (k.tasks t).sleepTicks.toNat = asleep t := hn
      rw [h2, hw1]
      omega
    · simp only [h1, wakeTask_awake hsl] at hst
      exact absurd hst hsl
  · show asleep t - 1 = 0
    by_cases hsl : Created k t ∧ (k.tasks t).state = .sleeping
    · have htl := (hl.mem t).mpr hsl.1
      obtain ⟨hn, -⟩ := hs.sleeping t hsl.1 hsl.2
      have hst := ht ((hcreated t).mpr hsl.1)
      have hle : (k.tasks t).sleepTicks.toNat ≤ 1 := by
        by_contra hgt
        simp only [(h.state htl).1, (wakeTask_sleeping hsl.2).2, hgt, if_false] at hst
        exact hst rfl
      have hn' : (k.tasks t).sleepTicks.toNat = asleep t := hn
      omega
    · have : asleep t = 0 := hs.awake t fun hc hst => hsl ⟨hc, hst⟩
      omega

/-! ## `task_sleep` -/

theorem markSleeping_ring (hl : TaskRing k l) (ticks : UInt32) : TaskRing (markSleeping ticks k) l := by
  refine ⟨?_, fun t => ?_, hl.current⟩
  · rw [show (markSleeping ticks k).next = k.next from k.setTask_keeps_next _ _ rfl]
    exact hl.ring
  · rw [hl.mem]
    cases t <;> exact Iff.rfl

theorem markSleeping_sleep (hs : SleepInv s) {ticks : UInt32} (hl : TaskRing s.tasking l) (h0 : ticks ≠ 0) :
    SleepInv { tasking := markSleeping ticks s.tasking
               asleep := Function.update s.asleep s.tasking.current ticks.toNat } := by
  have hcreated : ∀ t, Created (markSleeping ticks s.tasking) t ↔ Created s.tasking t := fun t =>
    ((markSleeping_ring hl ticks).mem t).symm.trans (hl.mem t)
  refine ⟨fun t ht hst => ?_, fun t ht => ?_⟩
  · by_cases hc : t = s.tasking.current
    · subst hc
      simp only [markSleeping, Tasking.setTask_tasks, Function.update_self, true_and]
      exact fun e => h0 (UInt32.toNat_inj.mp e)
    · simp only [markSleeping, Tasking.setTask_tasks, Function.update_of_ne hc] at hst ⊢
      exact hs.sleeping t ((hcreated t).mp ht) hst
  · by_cases hc : t = s.tasking.current
    · subst hc
      refine absurd ?_ (ht ((hcreated _).mpr ((hl.mem _).mp hl.current)))
      simp [markSleeping]
    · show Function.update s.asleep s.tasking.current ticks.toNat t = 0
      rw [Function.update_of_ne hc]
      refine hs.awake t fun hcr => ?_
      have := ht ((hcreated t).mpr hcr)
      rwa [markSleeping, Tasking.setTask_tasks, Function.update_of_ne hc] at this

/-! ## One step -/

/-! The state after a step, from what `schedule` returned. -/

theorem taskStep_sleep_zero (esp : UInt32) : taskStep fuel s (.sleep 0 esp) = .ok s := by
  simp only [taskStep, taskSleep, if_true, pure_eq_ok, ok_bind]

theorem taskStep_sleep_of {ticks esp r : UInt32} (h0 : ticks ≠ 0)
    (h : schedule fuel esp (markSleeping ticks s.tasking) = .ok (r, k)) :
    taskStep fuel s (.sleep ticks esp) =
      .ok { tasking := k
            asleep := countPass (Function.update s.asleep s.tasking.current ticks.toNat) } := by
  simp only [taskStep, taskSleep, h0, if_false, h, pure_eq_ok, ok_bind]

theorem taskStep_schedule_of {esp r : UInt32} (h : schedule fuel esp s.tasking = .ok (r, k)) :
    taskStep fuel s (.schedule esp) = .ok { tasking := k, asleep := countPass s.asleep } := by
  simp only [taskStep, h, pure_eq_ok, ok_bind]

/-- What an operation makes of the scheduler in `s`, whose ring is `l`. -/
inductive TaskEffect (fuel : ℕ) (s : TaskSys) (l : List TaskRef) : TaskOp → TaskSys → Prop
  | create (entry priority : UInt32) :
      TaskEffect fuel s l (.create entry priority) { s with tasking := createTask entry priority s.tasking }
  | noSleep (esp : UInt32) : TaskEffect fuel s l (.sleep 0 esp) s
  | sleep {ticks esp r : UInt32} {k : Tasking} (h0 : ticks ≠ 0)
      (he : schedule fuel esp (markSleeping ticks s.tasking) = .ok (r, k))
      (hs : Scheduled (markSleeping ticks s.tasking) k l) :
      TaskEffect fuel s l (.sleep ticks esp)
        { tasking := k
          asleep := countPass (Function.update s.asleep s.tasking.current ticks.toNat) }
  | schedule {esp r : UInt32} {k : Tasking} (he : schedule fuel esp s.tasking = .ok (r, k))
      (hs : Scheduled s.tasking k l) :
      TaskEffect fuel s l (.schedule esp) { tasking := k, asleep := countPass s.asleep }

/-- **Every operation returns, with one of these effects.** -/
theorem TaskRing.step (hl : TaskRing s.tasking l) (hf : 9 ≤ fuel) (op : TaskOp) :
    ∃ s', taskStep fuel s op = .ok s' ∧ TaskEffect fuel s l op s' := by
  cases op with
  | create entry priority => exact ⟨_, rfl, .create entry priority⟩
  | sleep ticks esp =>
    by_cases h0 : ticks = 0
    · subst h0
      exact ⟨s, taskStep_sleep_zero esp, .noSleep esp⟩
    · obtain ⟨r, k', he, hs⟩ := (markSleeping_ring hl ticks).schedule hf esp
      exact ⟨_, taskStep_sleep_of h0 he, .sleep h0 he hs⟩
  | schedule esp =>
    obtain ⟨r, k', he, hs⟩ := hl.schedule hf esp
    exact ⟨_, taskStep_schedule_of he, .schedule he hs⟩

theorem TaskEffect.ring {op : TaskOp} {s' : TaskSys} (h : TaskEffect fuel s l op s') (hl : TaskRing s.tasking l) :
    ∃ l', TaskRing s'.tasking l' := by
  cases h with
  | create entry priority => exact hl.create entry priority
  | noSleep esp => exact ⟨l, hl⟩
  | sleep h0 he hs => exact ⟨l, hs.ring (markSleeping_ring hl _)⟩
  | schedule he hs => exact ⟨l, hs.ring hl⟩

/-- Every operation returns and keeps the ring. -/
theorem taskStep_ring (hf : 9 ≤ fuel) (h : ∃ l, TaskRing s.tasking l) (op : TaskOp) :
    ∃ s', taskStep fuel s op = .ok s' ∧ ∃ l, TaskRing s'.tasking l := by
  obtain ⟨l, hl⟩ := h
  obtain ⟨s', he, heff⟩ := hl.step hf op
  exact ⟨s', he, heff.ring hl⟩

/-- Every operation returns and keeps ring and counters, and it leaves a ready task running exactly
when its `schedule` call finds one. -/
theorem taskStep_inv (hf : 9 ≤ fuel) (h : TaskInv s) (op : TaskOp) :
    ∃ s', taskStep fuel s op = .ok s' ∧ (∃ l, TaskRing s'.tasking l) ∧ SleepInv s' ∧
      ((s'.tasking.tasks s'.tasking.current).state = .ready ↔ SchedulesReady s op) := by
  obtain ⟨l, hl⟩ := h.ring
  obtain ⟨s', he, heff⟩ := hl.step hf op
  refine ⟨s', he, heff.ring hl, ?_⟩
  cases heff with
  | create entry priority =>
    have hc := createTask_inv h entry priority
    exact ⟨hc.sleep, iff_of_true hc.ready trivial⟩
  | noSleep esp => exact ⟨h.sleep, iff_of_true h.ready fun hne => absurd rfl hne⟩
  | @sleep ticks _ _ _ h0 _ hs =>
    have hl' := markSleeping_ring hl ticks
    refine ⟨hs.sleep hl' (markSleeping_sleep h.sleep hl h0), (hs.ready_iff hl').trans ?_⟩
    exact ⟨fun hfi _ => hfi, fun hfi => hfi h0⟩
  | schedule _ hs => exact ⟨hs.sleep hl h.sleep, hs.ready_iff hl⟩

end Steps

/-- **In a run from `init_tasking` the running task is always ready and has slept its time, exactly when
every `schedule` call of the run finds a task to run.** -/
theorem running_task_ready_iff {fuel : ℕ} (hf : 9 ≤ fuel) (s₀ : Tasking) (ops : List TaskOp) :
    Along (taskStep fuel) (bootTasks s₀) RunsReady ops ↔
      AllSteps (taskStep fuel) (bootTasks s₀) SchedulesReady ops := by
  refine along_iff_of_spec (bootTasks_inv s₀) (fun s h => h.runsReady) ?_ ops
  intro s op h
  obtain ⟨s', he, hr, hsl, hiff⟩ := taskStep_inv hf h op
  exact ⟨s', he, fun hC => ⟨hr, hsl, hiff.mpr hC⟩, fun hP => hiff.mp hP.ready⟩

theorem running_task_ready_two_tasks :
    9 ≤ 9 ∧ Along (taskStep 9) (bootTasks (bootTasking 0)) RunsReady [.create 4096 3, .sleep 5 0] := by
  refine ⟨le_rfl, (running_task_ready_iff le_rfl _ _).mpr ?_⟩
  refine allSteps_cons.mpr ⟨trivial, fun s hs => allSteps_cons.mpr ⟨fun _ => ?_, fun _ _ => allSteps_nil⟩⟩
  obtain rfl := Except.ok.inj hs
  exact .inr ⟨.pool 0, by show 0 < 1; decide, .inl rfl, by decide⟩

/-- The main task alone, after `task_sleep(5)`: it is sleeping and goes on running. -/
theorem sleeping_task_runs :
    ¬ Along (taskStep 9) (bootTasks (bootTasking 0)) RunsReady [.sleep 5 0] := by
  apply not_along_of_returns (Q := fun s => (s.tasking.tasks s.tasking.current).state = .sleeping)
  · decide +kernel
  · intro s hsleep hP
    have hready := hP.ready
    rw [hsleep] at hready
    cases hready

end RtosKernel
