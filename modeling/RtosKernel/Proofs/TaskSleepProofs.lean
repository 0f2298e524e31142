import RtosKernel.Proofs.ClockProofs

/-!
# Proofs: how long a task sleeps, and who runs meanwhile

`task_sleep(n)` marks the caller as sleeping and makes a `schedule` call, which counts the sleepers down before
it chooses. So the call of `task_sleep` itself is the first of the `n` calls that the caller sleeps through
(`sleep_length_exact`), and `task_sleep(1)` leaves the caller ready again when the choice is made. It then gives
the CPU away only if another task that is ready has at least the caller's priority; `mutex_lock` and `sem_wait`,
which wait by `task_sleep(1)`, never let a task of lower priority run (`task_sleep_gives_up_iff`).
-/

namespace RtosKernel

open Lib

/-! ## Sleeping for `n` calls -/

/-- The operation makes a call of `schedule`. -/
def makesPass : TaskOp → Bool
  | .create .. => false
  | .sleep ticks _ => ticks ≠ 0
  | .schedule _ => true

/-- The operation is not a `task_sleep` of the task `t`, except for one that returns at once. -/
def LeavesAlone (t : TaskRef) (s : TaskSys) : TaskOp → Prop
  | .sleep ticks _ => ticks ≠ 0 → s.tasking.current ≠ t
  | _ => True

/-- The task after `k` calls of `schedule`, counted from the one of its `task_sleep(n)`. -/
structure SleptThrough (n k : ℕ) (t : Task) : Prop where
  asleep : k < n → t.state = .sleeping ∧ t.sleepTicks.toNat = n - k
  awake : n ≤ k → t.state = .ready ∧ t.sleepTicks = 0

section SleepLength

variable {s : TaskSys} {k k' : Tasking} {l : List TaskRef} {fuel : ℕ} {t : TaskRef} {n i : ℕ} {v v' : Task}

theorem SleptThrough.congr (h : SleptThrough n i v) (hstate : v'.state = v.state)
    (hticks : v'.sleepTicks = v.sleepTicks) : SleptThrough n i v' := by
  refine ⟨fun hi => ?_, fun hi => ?_⟩
  · rw [hstate, hticks]
    exact h.asleep hi
  · rw [hstate, hticks]
    exact h.awake hi

/-- One wake-up pass. -/
theorem SleptThrough.wake (h : SleptThrough n i v) : SleptThrough n (i + 1) (wakeTask v) := by
  rcases Nat.lt_or_ge i n with hi | hi
  · obtain ⟨hs, hn⟩ := h.asleep hi
    obtain ⟨hticks, hstate⟩ := wakeTask_sleeping hs
    refine ⟨fun hlt => ⟨?_, by omega⟩, fun hle => ⟨?_, ?_⟩⟩
    · rw [hstate, if_neg (by omega)]
    · rw [hstate, if_pos (by omega)]
    · rw [← UInt32.toNat_inj, hticks]
      have h0 : (0 : UInt32).toNat = 0 := rfl
      omega
  · obtain ⟨hr, h0⟩ := h.awake hi
    have hsame : wakeTask v = v := wakeTask_awake (by rw [hr]; exact TaskState.noConfusion)
    rw [hsame]
    exact ⟨fun hlt => by omega, fun _ => ⟨hr, h0⟩⟩

/-- A `schedule` call on the ring. -/
theorem Scheduled.slept (h : Scheduled k k' l) (ht : t ∈ l) (hs : SleptThrough n i (k.tasks t)) :
    SleptThrough n (i + 1) (k'.tasks t) := by
  obtain ⟨hstate, hticks⟩ := h.state ht
  exact hs.wake.congr hstate hticks

/-- `task_sleep` leaves every task but the current one as it is. -/
theorem markSleeping_of_ne {ticks : UInt32} (ht : t ≠ k.current) : (markSleeping ticks k).tasks t = k.tasks t := by
  rw [markSleeping, Tasking.setTask_tasks, Function.update_of_ne ht]

/-- A task that exists keeps everything but its link when another one is created. -/
theorem createTask_keeps (hl : TaskRing k l) (ht : t ∈ l) (entry priority : UInt32) :
    ∃ m, (createTask entry priority k).tasks t = { k.tasks t with next := m } := by
  by_cases hp : k.poolIndex < taskPoolSize
  · have hnew : t ≠ .pool ⟨k.poolIndex, hp⟩ := by
      rintro rfl
      exact Nat.lt_irrefl _ ((hl.mem _).mp ht)
    obtain ⟨-, -, -, -, hold⟩ := createTask_spec entry priority hp (hl.current_ne_new hp)
    exact hold t hnew
  · rw [createTask_full entry priority hp]
    exact ⟨(k.tasks t).next, rfl⟩

theorem createTask_current (hl : TaskRing k l) (entry priority : UInt32) :
    (createTask entry priority k).current = k.current := by
  by_cases hp : k.poolIndex < taskPoolSize
  · obtain ⟨-, hcur, -⟩ := createTask_spec entry priority hp (hl.current_ne_new hp)
    exact hcur
  · rw [createTask_full entry priority hp]

/-- `create_task` takes no task away. -/
theorem Created.create (hl : TaskRing k l) (ht : Created k t) (entry priority : UInt32) :
    Created (createTask entry priority k) t := by
  by_cases hp : k.poolIndex < taskPoolSize
  · exact (created_createTask entry priority hp (hl.current_ne_new hp) t).mpr (.inr ht)
  · rw [createTask_full entry priority hp]
    exact ht

/-- **One step: a sleeper is counted down once by every operation that makes a `schedule` call, and by no
other.** -/
theorem taskStep_slept (hf : 9 ≤ fuel) (hl : TaskRing s.tasking l) (ht : Created s.tasking t)
    (hs : SleptThrough n i (s.tasking.tasks t)) {op : TaskOp} (hop : LeavesAlone t s op) :
    ∃ s', taskStep fuel s op = .ok s' ∧ (∃ l', TaskRing s'.tasking l') ∧ Created s'.tasking t ∧
      SleptThrough n (if makesPass op then i + 1 else i) (s'.tasking.tasks t) := by
  have hmem : t ∈ l := (hl.mem t).mpr ht
  obtain ⟨s', he, heff⟩ := hl.step hf op
  refine ⟨s', he, heff.ring hl, ?_⟩
  cases heff with
  | create entry priority =>
    obtain ⟨m, hm⟩ := createTask_keeps hl hmem entry priority
    exact ⟨ht.create hl entry priority, hs.congr (by rw [hm]) (by rw [hm])⟩
  | noSleep esp => exact ⟨ht, hs⟩
  | @sleep ticks esp _ _ h0 _ hsch =>
    refine ⟨((hsch.ring (markSleeping_ring hl ticks)).mem t).mp hmem, ?_⟩
    have hpass : makesPass (.sleep ticks esp) = true := decide_eq_true h0
    rw [hpass]
    refine hsch.slept hmem ?_
    rw [markSleeping_of_ne (Ne.symm (hop h0))]
    exact hs
  | schedule _ hsch => exact ⟨((hsch.ring hl).mem t).mp hmem, hsch.slept hmem hs⟩

/-- The whole run. -/
theorem run_slept (hf : 9 ≤ fuel) (hl : TaskRing s.tasking l) (ht : Created s.tasking t)
    (hs : SleptThrough n i (s.tasking.tasks t)) {later : List TaskOp}
    (hlater : AllSteps (taskStep fuel) s (LeavesAlone t) later) :
    ∃ s', run (taskStep fuel) s later = .ok s' ∧
      SleptThrough n (i + later.countP makesPass) (s'.tasking.tasks t) := by
  induction later generalizing s l i with
  | nil => exact ⟨s, rfl, hs⟩
  | cons op later ih =>
    obtain ⟨hop, hrest⟩ := allSteps_cons.mp hlater
    obtain ⟨s', he, ⟨l', hl'⟩, ht', hs'⟩ := taskStep_slept hf hl ht hs hop
    obtain ⟨s'', hr, hs''⟩ := ih hl' ht' hs' (hrest s' he)
    refine ⟨s'', by rw [run, he]; exact hr, ?_⟩
    rw [List.countP_cons]
    by_cases hpass : makesPass op
    · rw [if_pos hpass] at hs'' ⊢
      rwa [Nat.add_assoc, Nat.add_comm 1] at hs''
    · rw [if_neg hpass] at hs'' ⊢
      exact hs''

end SleepLength

/-- The tasks form a ring in every state of a run. -/
theorem taskRun_ring {fuel : ℕ} (hf : 9 ≤ fuel) {s₀ : Tasking} {ops : List TaskOp} {s : TaskSys}
    (hr : run (taskStep fuel) (bootTasks s₀) ops = .ok s) : ∃ l, TaskRing s.tasking l := by
  have h0 : ∃ l, TaskRing (bootTasks s₀).tasking l := ⟨_, initTasking_ring s₀⟩
  obtain ⟨s', hr', hl⟩ := run_total (I := fun s : TaskSys => ∃ l, TaskRing s.tasking l) h0
    (fun s op h => taskStep_ring hf h op) ops
  rw [hr] at hr'
  rwa [Except.ok.inj hr']

/-- **In every run, a task that calls `task_sleep(n)` and does not sleep again is still sleeping, with `n - k` on
its counter, after the first `k < n` calls of `schedule`, that of `task_sleep` included, and it is ready from the
`n`-th on**, whatever tasks are created, put to sleep or chosen meanwhile. -/
theorem sleep_length_exact {fuel : ℕ} (hf : 9 ≤ fuel) {s₀ : Tasking} {ops : List TaskOp} {s : TaskSys}
    (hr : run (taskStep fuel) (bootTasks s₀) ops = .ok s) {n : UInt32} (hn : n ≠ 0) (esp : UInt32) :
    ∃ s₁, taskStep fuel s (.sleep n esp) = .ok s₁ ∧
      ∀ later, AllSteps (taskStep fuel) s₁ (LeavesAlone s.tasking.current) later →
        ∃ s', run (taskStep fuel) s₁ later = .ok s' ∧
          SleptThrough n.toNat (1 + later.countP makesPass) (s'.tasking.tasks s.tasking.current) := by
  obtain ⟨l, hl⟩ := taskRun_ring hf hr
  have hl' := markSleeping_ring hl n
  obtain ⟨r, k, he, hsch⟩ := hl'.schedule hf esp
  refine ⟨_, taskStep_sleep_of hn he, fun later hlater => ?_⟩
  have hpos : n.toNat ≠ 0 := fun h0 => hn (UInt32.toNat_inj.mp h0)
  -- before the first call nothing has been counted
  have hstart : SleptThrough n.toNat 0 ((markSleeping n s.tasking).tasks s.tasking.current) := by
    rw [markSleeping, Tasking.setTask_tasks, Function.update_self]
    exact ⟨fun _ => ⟨rfl, rfl⟩, fun hle => absurd (Nat.le_zero.mp hle) hpos⟩
  exact run_slept hf (hsch.ring hl') (((hsch.ring hl').mem _).mp hl.current) (hsch.slept hl.current hstart) hlater

theorem sleep_length_exact_three :
    ∃ s₁, taskStep 9 (bootTasks (bootTasking 0)) (.sleep 3 0) = .ok s₁ ∧
      ∀ later, AllSteps (taskStep 9) s₁ (LeavesAlone .mainTask) later →
        ∃ s', run (taskStep 9) s₁ later = .ok s' ∧
          SleptThrough 3 (1 + later.countP makesPass) (s'.tasking.tasks .mainTask) := by
  have hr : run (taskStep 9) (bootTasks (bootTasking 0)) [] = .ok (bootTasks (bootTasking 0)) := rfl
  exact sleep_length_exact le_rfl hr (by decide) 0

/-! ## Giving up the CPU -/

/-- Another task of positive priority is ready. -/
def OtherReady (s : Tasking) : Prop :=
  ∃ t, t ≠ s.current ∧ Created s t ∧ (s.tasks t).state = .ready ∧ 1 ≤ (s.tasks t).priority

/-- Another task that the wake-up pass leaves ready has at least the priority of the current one. -/
def RivalReady (s : Tasking) : Prop :=
  ∃ t, t ≠ s.current ∧ Created s t ∧ WakesReady (s.tasks t) ∧ prio s s.current ≤ prio s t

/-- The operation is an attempt of `mutex_lock` or `sem_wait` that fails. -/
def Waits (k : Kernel) : KernelOp → Prop
  | .mutexLock m _ => (k.mutexes m).locked ≠ 0
  | .semWait i _ => ¬ 0 < (k.sems i).count
  | _ => False

/-- The task `w`, which was ready or became so, can run, and the task that runs has at least its priority. The
priorities are those in `s₁`. -/
structure RunsAbove (s₁ : Tasking) (w : TaskRef) (s : Tasking) : Prop where
  ring : ∃ l, TaskRing s l
  kept : ∀ t, Created s₁ t → Created s t ∧ prio s t = prio s₁ t
  ready : (s.tasks w).state = .ready
  above : prio s₁ w ≤ prio s s.current

section GivingUp

variable {s s' : Tasking} {l : List TaskRef} {fuel : ℕ} {esp r : UInt32} {t w : TaskRef} {n : UInt32}

/-- The task that gets the CPU has the largest priority of those that can run. -/
theorem schedule_above (hl : TaskRing s l) (hf : 9 ≤ fuel) (h : schedule fuel esp s = .ok (r, s'))
    (ht : t ∈ l) (hready : WakesReady (s.tasks t)) : prio s t ≤ prio s s'.current := by
  obtain ⟨o, ho, hperm⟩ := hl.ring.after hl.current
  by_cases hpos : 0 < (s.tasks t).priority
  · rcases schedule_cases ho (hperm.length_eq.trans_le (hl.length_le.trans hf)) esp with ⟨b, hb, hs⟩ | ⟨hno, -⟩
    · rw [h] at hs
      obtain ⟨-, rfl⟩ := Prod.mk.inj (Except.ok.inj hs)
      exact hb.max t (hperm.mem_iff.mpr ht) ⟨hready, hpos⟩
    · exact absurd ⟨hready, hpos⟩ (hno t (hperm.mem_iff.mpr ht))
  · have hzero : prio s t = 0 := Nat.le_zero.mp (Nat.not_lt.mp hpos)
    omega

theorem Scheduled.prio_eq (h : Scheduled s s' l) (ht : t ∈ l) : prio s' t = prio s t := by
  obtain ⟨e, c, he⟩ := h.woken t ht
  rw [prio, prio, he]
  exact congrArg UInt32.toNat (wakeTask_priority _)

/-- A `schedule` call with `w` ready, or about to be. -/
theorem runsAbove_of_schedule {s₁ : Tasking} (hl : TaskRing s l) (hf : 9 ≤ fuel)
    (hkept : ∀ t, Created s₁ t → Created s t ∧ prio s t = prio s₁ t) (hw : Created s₁ w)
    (hready : WakesReady (s.tasks w)) (h : schedule fuel esp s = .ok (r, s')) : RunsAbove s₁ w s' := by
  obtain ⟨r', s'', he, hsch⟩ := hl.schedule hf esp
  obtain rfl : s'' = s' := by
    rw [h] at he
    exact (Prod.mk.inj (Except.ok.inj he)).2.symm
  have hmem : ∀ t, Created s₁ t → t ∈ l := fun t ht => (hl.mem t).mpr (hkept t ht).1
  refine ⟨⟨l, hsch.ring hl⟩, fun t ht => ⟨((hsch.ring hl).mem t).mp (hmem t ht), ?_⟩, ?_, ?_⟩
  · rw [hsch.prio_eq (hmem t ht)]
    exact (hkept t ht).2
  · rw [(hsch.state (hmem w hw)).1, wakeTask_ready]
    exact hready
  · rw [hsch.prio_eq hsch.chosen.1, ← (hkept w hw).2]
    exact schedule_above hl hf h (hmem w hw) hready

theorem markSleeping_prio (t : TaskRef) : prio (markSleeping n s) t = prio s t := by
  rw [prio, prio, markSleeping, Tasking.setTask_tasks]
  by_cases ht : t = s.current
  · subst ht
    rw [Function.update_self]
  · rw [Function.update_of_ne ht]

theorem markSleeping_created : Created (markSleeping n s) t ↔ Created s t := by
  cases t with
  | mainTask => exact Iff.rfl
  | pool i => exact Iff.rfl

/-- One step while `w` waits for the CPU. -/
theorem RunsAbove.step {s₁ : Tasking} (h : RunsAbove s₁ w s) (hf : 9 ≤ fuel) (hw : Created s₁ w)
    (hcur : s.current ≠ w) {op : TaskOp} {a : TaskRef → ℕ} {u : TaskSys}
    (hs : taskStep fuel { tasking := s, asleep := a } op = .ok u) : RunsAbove s₁ w u.tasking := by
  obtain ⟨l, hl⟩ := h.ring
  obtain ⟨u', hu', heff⟩ := @TaskRing.step { tasking := s, asleep := a } l fuel hl hf op
  obtain rfl : u' = u := by
    rw [hu'] at hs
    exact Except.ok.inj hs
  cases heff with
  | create entry priority =>
    have hkeep : ∀ t ∈ l, ∃ m, (createTask entry priority s).tasks t = { s.tasks t with next := m } :=
      fun t ht => createTask_keeps hl ht entry priority
    have hprio : ∀ t ∈ l, prio (createTask entry priority s) t = prio s t := by
      intro t ht
      obtain ⟨m, hm⟩ := hkeep t ht
      rw [prio, prio, hm]
    refine ⟨hl.create entry priority, fun t ht => ?_, ?_, ?_⟩
    · obtain ⟨hc, hp⟩ := h.kept t ht
      exact ⟨hc.create hl entry priority, (hprio t ((hl.mem t).mpr hc)).trans hp⟩
    · obtain ⟨m, hm⟩ := hkeep w ((hl.mem w).mpr (h.kept w hw).1)
      rw [hm]
      exact h.ready
    · rw [createTask_current hl, hprio _ hl.current]
      exact h.above
  | noSleep esp => exact h
  | @sleep ticks _ _ _ _ he _ =>
    refine runsAbove_of_schedule (markSleeping_ring hl ticks) hf (fun t ht => ?_) hw (.inl ?_) he
    · rw [markSleeping_created, markSleeping_prio]
      exact h.kept t ht
    · rw [markSleeping_of_ne (Ne.symm hcur)]
      exact h.ready
  | schedule he _ => exact runsAbove_of_schedule hl hf h.kept hw (.inl h.ready) he

/-- The caller of `task_sleep(n)` is ready again when the choice is made exactly if `n` is 1. -/
theorem markSleeping_wakes (hn : n ≠ 0) : WakesReady ((markSleeping n s).tasks s.current) ↔ n = 1 := by
  have hone : n ≤ 1 ↔ n = 1 := by
    rw [UInt32.le_iff_toNat_le, ← UInt32.toNat_inj]
    have h1 : (1 : UInt32).toNat = 1 := rfl
    have hpos : n.toNat ≠ 0 := fun h0 => hn (UInt32.toNat_inj.mp h0)
    omega
  rw [markSleeping, Tasking.setTask_tasks, Function.update_self, WakesReady]
  simp [hone]

/-- **The `schedule` call of `task_sleep(n)` gives the CPU to another task exactly if `n` is not 1 or another task
that is ready has at least the priority of the caller.** -/
theorem sleep_leaves_iff (hl : TaskRing s l) (hf : 9 ≤ fuel) (hn : n ≠ 0) (hother : OtherReady s) (esp : UInt32) :
    ∃ r s', schedule fuel esp (markSleeping n s) = .ok (r, s') ∧
      (s'.current ≠ s.current ↔ n ≠ 1 ∨ RivalReady s) := by
  have hl' := markSleeping_ring hl n
  have hcur : (markSleeping n s).current = s.current := rfl
  obtain ⟨o, ho, hperm⟩ := hl'.ring.after hl'.current
  have hlen : o.length ≤ fuel := hperm.length_eq.trans_le (hl'.length_le.trans hf)
  have hchoose : ∀ t, t ≠ s.current → (Choosable (markSleeping n s) t ↔ Choosable s t) := by
    intro t ht
    rw [Choosable, Choosable, markSleeping_of_ne ht]
  rcases schedule_cases ho hlen esp with ⟨b, hb, hs⟩ | ⟨hno, -⟩
  · refine ⟨_, _, hs, ?_⟩
    show b ≠ s.current ↔ _
    constructor
    · intro hne
      by_cases h1 : n = 1
      · have hbs := (hchoose b hne).mp hb.counts
        refine .inr ⟨b, hne, (hl.mem b).mp (hperm.mem_iff.mp hb.mem), hbs.1, ?_⟩
        have hle := schedule_above hl' hf hs hl'.current ((markSleeping_wakes hn).mpr h1)
        rwa [markSleeping_prio, markSleeping_prio] at hle
      · exact .inl h1
    · rintro hcase rfl
      -- the caller was chosen, so it is ready
      have h1 : n = 1 := (markSleeping_wakes hn).mp hb.counts.1
      rcases hcase with hne | ⟨t, hts, hct, hwt, hle⟩
      · exact hne h1
      · have hmem : t ∈ o := hperm.mem_iff.mpr ((hl.mem t).mpr hct)
        have hpos : 0 < prio (markSleeping n s) s.current := hb.counts.2
        rw [markSleeping_prio] at hpos
        have hpt : 0 < (s.tasks t).priority := hpos.trans_le hle
        have hnd := ho.nodup
        -- it comes last in the scan, so every other task that could run has a lower priority
        obtain ⟨q, rfl, -⟩ := ho
        have hlt : prio (markSleeping n s) t < prio (markSleeping n s) s.current := by
          refine hb.lt_last ?_ ?_ ((hchoose t hts).mpr ⟨hwt, hpt⟩)
          · exact fun hm => (List.nodup_append.mp hnd).2.2 _ hm _ (by simp [hcur]) rfl
          · simpa [hcur, hts] using hmem
        rw [markSleeping_prio, markSleeping_prio] at hlt
        omega
  · obtain ⟨t, hts, hct, hrt, hpt⟩ := hother
    have hmem : t ∈ o := hperm.mem_iff.mpr ((hl.mem t).mpr hct)
    exact absurd ((hchoose t hts).mpr ⟨.inl hrt, hpt⟩) (hno t hmem)

end GivingUp

/-! ## The runs of the kernel -/

section Kernel

variable {body : Callbacks} {fuel : ℕ} {k k' : Kernel} {esp n : UInt32} {w : TaskRef}

theorem irqHandler_schedules (h : irqHandler body fuel esp k = .ok k') :
    ∃ r, schedule fuel esp k.tasking = .ok (r, k'.tasking) := by
  rw [irqHandler] at h
  obtain ⟨⟨r, s⟩, hs, h⟩ := bind_eq_ok.mp h
  obtain rfl := Except.ok.inj h
  exact ⟨r, hs⟩

/-- The tasks in `s'` come from those in `s` by at most one call of `task.c`. -/
def TaskMove (fuel : ℕ) (s s' : Tasking) : Prop :=
  s' = s ∨ ∃ op, ∀ a, ∃ a', taskStep fuel { tasking := s, asleep := a } op = .ok { tasking := s', asleep := a' }

theorem irqHandler_move (h : irqHandler body fuel esp k = .ok k') : TaskMove fuel k.tasking k'.tasking := by
  obtain ⟨r, hs⟩ := irqHandler_schedules h
  exact .inr ⟨.schedule esp, fun a => ⟨_, taskStep_schedule_of hs⟩⟩

theorem sleepTask_move (h : sleepTask body fuel n esp k = .ok k') : TaskMove fuel k.tasking k'.tasking := by
  rw [sleepTask] at h
  split at h
  · obtain rfl := Except.ok.inj h
    exact .inl rfl
  · next hn =>
    obtain ⟨r, hs⟩ := irqHandler_schedules h
    exact .inr ⟨.sleep n esp, fun a => ⟨_, taskStep_sleep_of hn hs⟩⟩

/-- A step of the kernel makes at most one call of `task.c`. -/
theorem kernelCall_move {op : KernelOp} (h : kernelCall body fuel k op = .ok k') :
    TaskMove fuel k.tasking k'.tasking := by
  cases op with
  | irq0 esp => exact irqHandler_move h
  | taskYield esp => exact irqHandler_move h
  | taskSleep ticks esp => exact sleepTask_move h
  | processSleep ticks esp =>
    simp only [kernelCall, sleepProcess] at h
    obtain ⟨p, -, h⟩ := bind_eq_ok.mp h
    split at h
    · obtain rfl := Except.ok.inj h
      exact .inl rfl
    · have hm := irqHandler_move h
      exact hm
  | mutexLock m esp =>
    simp only [kernelCall] at h
    split at h
    · obtain rfl := Except.ok.inj h
      exact .inl rfl
    · exact sleepTask_move h
  | mutexUnlock m =>
    obtain rfl := Except.ok.inj h
    exact .inl rfl
  | semWait i esp =>
    simp only [kernelCall] at h
    split at h
    · obtain rfl := Except.ok.inj h
      exact .inl rfl
    · exact sleepTask_move h
  | semPost i =>
    obtain rfl := Except.ok.inj h
    exact .inl rfl
  | createTask entry priority =>
    obtain rfl := Except.ok.inj h
    exact .inr ⟨.create entry priority, fun a => ⟨a, rfl⟩⟩
  | timer call =>
    obtain rfl := Except.ok.inj h
    exact .inl rfl

theorem kernelStep_ok {s s' : KernelSys} {op : KernelOp} (h : kernelStep body fuel s op = .ok s') :
    kernelCall body fuel s.kernel op = .ok s'.kernel := by
  unfold kernelStep at h
  obtain ⟨k', hk, h⟩ := bind_eq_ok.mp h
  obtain rfl := Except.ok.inj h
  exact hk

/-- While `w` waits for the CPU no task of lower priority gets it. -/
theorem run_above {s₁ : Tasking} {s s' : KernelSys} (hf : 9 ≤ fuel) (hw : Created s₁ w)
    (h : RunsAbove s₁ w s.kernel.tasking) {later : List KernelOp} (hr : run (kernelStep body fuel) s later = .ok s')
    (hwait : AllSteps (kernelStep body fuel) s (fun u _ => u.kernel.tasking.current ≠ w) later) :
    RunsAbove s₁ w s'.kernel.tasking := by
  have hstep : ∀ u op u', RunsAbove s₁ w u.kernel.tasking → u.kernel.tasking.current ≠ w →
      kernelStep body fuel u op = .ok u' → RunsAbove s₁ w u'.kernel.tasking := by
    intro u op u' hu hcur he
    rcases kernelCall_move (kernelStep_ok he) with hsame | ⟨top, hmove⟩
    · rw [hsame]
      exact hu
    · obtain ⟨a', ha⟩ := hmove fun _ => 0
      exact hu.step hf hw hcur ha
  exact run_of_allReturned (I := fun u => RunsAbove s₁ w u.kernel.tasking)
    (C := fun u _ => u.kernel.tasking.current ≠ w) h hstep (allReturned_of_allSteps hwait) hr

/-- An attempt that fails is a `task_sleep(1)`. -/
theorem Waits.sleeps {op : KernelOp} (h : Waits k op) :
    ∃ esp, kernelCall body fuel k op = sleepTask body fuel 1 esp k := by
  cases op with
  | mutexLock m esp => exact ⟨esp, by simp [kernelCall, mutexTryLock, show (k.mutexes m).locked ≠ 0 from h]⟩
  | semWait i esp =>
    refine ⟨esp, ?_⟩
    simp only [kernelCall, semTake, show ¬ 0 < (k.sems i).count from h, if_false]
  | _ => exact absurd h id

theorem kernelRun_inv {frequency : UInt32} {s₀ : Tasking} {p₀ : Procs} {sems : ℕ → Semaphore}
    {ops : List KernelOp} {s : KernelSys} (hf : 9 ≤ fuel)
    (hr : run (kernelStep body fuel) (bootKernel frequency s₀ p₀ sems) ops = .ok s) : KernelInv s.kernel := by
  refine run_inv (I := fun s => KernelInv s.kernel) (fun s op s' h he => ?_)
    (bootKernel_inv frequency s₀ p₀ sems).kernel hr
  obtain ⟨k', hk, hi, -⟩ := kernelCall_spec body h hf op
  have hk' := kernelStep_ok he
  rw [hk] at hk'
  rwa [← Except.ok.inj hk']

end Kernel

/-- **In every state of every run of the kernel: if another task of positive priority is ready, the `schedule` call
of a `task_sleep(n)` makes another task current exactly if `n` is not 1 or another task that is ready after the
wake-up pass has at least the caller's priority. And between a failed attempt of `mutex_lock` or `sem_wait` and
the next time its task runs, no task of lower priority ever runs**, whoever holds the mutex. -/
theorem task_sleep_gives_up_iff {body : Callbacks} {fuel : ℕ} (hf : 9 ≤ fuel) {frequency : UInt32} {s₀ : Tasking}
    {p₀ : Procs} {sems : ℕ → Semaphore} {ops : List KernelOp} {s : KernelSys}
    (hr : run (kernelStep body fuel) (bootKernel frequency s₀ p₀ sems) ops = .ok s) :
    (∀ n esp, n ≠ 0 → OtherReady s.kernel.tasking →
      ∃ s₁, kernelStep body fuel s (.taskSleep n esp) = .ok s₁ ∧
        (s₁.kernel.tasking.current ≠ s.kernel.tasking.current ↔ n ≠ 1 ∨ RivalReady s.kernel.tasking)) ∧
    (∀ op, Waits s.kernel op → ∃ s₁, kernelStep body fuel s op = .ok s₁ ∧
      ∀ later s₂, run (kernelStep body fuel) s₁ later = .ok s₂ →
        AllSteps (kernelStep body fuel) s₁
          (fun u _ => u.kernel.tasking.current ≠ s.kernel.tasking.current) later →
        ∀ t, Created s.kernel.tasking t →
          prio s.kernel.tasking t < prio s.kernel.tasking s.kernel.tasking.current →
          s₂.kernel.tasking.current ≠ t) := by
  have hI := kernelRun_inv hf hr
  obtain ⟨l, hl⟩ := hI.ring
  constructor
  · intro n esp hn hother
    obtain ⟨s₁, hs₁, -⟩ := @kernelStep_spec body fuel s hI hf (.taskSleep n esp)
    refine ⟨s₁, hs₁, ?_⟩
    have hk : sleepTask body fuel n esp s.kernel = .ok s₁.kernel := kernelStep_ok hs₁
    rw [sleepTask, if_neg hn] at hk
    obtain ⟨r, hs⟩ := irqHandler_schedules hk
    obtain ⟨r', k, he, hiff⟩ := sleep_leaves_iff hl hf hn hother esp
    obtain rfl : k = s₁.kernel.tasking := by
      rw [hs] at he
      exact (Prod.mk.inj (Except.ok.inj he)).2.symm
    exact hiff
  · intro op hwait
    obtain ⟨s₁, hs₁, -⟩ := @kernelStep_spec body fuel s hI hf op
    refine ⟨s₁, hs₁, fun later s₂ hrun hlater t ht hlt => ?_⟩
    obtain ⟨esp, hcall⟩ := hwait.sleeps
    have hk := kernelStep_ok hs₁
    rw [hcall, sleepTask, if_neg (by decide : (1 : UInt32) ≠ 0)] at hk
    obtain ⟨r, hs⟩ := irqHandler_schedules hk
    have hw : Created s.kernel.tasking s.kernel.tasking.current := (hl.mem _).mp hl.current
    have hstart : RunsAbove s.kernel.tasking s.kernel.tasking.current s₁.kernel.tasking := by
      refine runsAbove_of_schedule (markSleeping_ring hl 1) hf (fun u hu => ?_) hw ?_ hs
      · rw [markSleeping_created, markSleeping_prio]
        exact ⟨hu, rfl⟩
      · exact (markSleeping_wakes (by decide)).mpr rfl
    have hend := run_above hf hw hstart hrun hlater
    rintro rfl
    have habove := hend.above
    rw [(hend.kept _ ht).2] at habove
    omega

/-- The main task holds a mutex, and a task of priority 3 runs. -/
def heldOps : List KernelOp := [.mutexLock 0 0, .createTask 4096 3, .taskYield 0]

/-- The kernel after these steps. -/
def heldKernel : KernelSys :=
  match run (kernelStep (fun _ => []) 9) (bootKernel 100 (bootTasking 0) (bootProcs 0) fun _ => semInit 1 1)
    heldOps with
  | .ok s => s
  | .error _ => bootKernel 100 (bootTasking 0) (bootProcs 0) fun _ => semInit 1 1

theorem heldKernel_run :
    run (kernelStep (fun _ => []) 9) (bootKernel 100 (bootTasking 0) (bootProcs 0) fun _ => semInit 1 1) heldOps =
      .ok heldKernel := by
  rfl

theorem task_sleep_gives_up_two_ticks :
    ∃ s₁, kernelStep (fun _ => []) 9 heldKernel (.taskSleep 2 0) = .ok s₁ ∧
      s₁.kernel.tasking.current ≠ .pool 0 := by
  have hcur : heldKernel.kernel.tasking.current = .pool 0 := by decide +kernel
  have hother : OtherReady heldKernel.kernel.tasking :=
    ⟨.mainTask, by rw [hcur]; decide, trivial, by decide +kernel, by decide +kernel⟩
  obtain ⟨s₁, hs, hiff⟩ := (task_sleep_gives_up_iff le_rfl heldKernel_run).1 2 0 (by decide) hother
  refine ⟨s₁, hs, ?_⟩
  rw [hcur] at hiff
  exact hiff.mpr (.inl (by decide))

/-- The main task is ready and holds the mutex; a task of priority 3 that calls `task_sleep(1)`, or that waits for
the mutex, goes on running. -/
theorem task_sleep_keeps_cpu :
    OtherReady heldKernel.kernel.tasking ∧
    (∃ s₁, kernelStep (fun _ => []) 9 heldKernel (.taskSleep 1 0) = .ok s₁ ∧
      s₁.kernel.tasking.current = heldKernel.kernel.tasking.current) ∧
    (heldKernel.kernel.mutexes 0).owner = some .mainTask ∧
    ∃ s₁, kernelStep (fun _ => []) 9 heldKernel (.mutexLock 0 0) = .ok s₁ ∧
      s₁.kernel.tasking.current = heldKernel.kernel.tasking.current := by
  have hcur : heldKernel.kernel.tasking.current = .pool 0 := by decide +kernel
  have hsleep : Returns (kernelStep (fun _ => []) 9 heldKernel (.taskSleep 1 0)) fun s =>
      s.kernel.tasking.current = .pool 0 := by
    decide +kernel
  have hlock : Returns (kernelStep (fun _ => []) 9 heldKernel (.mutexLock 0 0)) fun s =>
      s.kernel.tasking.current = .pool 0 := by
    decide +kernel
  rw [hcur]
  refine ⟨⟨.mainTask, by rw [hcur]; decide, trivial, by decide +kernel, by decide +kernel⟩, ?_, ?_, ?_⟩
  · exact hsleep
  · decide +kernel
  · exact hlock

end RtosKernel
