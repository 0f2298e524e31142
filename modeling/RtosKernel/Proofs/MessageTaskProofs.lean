import RtosKernel.Proofs.InterruptProofs
import RtosKernel.Proofs.MessageProofs

/-!
# The two tasks: who runs

`task_a` has the largest priority, so it loses the CPU only in its `task_sleep(50)`; in particular it never does so
inside a critical section, and `task_b` always finds both mutexes free (`TasksInv`). An interrupt needs less than what
holds between two statements (`TasksCore`), because a task that calls `task_sleep` is marked before its `int $32`.
-/

namespace RtosKernel

open Lib

/-! ## Places -/

/-- The next statement is an `int $32`. -/
def LoopPc.trapping : LoopPc → Bool
  | .queueWait _ .trap | .lockWait .trap | .sleep .trap => true
  | _ => false

/-- The task has marked itself for its `task_sleep` at the end of the round, or it is at the start of a round. -/
def LoopPc.resting : LoopPc → Bool
  | .queue (.pushLock _) | .queue .popLock | .sleep .trap => true
  | _ => false

/-- The task has found a mutex locked: where it is in `task_sleep(1)`. -/
def LoopPc.waiting : LoopPc → Option SleepPc
  | .queueWait _ p => some p
  | .lockWait p => some p
  | _ => none

/-- The task is in a critical section. -/
def LoopPc.holds (pc : LoopPc) : Bool := pc.queuePc.inside || pc.showing

theorem LoopPc.holds_of_resting {pc : LoopPc} (h : pc.resting = true) : pc.holds = false := by
  cases pc with
  | queue qpc => cases qpc <;> first | rfl | cases h
  | sleep p => rfl
  | _ => cases h

theorem LoopPc.waiting_of_resting {pc : LoopPc} (h : pc.resting = true) : pc.waiting = none := by
  cases pc with
  | queue qpc => rfl
  | sleep p => rfl
  | _ => cases h

/-- The priorities with which `kernel_main` creates the tasks. -/
def taskPrio : TaskRef → ℕ
  | .mainTask => 1
  | .pool i => if i.val = 0 then 3 else 2

/-! ## The invariant -/

/-- What an interrupt relies on. -/
structure TasksCore (k : Tasking) (created : ℕ) (frame : TaskRef → Frame) : Prop where
  ring : ∃ l, TaskRing k l
  pool : k.poolIndex = created ∧ created ≤ 2
  prio : ∀ t, Created k t → prio k t = taskPrio t
  main : (k.tasks .mainTask).state = .ready
  idle : ∀ t, ¬ Created k t ∨ t = .mainTask → frame t = entryFrame t
  sender_rests : WakesReady (k.tasks refA) ∨ (frame refA).pc.resting = true
  sender_waits : (frame refA).pc.waiting = some .state →
    (k.tasks refA).state = .ready ∧ (k.tasks refA).sleepTicks = 1
  receiver_goes_on : (frame refB).pc.waiting = none
  receiver_rests : (k.tasks refB).state = .ready ∨ (frame refB).pc.resting = true

/-- What holds between two statements. -/
structure TasksInv (k : Tasking) (created : ℕ) (frame : TaskRef → Frame) : Prop where
  core : TasksCore k created frame
  running : (k.tasks k.current).state = .ready ∨ (frame k.current).pc.trapping = true
  sender_away : k.current ≠ refA → (frame refA).pc.resting = true

section Interrupts

variable {env : TaskEnv} {esp : UInt32} {s s' : Messages} {k k' : Tasking} {created : ℕ} {frame : TaskRef → Frame}
  {l : List TaskRef} {t : TaskRef}

/-- Only three tasks are created. -/
theorem TasksCore.created_cases (h : TasksCore k created frame) (ht : Created k t) :
    t = .mainTask ∨ t = refA ∨ t = refB := by
  cases t with
  | mainTask => exact .inl rfl
  | pool i =>
    have hlt : i.val < k.poolIndex := ht
    obtain ⟨hidx, hle⟩ := h.pool
    have hi : i = 0 ∨ i = 1 := by
      rw [Fin.ext_iff, Fin.ext_iff]
      show i.val = 0 ∨ i.val = 1
      omega
    rcases hi with rfl | rfl
    · exact .inr (.inl rfl)
    · exact .inr (.inr rfl)

/-- `task_a` has the largest priority. -/
theorem TasksCore.sender_of_prio (h : TasksCore k created frame) (ht : Created k t) (hp : 3 ≤ RtosKernel.prio k t) :
    t = refA := by
  rw [h.prio t ht] at hp
  rcases h.created_cases ht with rfl | rfl | rfl
  · exact absurd hp (by decide)
  · rfl
  · exact absurd hp (by decide)

/-- **`schedule` makes `task_a` run whenever it can, and otherwise a task that is ready.** -/
theorem schedule_runs (h : TasksCore k created frame) {fuel : ℕ} (hf : 9 ≤ fuel) (hl : TaskRing k l) {r : UInt32}
    (hs : schedule fuel esp k = .ok (r, k')) (hsch : Scheduled k k' l) :
    TasksInv k' created frame ∧ (k'.current = refA ↔ Created k refA ∧ WakesReady (k.tasks refA)) ∧
      (k'.tasks k'.current).state = .ready := by
  have hring := hsch.ring hl
  have hcreated : ∀ t, Created k' t ↔ Created k t := fun t => ((hring.mem t).symm.trans (hl.mem t))
  have hmem {t : TaskRef} (ht : Created k t) : t ∈ l := (hl.mem t).mpr ht
  have hready {t : TaskRef} (ht : Created k t) : (k'.tasks t).state = .ready ↔ WakesReady (k.tasks t) := by
    rw [(hsch.state (hmem ht)).1, wakeTask_ready]
  have hmain : Created k .mainTask := trivial
  have hmainprio : 0 < (k.tasks .mainTask).priority := by
    have hp := h.prio .mainTask hmain
    rw [UInt32.lt_iff_toNat_lt]
    show 0 < RtosKernel.prio k .mainTask
    rw [hp]
    decide
  have hchosen : (k'.tasks k'.current).state = .ready :=
    (hsch.ready_iff hl).mpr (.inr ⟨.mainTask, hmain, .inl h.main, hmainprio⟩)
  have hiff : k'.current = refA ↔ Created k refA ∧ WakesReady (k.tasks refA) := by
    constructor
    · intro hcur
      have hc : Created k refA := by
        rw [← hcur]
        exact (hl.mem _).mp hsch.chosen.1
      rw [hcur] at hchosen
      exact ⟨hc, (hready hc).mp hchosen⟩
    · rintro ⟨hc, hw⟩
      have hle := schedule_above hl hf hs (hmem hc) hw
      rw [h.prio refA hc] at hle
      exact h.sender_of_prio ((hl.mem _).mp hsch.chosen.1) hle
  -- a task that does not exist yet is at its entry, and nothing happens to it
  have hwake : WakesReady (k'.tasks refA) ∨ (frame refA).pc.resting = true := by
    by_cases hc : Created k refA
    · rcases h.sender_rests with hw | hr
      · exact .inl (.inl ((hready hc).mpr hw))
      · exact .inr hr
    · rw [h.idle refA (.inl hc)]
      exact .inr rfl
  refine ⟨⟨⟨⟨l, hring⟩, ⟨by rw [hsch.poolIndex]; exact h.pool.1, h.pool.2⟩, fun t ht => ?_,
    (hready hmain).mpr (.inl h.main), fun t ht => h.idle t (ht.imp_left fun hn hc => hn ((hcreated t).mpr hc)), hwake,
    fun hpc => ?_, h.receiver_goes_on, ?_⟩, .inl hchosen, fun hne => ?_⟩, hiff, hchosen⟩
  · rw [hsch.prio_eq (hmem ((hcreated t).mp ht))]
    exact h.prio t ((hcreated t).mp ht)
  · by_cases hc : Created k refA
    · obtain ⟨hst, hticks⟩ := h.sender_waits hpc
      obtain ⟨h1, h2⟩ := hsch.state (hmem hc)
      rw [wakeTask_awake (by rw [hst]; simp)] at h1 h2
      exact ⟨h1.trans hst, h2.trans hticks⟩
    · rw [h.idle refA (.inl hc)] at hpc
      cases hpc
  · by_cases hc : Created k refB
    · exact h.receiver_rests.imp_left fun hst => (hready hc).mpr (.inl hst)
    · rw [h.idle refB (.inl hc)]
      exact .inr rfl
  · rcases h.sender_rests with hw | hr
    · by_cases hc : Created k refA
      · exact absurd (hiff.mpr ⟨hc, hw⟩) hne
      · rw [h.idle refA (.inl hc)]
        rfl
    · exact hr

/-- A timer interrupt, or the `int $32` of `task_sleep`. -/
theorem messageIrq_tasks (h : TasksCore s.kernel.tasking s.created s.frame) (hf : 9 ≤ env.fuel) {k : Kernel}
    (hk : irqHandler env.body env.fuel esp s.kernel = .ok k) :
    TasksInv k.tasking s.created s.frame ∧
      (k.tasking.current = refA ↔ Created s.kernel.tasking refA ∧ WakesReady (s.kernel.tasking.tasks refA)) ∧
      (k.tasking.tasks k.tasking.current).state = .ready := by
  obtain ⟨l, hl⟩ := h.ring
  obtain ⟨r, hs⟩ := irqHandler_schedules hk
  obtain ⟨r', t, he, hsch⟩ := hl.schedule hf esp
  obtain rfl : t = k.tasking := (Prod.mk.inj (Except.ok.inj (he.symm.trans hs))).2
  exact schedule_runs h hf hl hs hsch

end Interrupts

/-! ## The statements -/

/-- What the running task may be and where it may go on, for the invariant. -/
structure MayGoOn (t : TaskRef) (v : Task) (pc : LoopPc) : Prop where
  sender : t = refA → (WakesReady v ∨ pc.resting = true) ∧
    (pc.waiting = some .state → v.state = .ready ∧ v.sleepTicks = 1)
  receiver : t = refB → pc.waiting = none ∧ (v.state = .ready ∨ pc.resting = true)

section Statements

variable {env : TaskEnv} {body : LoopBody} {esp : UInt32} {s s' : Messages} {k : Tasking} {created : ℕ}
  {frame : TaskRef → Frame} {t : TaskRef} {v : Task} {f : Frame}

theorem setTask_self (k : Tasking) (t : TaskRef) : k.setTask t (k.tasks t) = k := by
  rw [Tasking.setTask, Function.update_eq_self]

/-- The running task is assigned to, or goes on at another place. -/
theorem TasksCore.go (h : TasksCore k created frame) (ht : Created k t) (hmain : t ≠ .mainTask)
    (hnext : v.next = k.next t) (hprio : v.priority = (k.tasks t).priority) (hgo : MayGoOn t v f.pc) :
    TasksCore (k.setTask t v) created (Function.update frame t f) := by
  obtain ⟨l, hl⟩ := h.ring
  have hring := setTask_ring hl hnext
  have hcreated : ∀ u, Created (k.setTask t v) u ↔ Created k u := fun u => (hring.mem u).symm.trans (hl.mem u)
  have htasks {u : TaskRef} (hu : u ≠ t) : (k.setTask t v).tasks u = k.tasks u := by
    rw [Tasking.setTask_tasks, Function.update_of_ne hu]
  have hself : (k.setTask t v).tasks t = v := by rw [Tasking.setTask_tasks, Function.update_self]
  have hframe {u : TaskRef} (hu : u ≠ t) : Function.update frame t f u = frame u := Function.update_of_ne hu ..
  have hframeself : Function.update frame t f t = f := Function.update_self ..
  refine ⟨⟨l, hring⟩, h.pool, fun u hu => ?_, ?_, fun u hu => ?_, ?_, ?_, ?_, ?_⟩
  · rw [← h.prio u ((hcreated u).mp hu), RtosKernel.prio, RtosKernel.prio]
    by_cases hut : u = t
    · subst hut
      rw [hself, hprio]
    · rw [htasks hut]
  · rw [htasks (Ne.symm hmain)]
    exact h.main
  · have hut : u ≠ t := by
      rintro rfl
      rcases hu with hu | hu
      · exact hu ((hcreated u).mpr ht)
      · exact hmain hu
    rw [hframe hut]
    exact h.idle u (hu.imp_left fun hn hc => hn ((hcreated u).mpr hc))
  · by_cases hA : t = refA
    · rw [← hA, hself, hframeself]
      exact (hgo.sender hA).1
    · rw [htasks (Ne.symm hA), hframe (Ne.symm hA)]
      exact h.sender_rests
  · by_cases hA : t = refA
    · rw [← hA, hself, hframeself]
      exact (hgo.sender hA).2
    · rw [htasks (Ne.symm hA), hframe (Ne.symm hA)]
      exact h.sender_waits
  · by_cases hB : t = refB
    · rw [← hB, hframeself]
      exact (hgo.receiver hB).1
    · rw [hframe (Ne.symm hB)]
      exact h.receiver_goes_on
  · by_cases hB : t = refB
    · rw [← hB, hself, hframeself]
      exact (hgo.receiver hB).2
    · rw [htasks (Ne.symm hB), hframe (Ne.symm hB)]
      exact h.receiver_rests

theorem TasksInv.go (h : TasksInv k created frame) (ht : k.current = t) (hmain : t ≠ .mainTask)
    (hnext : v.next = k.next t) (hprio : v.priority = (k.tasks t).priority) (hgo : MayGoOn t v f.pc)
    (hrun : v.state = .ready ∨ f.pc.trapping = true) :
    TasksInv (k.setTask t v) created (Function.update frame t f) := by
  obtain ⟨l, hl⟩ := h.core.ring
  have hc : Created k t := by
    rw [← ht]
    exact (hl.mem _).mp hl.current
  refine ⟨h.core.go hc hmain hnext hprio hgo, ?_, fun hne => ?_⟩
  · rw [Tasking.setTask_current, ht, Tasking.setTask_tasks, Function.update_self, Function.update_self]
    exact hrun
  · rw [Tasking.setTask_current, ht] at hne
    rw [Function.update_of_ne (Ne.symm hne)]
    exact h.sender_away (by rw [ht]; exact hne)

/-- The running task goes on at another place. -/
theorem TasksInv.move (h : TasksInv k created frame) (ht : k.current = t) (hmain : t ≠ .mainTask)
    (htrap : (frame t).pc.trapping = false) (hA : t = refA → f.pc.waiting ≠ some .state)
    (hB : t = refB → f.pc.waiting = none) : TasksInv k created (Function.update frame t f) := by
  have hready : (k.tasks t).state = .ready := by
    rcases h.running with hr | hr
    · rwa [ht] at hr
    · rw [ht, htrap] at hr
      cases hr
  have hgo := h.go (v := k.tasks t) (f := f) ht hmain rfl rfl
    ⟨fun e => ⟨.inl (.inl hready), fun hw => absurd hw (hA e)⟩, fun e => ⟨hB e, .inl hready⟩⟩ (.inl hready)
  rwa [setTask_self] at hgo

/-- The places of `task_sleep`. -/
theorem IsSleep.places {num n : UInt32} {here : SleepPc → LoopPc} {after : LoopPc} (h : IsSleep body num here after n) :
    (here .ticks).trapping = false ∧ (here .state).trapping = false ∧ (here .trap).trapping = true ∧
      after.waiting = none ∧
      (((∀ p, (here p).waiting = none) ∧ (here .trap).resting = true ∧ after = .queue (body.call num)) ∨
        ((∀ p, (here p).waiting = some p) ∧ n = 1 ∧ (here .trap).resting = false)) := by
  cases h with
  | queue pc => exact ⟨rfl, rfl, rfl, rfl, .inr ⟨fun _ => rfl, rfl, rfl⟩⟩
  | lock => exact ⟨rfl, rfl, rfl, rfl, .inr ⟨fun _ => rfl, rfl, rfl⟩⟩
  | round => exact ⟨rfl, rfl, rfl, rfl, .inl ⟨fun _ => rfl, rfl, rfl⟩⟩

theorem entryFrame_holds (t : TaskRef) : (entryFrame t).pc.holds = false := by
  obtain ⟨hq, hs, -, -⟩ := entryFrame_queuePc t
  rw [LoopPc.holds, hq, hs]
  rfl

/-- While `task_b` runs outside the critical sections, no task is inside one. -/
theorem TasksInv.none_holds (h : TasksInv k created frame) (hcur : k.current = refB)
    (hpc : (frame refB).pc.holds = false) (t : TaskRef) : (frame t).pc.holds = false := by
  by_cases hc : Created k t
  · rcases h.core.created_cases hc with rfl | rfl | rfl
    · rw [h.core.idle _ (.inr rfl)]
      exact entryFrame_holds _
    · exact LoopPc.holds_of_resting (h.sender_away (by rw [hcur]; decide))
    · exact hpc
  · rw [h.core.idle t (.inl hc)]
    exact entryFrame_holds t

/-- `mutex_lock` by `task_b` succeeds at once. -/
theorem TasksInv.queue_free (h : TasksInv s.kernel.tasking s.created s.frame) (hlocks : LocksInv s)
    (hcur : s.current = refB) (hpc : (s.frame refB).pc.holds = false) : s.msgQueue.lock = heldMutex none := by
  obtain ⟨o, items, hqueue⟩ := hlocks.queue
  rw [hqueue.lock]
  cases o with
  | none => rfl
  | some t =>
    have hin : (s.frame t).pc.queuePc.inside = true := (hqueue.inside t).mpr rfl
    have hout := h.none_holds hcur hpc t
    rw [LoopPc.holds, hin] at hout
    cases hout

theorem TasksInv.vga_free (h : TasksInv s.kernel.tasking s.created s.frame) (hlocks : LocksInv s)
    (hcur : s.current = refB) (hpc : (s.frame refB).pc.holds = false) : s.vgaMutex = heldMutex none := by
  obtain ⟨o, hmx, hvga⟩ := hlocks.vga
  rw [hmx]
  cases o with
  | none => rfl
  | some t =>
    have hin : (s.frame t).pc.showing = true := (hvga t).mpr rfl
    have hout := h.none_holds hcur hpc t
    rw [LoopPc.holds, hin, Bool.or_true] at hout
    cases hout

theorem LoopEffect.frame_update (he : LoopEffect env body esp s s') :
    s'.frame = Function.update s.frame s.current (s'.frame s.current) := by
  funext t
  by_cases ht : t = s.current
  · rw [ht, Function.update_self]
  · rw [Function.update_of_ne ht, he.others ht]

/-- The two loops differ in nothing else that the tasks depend on. -/
def RunsLoop (t : TaskRef) (body : LoopBody) : Prop := (t = refA ∧ body = taskA) ∨ (t = refB ∧ body = taskB)

theorem RunsLoop.ne_main (h : RunsLoop t body) : t ≠ .mainTask := by
  rcases h with ⟨rfl, -⟩ | ⟨rfl, -⟩ <;> decide

theorem RunsLoop.call_resting (h : RunsLoop t body) (n : UInt32) : (LoopPc.queue (body.call n)).resting = true := by
  rcases h with ⟨-, rfl⟩ | ⟨-, rfl⟩ <;> rfl

theorem RunsLoop.returned_waiting (h : RunsLoop t body) (e : QueueEvent) (n : UInt32) :
    (body.returned e n).1.waiting = none := by
  rcases h with ⟨-, rfl⟩ | ⟨-, rfl⟩
  · rfl
  · cases e <;> rfl

theorem RunsLoop.next_waiting (h : RunsLoop t body) : body.next.waiting = none := by
  rcases h with ⟨-, rfl⟩ | ⟨-, rfl⟩ <;> rfl

/-- `current_task->sleep_ticks = ticks`. -/
theorem TasksInv.markTicks (h : TasksInv s.kernel.tasking s.created s.frame) (hloop : RunsLoop s.current body)
    {num n : UInt32} {here : SleepPc → LoopPc} {after : LoopPc} (hs : IsSleep body num here after n)
    (hpc : (s.frame s.current).pc = here .ticks) (hf : f.pc = here .state) :
    TasksInv (s.kernel.tasking.setTask s.current { s.task with sleepTicks := n }) s.created
      (Function.update s.frame s.current f) := by
  obtain ⟨htrap, -, -, -, hcase⟩ := hs.places
  have hready : s.task.state = .ready := by
    rcases h.running with hr | hr
    · exact hr
    · have hr' : (s.frame s.current).pc.trapping = true := hr
      rw [hpc, htrap] at hr'
      cases hr'
  refine h.go (v := { s.task with sleepTicks := n }) rfl hloop.ne_main rfl rfl ⟨fun _ => ⟨.inl (.inl hready), ?_⟩, fun hB => ?_⟩
    (.inl hready)
  · intro hw
    rw [hf] at hw
    rcases hcase with ⟨hnone, -, -⟩ | ⟨-, hone, -⟩
    · rw [hnone] at hw
      cases hw
    · exact ⟨hready, hone⟩
  · refine ⟨?_, .inl hready⟩
    have hnow := h.core.receiver_goes_on
    rw [← hB, hpc] at hnow
    rw [hf]
    rcases hcase with ⟨hnone, -, -⟩ | ⟨hsome, -, -⟩
    · exact hnone _
    · rw [hsome] at hnow
      cases hnow

/-- `current_task->state = TASK_SLEEPING`. -/
theorem TasksInv.markState (h : TasksInv s.kernel.tasking s.created s.frame) (hloop : RunsLoop s.current body)
    {num n : UInt32} {here : SleepPc → LoopPc} {after : LoopPc} (hs : IsSleep body num here after n)
    (hpc : (s.frame s.current).pc = here .state) (hf : f.pc = here .trap) :
    TasksInv (s.kernel.tasking.setTask s.current { s.task with state := .sleeping }) s.created
      (Function.update s.frame s.current f) := by
  obtain ⟨-, -, htrap, -, hcase⟩ := hs.places
  refine h.go (v := { s.task with state := .sleeping }) rfl hloop.ne_main rfl rfl ⟨fun hA => ?_, fun hB => ?_⟩
    (.inr (by rw [hf]; exact htrap))
  · rw [hf]
    rcases hcase with ⟨hnone, hrest, -⟩ | ⟨hsome, -, -⟩
    · exact ⟨.inr hrest, fun hw => by rw [hnone] at hw; cases hw⟩
    · have hticks := h.core.sender_waits (by rw [← hA, hpc]; exact hsome _)
      rw [← hA] at hticks
      refine ⟨.inl (.inr ⟨rfl, ?_⟩), fun hw => by rw [hsome] at hw; cases hw⟩
      show s.task.sleepTicks ≤ 1
      have hone : s.task.sleepTicks = 1 := hticks.2
      rw [hone]
      exact UInt32.le_refl 1
  · have hnow := h.core.receiver_goes_on
    rw [← hB, hpc] at hnow
    rw [hf]
    rcases hcase with ⟨hnone, hrest, -⟩ | ⟨hsome, -, -⟩
    · exact ⟨hnone _, .inr hrest⟩
    · rw [hsome] at hnow
      cases hnow

/-- `int $32`. -/
theorem TasksInv.trap (h : TasksInv s.kernel.tasking s.created s.frame) (hf : 9 ≤ env.fuel)
    (hloop : RunsLoop s.current body) {n : UInt32} {here : SleepPc → LoopPc} {after : LoopPc} {k : Kernel}
    (hs : IsSleep body (s.frame s.current).num here after n) (hpc : (s.frame s.current).pc = here .trap)
    (hk : irqHandler env.body env.fuel esp s.kernel = .ok k) :
    TasksInv k.tasking s.created (s.goto after).frame ∧
      (k.tasking.current = refA ↔ Created s.kernel.tasking refA ∧ WakesReady (s.kernel.tasking.tasks refA)) := by
  obtain ⟨-, -, -, hwait, hcase⟩ := hs.places
  obtain ⟨l, hl⟩ := h.core.ring
  have hc : Created s.kernel.tasking s.current := (hl.mem _).mp hl.current
  have hcore : TasksCore s.kernel.tasking s.created (s.goto after).frame := by
    have hgo := h.core.go (v := s.kernel.tasking.tasks s.current) (f := { s.frame s.current with pc := after }) hc
      hloop.ne_main rfl rfl ⟨fun hA => ⟨?_, fun hw => ?_⟩, fun hB => ⟨hwait, ?_⟩⟩
    · rwa [setTask_self] at hgo
    · rcases h.core.sender_rests with hw | hr
      · rw [hA]
        exact .inl hw
      · rcases hcase with ⟨-, -, rfl⟩ | ⟨-, -, hnot⟩
        · exact .inr (hloop.call_resting _)
        · rw [← hA, hpc, hnot] at hr
          cases hr
    · rw [hwait] at hw
      cases hw
    · have hnow := h.core.receiver_goes_on
      rw [← hB, hpc] at hnow
      rcases hcase with ⟨-, -, rfl⟩ | ⟨hsome, -, -⟩
      · exact .inr (hloop.call_resting _)
      · rw [hsome] at hnow
        cases hnow
  obtain ⟨hinv, hiff, -⟩ := messageIrq_tasks (s := s.goto after) hcore hf hk
  exact ⟨hinv, hiff⟩

/-- Where a statement of the queue call goes on. -/
theorem queueCallExec_waiting (hloop : RunsLoop s.current body) (s : Messages) (pc : QueuePc)
    (hbusy : ((queueCallExec body s pc).frame s.current).pc.waiting ≠ none) :
    ((queueCallExec body s pc).frame s.current).pc = .queueWait pc .ticks ∧
      (queueExec s.current s.msgQueue pc).2 = (pc, none) := by
  simp only [queueCallExec, Messages.setFrame, Function.update_self] at hbusy ⊢
  cases he : (queueExec s.current s.msgQueue pc).2.2 with
  | some e =>
    simp only [he] at hbusy
    exact absurd (hloop.returned_waiting e _) hbusy
  | none =>
    simp only [he] at hbusy ⊢
    split_ifs at hbusy ⊢ with hsame
    · exact ⟨rfl, Prod.ext hsame he⟩
    · exact absurd rfl hbusy

/-- A statement of a call on the free queue does not wait. -/
theorem queueExec_ne {t : TaskRef} {q : Queue} {pc : QueuePc} (hq : pc.inside = false → q.lock = heldMutex none)
    (hidle : pc ≠ .idle) : (queueExec t q pc).2 ≠ (pc, none) := by
  cases pc with
  | idle => exact absurd rfl hidle
  | pushLock v =>
    rw [queueExec, hq rfl, mutexTryLock_free]
    simp
  | popLock =>
    rw [queueExec, hq rfl, mutexTryLock_free]
    simp
  | pushTest v =>
    rw [queueExec]
    split <;> simp
  | popTest =>
    rw [queueExec]
    split <;> simp
  | _ => simp [queueExec]

/-- A task that waits for the queue is at `mutex_lock`. -/
def WaitsOutside (frame : TaskRef → Frame) : Prop := ∀ t pc p, (frame t).pc = .queueWait pc p → pc.inside = false

theorem queueExec_stays {t : TaskRef} {q : Queue} {pc : QueuePc} (h : (queueExec t q pc).2 = (pc, none)) :
    pc.inside = false := by
  cases pc with
  | idle => rfl
  | pushLock v => rfl
  | popLock => rfl
  | pushTest v =>
    rw [queueExec] at h
    split at h <;> simp at h
  | popTest =>
    rw [queueExec] at h
    split at h <;> simp at h
  | _ => simp [queueExec] at h

theorem WaitsOutside.step (h : WaitsOutside s.frame) (hloop : RunsLoop s.current body)
    (he : LoopEffect env body esp s s') : WaitsOutside s'.frame := by
  intro t pc p hpc'
  by_cases ht : t = s.current
  · subst ht
    cases he with
    | queue qpc hpc =>
      obtain ⟨hwait, hexec⟩ := queueCallExec_waiting hloop s qpc (by rw [hpc']; simp [LoopPc.waiting])
      rw [hwait] at hpc'
      obtain ⟨rfl, -⟩ := LoopPc.queueWait.inj hpc'
      exact queueExec_stays hexec
    | ticks hs hpc =>
      simp only [Messages.goto_frame, Messages.setCurrent_frame, Messages.setCurrent_current, Function.update_self]
        at hpc'
      cases hs with
      | queue qpc =>
        obtain ⟨rfl, -⟩ := LoopPc.queueWait.inj hpc'
        exact h _ _ _ hpc
      | _ => cases hpc'
    | state hs hpc =>
      simp only [Messages.goto_frame, Messages.setCurrent_frame, Messages.setCurrent_current, Function.update_self]
        at hpc'
      cases hs with
      | queue qpc =>
        obtain ⟨rfl, -⟩ := LoopPc.queueWait.inj hpc'
        exact h _ _ _ hpc
      | _ => cases hpc'
    | trap hs hpc hk =>
      simp only [Messages.goto_frame, Function.update_self] at hpc'
      cases hs <;> cases hpc'
    | unlock hpc =>
      simp only [Messages.goto_frame, Function.update_self] at hpc'
      have hnext := hloop.next_waiting
      rw [hpc'] at hnext
      cases hnext
    | _ =>
      simp only [Messages.goto_frame, Messages.setFrame_frame, Function.update_self] at hpc'
      cases hpc'
  · rw [he.others ht] at hpc'
    exact h t pc p hpc'

/-- **A statement keeps the invariant.** -/
theorem TasksInv.step (h : TasksInv s.kernel.tasking s.created s.frame) (hf : 9 ≤ env.fuel)
    (hloop : RunsLoop s.current body) (hlocks : LocksInv s) (hreceiver : ReceiverInv (s.frame refB) s.events)
    (he : LoopEffect env body esp s s') :
    TasksInv s'.kernel.tasking s'.created s'.frame := by
  have hframe := he.frame_update
  cases he with
  | queue pc hpc =>
    show TasksInv s.kernel.tasking s.created (queueCallExec body s pc).frame
    rw [hframe]
    refine h.move rfl hloop.ne_main (by rw [hpc]; rfl) (fun _ hw => ?_) (fun hB => ?_)
    · obtain ⟨hpc', -⟩ := queueCallExec_waiting hloop s pc (by rw [hw]; simp)
      rw [hpc'] at hw
      cases hw
    · by_contra hne
      obtain ⟨-, hexec⟩ := queueCallExec_waiting hloop s pc hne
      rw [hB] at hpc
      refine queueExec_ne (fun hout => ?_) (fun hidle => ?_) hexec
      · exact h.queue_free hlocks hB (by rw [hpc, LoopPc.holds, LoopPc.queuePc_queue, hout]; rfl)
      · have hpop := hreceiver.call pc (by rw [hpc]; rfl)
        rw [hidle] at hpop
        cases hpop
  | ticks hs hpc =>
    rw [hframe]
    exact h.markTicks hloop hs hpc (by simp [Messages.goto, Messages.setFrame, Messages.setCurrent, Messages.current])
  | state hs hpc =>
    rw [hframe]
    exact h.markState hloop hs hpc (by simp [Messages.goto, Messages.setFrame, Messages.setCurrent, Messages.current])
  | trap hs hpc hk => exact (h.trap hf hloop hs hpc hk).1
  | take hpc hmx =>
    exact h.move rfl hloop.ne_main (by rw [hpc]; rfl) (fun _ => by simp [LoopPc.waiting]) (fun _ => rfl)
  | busy hpc hmx =>
    refine h.move rfl hloop.ne_main (by rw [hpc]; rfl) (fun _ => by simp [LoopPc.waiting]) (fun hB => ?_)
    rw [hB] at hpc
    rw [h.vga_free hlocks hB (by rw [hpc]; rfl), mutexTryLock_free] at hmx
    cases hmx
  | put hpc => exact h.move rfl hloop.ne_main (by rw [hpc]; rfl) (fun _ => by simp [LoopPc.waiting]) (fun _ => rfl)
  | putEnd hpc => exact h.move rfl hloop.ne_main (by rw [hpc]; rfl) (fun _ => by simp [LoopPc.waiting]) (fun _ => rfl)
  | unlock hpc =>
    refine h.move rfl hloop.ne_main (by rw [hpc]; rfl) (fun _ => ?_) (fun _ => hloop.next_waiting)
    show body.next.waiting ≠ _
    rw [hloop.next_waiting]
    simp
  | incr hpc => exact h.move rfl hloop.ne_main (by rw [hpc]; rfl) (fun _ => by simp [LoopPc.waiting]) (fun _ => rfl)

end Statements

/-! ## Every run -/

section Runs

variable {env : TaskEnv} {esp : UInt32} {s s' : Messages} {k : Tasking} {created : ℕ} {frame : TaskRef → Frame}

/-- `kernel_main` creates the next task. -/
theorem TasksInv.create (h : TasksInv k created frame) (hcur : k.current = .mainTask) (hlt : k.poolIndex < taskPoolSize)
    (hle : created + 1 ≤ 2) (entry priority : UInt32)
    (hprio : priority.toNat = taskPrio (.pool ⟨k.poolIndex, hlt⟩)) :
    TasksInv (createTask entry priority k) (created + 1) frame := by
  obtain ⟨l, hl⟩ := h.core.ring
  have hx := hl.current_ne_new hlt
  obtain ⟨-, hcur', hidx, -, hold⟩ := createTask_spec entry priority hlt hx
  have hcreated := created_createTask entry priority hlt hx
  have hfresh : ¬ Created k (.pool ⟨k.poolIndex, hlt⟩) := Nat.lt_irrefl _
  have hrest {t : TaskRef} (ht : ¬ Created k t) (hr : (entryFrame t).pc.resting = true) :
      (frame t).pc.resting = true := by
    rw [h.core.idle t (.inl ht)]
    exact hr
  have hsender : refA ≠ .pool ⟨k.poolIndex, hlt⟩ ∨ (frame refA).pc.resting = true := by
    by_cases he : refA = .pool ⟨k.poolIndex, hlt⟩
    · exact .inr (hrest (by rw [he]; exact hfresh) rfl)
    · exact .inl he
  have hreceiver : refB ≠ .pool ⟨k.poolIndex, hlt⟩ ∨ (frame refB).pc.resting = true := by
    by_cases he : refB = .pool ⟨k.poolIndex, hlt⟩
    · exact .inr (hrest (by rw [he]; exact hfresh) rfl)
    · exact .inl he
  have hmain : ((createTask entry priority k).tasks .mainTask).state = .ready := by
    obtain ⟨n, hn⟩ := hold .mainTask (by simp)
    rw [hn]
    exact h.core.main
  refine ⟨⟨hl.create entry priority, ⟨by rw [hidx, h.core.pool.1], hle⟩, fun t ht => ?_, hmain, fun t ht => ?_, ?_, ?_,
    h.core.receiver_goes_on, ?_⟩, .inl (by rw [hcur', hcur]; exact hmain), fun _ => ?_⟩
  · rcases (hcreated t).mp ht with rfl | hc
    · obtain ⟨n, hn⟩ := createTask_new k hlt entry priority
      rw [prio, hn]
      exact hprio
    · obtain ⟨n, hn⟩ := hold t (by rintro rfl; exact hfresh hc)
      rw [prio, hn]
      exact h.core.prio t hc
  · exact h.core.idle t (ht.imp_left fun hn hc => hn ((hcreated t).mpr (.inr hc)))
  · rcases hsender with hne | hr
    · obtain ⟨n, hn⟩ := hold refA hne
      rw [hn]
      exact h.core.sender_rests
    · exact .inr hr
  · intro hw
    rcases hsender with hne | hr
    · obtain ⟨n, hn⟩ := hold refA hne
      rw [hn]
      exact h.core.sender_waits hw
    · rw [LoopPc.waiting_of_resting hr] at hw
      cases hw
  · rcases hreceiver with hne | hr
    · obtain ⟨n, hn⟩ := hold refB hne
      rw [hn]
      exact h.core.receiver_rests
    · exact .inr hr
  · exact h.sender_away (by rw [hcur]; simp)

theorem TasksInv.main (h : TasksInv s.kernel.tasking s.created s.frame) (hcur : s.current = .mainTask) :
    TasksInv (mainExec env s).kernel.tasking (mainExec env s).created (mainExec env s).frame := by
  have hidx := h.core.pool.1
  rw [mainExec]
  split_ifs with h0 h1
  · have hzero : s.kernel.tasking.poolIndex = 0 := hidx.trans h0
    have hlt : s.kernel.tasking.poolIndex < taskPoolSize := by rw [hzero]; decide
    refine h.create hcur hlt (by omega) env.taskAAddr 3 ?_
    simp only [hzero]
    rfl
  · have hone : s.kernel.tasking.poolIndex = 1 := hidx.trans h1
    have hlt : s.kernel.tasking.poolIndex < taskPoolSize := by rw [hone]; decide
    refine h.create hcur hlt (by omega) env.taskBAddr 2 ?_
    simp only [hone]
    rfl
  · exact h

/-- The invariant of the messages and that of the tasks. -/
structure RunInv (s : Messages) : Prop where
  messages : MessageInv s
  tasks : TasksInv s.kernel.tasking s.created s.frame
  waits : WaitsOutside s.frame

theorem bootMessages_tasks (k : Kernel) (q : Queue) (screen : Terminal) : RunInv (bootMessages k q screen) := by
  refine ⟨bootMessages_inv k q screen, ⟨⟨⟨_, initTasking_ring k.tasking⟩, ⟨rfl, Nat.zero_le _⟩, fun t ht => ?_, ?_,
    fun _ _ => rfl, .inr rfl, fun hw => ?_, rfl, .inr rfl⟩, .inl ?_, fun _ => rfl⟩, fun t pc p hpc => ?_⟩
  · cases t with
    | mainTask =>
      show ((initTasking k.tasking).tasks .mainTask).priority.toNat = 1
      simp [initTasking]
    | pool i => exact absurd ht (Nat.not_lt_zero _)
  · show ((initTasking k.tasking).tasks .mainTask).state = .ready
    simp [initTasking]
  · cases hw
  · show ((initTasking k.tasking).tasks .mainTask).state = .ready
    simp [initTasking]
  · have hcall : (entryFrame t).pc.waiting = none := by
      unfold entryFrame
      cases loopOf t <;> rfl
    rw [show (entryFrame t).pc = .queueWait pc p from hpc] at hcall
    cases hcall

/-- What the step of the running task, or an interrupt, does. -/
inductive StepEffect (env : TaskEnv) (s : Messages) : MessageOp → Messages → Prop
  | irq (esp : UInt32) {k : Kernel} (hk : irqHandler env.body env.fuel esp s.kernel = .ok k) :
      StepEffect env s (.irq0 esp) { s with kernel := k }
  | loop (esp : UInt32) (buf : ℕ → UInt8) {body : LoopBody} {s' : Messages} (hloop : RunsLoop s.current body)
      (he : LoopEffect env body esp s s') : StepEffect env s (.exec esp buf) s'
  | main (esp : UInt32) (buf : ℕ → UInt8) (hcur : s.current = .mainTask) :
      StepEffect env s (.exec esp buf) (mainExec env s)

/-- **Every step returns, with one of these effects.** -/
theorem messageStep_effect (hf : 9 ≤ env.fuel) (h : RunInv s) (op : MessageOp) :
    ∃ s', messageStep env s op = .ok s' ∧ StepEffect env s op s' := by
  cases op with
  | irq0 esp =>
    obtain ⟨k, hk, -, he⟩ := messageIrq_ok h.messages.ring hf esp
    exact ⟨_, he, .irq esp hk⟩
  | exec esp buf =>
    rw [messageStep]
    cases hloop : loopOf s.current with
    | none =>
      refine ⟨_, rfl, .main esp buf ?_⟩
      obtain ⟨l, hl⟩ := h.messages.ring
      rcases h.tasks.core.created_cases ((hl.mem _).mp hl.current) with hm | ha | hb
      · exact hm
      · rw [show s.current = refA from ha] at hloop
        cases hloop
      · rw [show s.current = refB from hb] at hloop
        cases hloop
    | some body =>
      obtain ⟨s', hs, he⟩ := loopExec_ok h.messages.ring hf
      exact ⟨s', hs, .loop esp buf (loopOf_cases hloop) he⟩

theorem StepEffect.inv {op : MessageOp} (he : StepEffect env s op s') (hf : 9 ≤ env.fuel) (h : RunInv s) :
    RunInv s' := by
  obtain ⟨hm, ht, hw⟩ := h
  cases he with
  | irq esp hk =>
    obtain ⟨l, hl⟩ := hm.ring
    obtain ⟨k', hk', hs⟩ := irqHandler_scheduled hl hf env.body esp
    obtain rfl := Except.ok.inj (hk.symm.trans hk')
    exact ⟨⟨⟨l, hs.ring hl⟩, ⟨hm.locks.queue, hm.locks.vga⟩, hm.sender, hm.receiver, hm.rowA, hm.rowB⟩,
      (messageIrq_tasks ht.core hf hk).1, hw⟩
  | loop esp buf hloop he =>
    refine ⟨?_, ht.step hf hloop hm.locks hm.receiver he, hw.step hloop he⟩
    rcases hloop with ⟨hcur, rfl⟩ | ⟨hcur, rfl⟩
    · exact hm.stepA hf hcur he
    · exact hm.stepB hf hcur he
  | main esp buf hcur =>
    refine ⟨hm.main, ht.main hcur, ?_⟩
    rcases mainExec_cases env s with he | ⟨entry, priority, he⟩
    · rw [he]
      exact hw
    · rw [he]
      exact hw

theorem messageStep_run (hf : 9 ≤ env.fuel) (h : RunInv s) (op : MessageOp) :
    ∃ s', messageStep env s op = .ok s' ∧ RunInv s' := by
  obtain ⟨s', hs, he⟩ := messageStep_effect hf h op
  exact ⟨s', hs, he.inv hf h⟩

/-- What the priorities give, at any moment. -/
structure SectionsSafe (s : Messages) : Prop where
  /-- Neither mutex makes `task_b` wait. -/
  receiver_goes_on : (s.frame refB).pc.waiting = none
  /-- `task_a` never loses the CPU in a critical section. -/
  sender_runs : (s.frame refA).pc.holds = true → s.current = refA
  /-- A task does not sleep in a critical section. -/
  holder_ready : ∀ t, (s.frame t).pc.holds = true → (s.kernel.tasking.tasks t).state = .ready
  /-- The task that runs is ready, or has just marked itself for its `int $32`. -/
  running : s.task.state = .ready ∨ (s.frame s.current).pc.trapping = true
  /-- Each mutex belongs to the task in its section. -/
  queue_owner : ∀ t, (s.frame t).pc.queuePc.inside = true → s.msgQueue.lock = heldBy t
  vga_owner : ∀ t, (s.frame t).pc.showing = true → s.vgaMutex = heldBy t
  /-- Each mutex is locked exactly when a task is in its section. -/
  queue_locked : s.msgQueue.lock.locked ≠ 0 ↔ ∃ t, (s.frame t).pc.queuePc.inside = true
  vga_locked : s.vgaMutex.locked ≠ 0 ↔ ∃ t, (s.frame t).pc.showing = true

theorem WaitsOutside.holds_of_trapping (h : WaitsOutside frame) {t : TaskRef}
    (htrap : (frame t).pc.trapping = true) : (frame t).pc.holds = false := by
  cases hpc : (frame t).pc with
  | queueWait pc p =>
    rw [LoopPc.holds, LoopPc.queuePc, h t pc p hpc]
    rfl
  | lockWait p => rfl
  | sleep p => rfl
  | _ =>
    rw [hpc] at htrap
    cases htrap

theorem RunInv.sender_runs (h : RunInv s) (hin : (s.frame refA).pc.holds = true) : s.current = refA := by
  by_contra hne
  rw [LoopPc.holds_of_resting (h.tasks.sender_away hne)] at hin
  cases hin

theorem RunInv.holder_ready (h : RunInv s) {t : TaskRef} (hin : (s.frame t).pc.holds = true) :
    (s.kernel.tasking.tasks t).state = .ready := by
  have hcore := h.tasks.core
  by_cases hc : Created s.kernel.tasking t
  · rcases hcore.created_cases hc with rfl | rfl | rfl
    · exact hcore.main
    · have hrun := h.tasks.running
      rw [show s.kernel.tasking.current = refA from h.sender_runs hin] at hrun
      rcases hrun with hr | htrap
      · exact hr
      · rw [h.waits.holds_of_trapping htrap] at hin
        cases hin
    · rcases hcore.receiver_rests with hr | hr
      · exact hr
      · rw [LoopPc.holds_of_resting hr] at hin
        cases hin
  · rw [hcore.idle t (.inl hc), entryFrame_holds] at hin
    cases hin

/-- A mutex that belongs to the task for which `p` holds is locked exactly when there is one. -/
theorem heldMutex_locked_iff {o : Option TaskRef} {p : TaskRef → Prop} (h : ∀ t, p t ↔ o = some t) :
    (heldMutex o).locked ≠ 0 ↔ ∃ t, p t := by
  cases o with
  | none =>
    refine iff_of_false (fun hne => hne rfl) ?_
    rintro ⟨t, ht⟩
    cases (h t).mp ht
  | some t =>
    have hlocked : (heldMutex (some t)).locked = 1 := rfl
    exact iff_of_true (by rw [hlocked]; decide) ⟨t, (h t).mpr rfl⟩

theorem RunInv.safe (h : RunInv s) : SectionsSafe s := by
  obtain ⟨o, items, hqueue⟩ := h.messages.locks.queue
  obtain ⟨o', hmx, hvga⟩ := h.messages.locks.vga
  refine ⟨h.tasks.core.receiver_goes_on, h.sender_runs, fun t hin => h.holder_ready hin, h.tasks.running,
    fun t hin => ?_, fun t hin => ?_, ?_, ?_⟩
  · obtain rfl := (hqueue.inside t).mp hin
    exact hqueue.lock
  · obtain rfl := (hvga t).mp hin
    exact hmx
  · rw [hqueue.lock]
    exact heldMutex_locked_iff hqueue.inside
  · rw [hmx]
    exact heldMutex_locked_iff hvga

/-- **Whenever the timer interrupts: `task_b` never waits for a mutex, `task_a` is never without the CPU in a critical
section, no task sleeps in one, and each mutex belongs to the task inside and is locked only if there is one.** -/
theorem sections_safe {env : TaskEnv} (hf : 9 ≤ env.fuel) (k : Kernel) (q : Queue) (screen : Terminal)
    (ops : List MessageOp) :
    ∃ s, run (messageStep env) (bootMessages k q screen) ops = .ok s ∧ SectionsSafe s := by
  obtain ⟨s, hs, h⟩ := run_total (bootMessages_tasks k q screen) (fun _ op h => messageStep_run hf h op) ops
  exact ⟨s, hs, h.safe⟩

/-- `task_b` is in `queue_pop`, behind its first `mutex_lock`. -/
theorem firstOps_inside : Returns (run (messageStep plainEnv)
    (bootMessages idleKernel idleQueue (bootTerminal fun _ => 0)) (firstOps 20))
    (fun s => (s.frame refB).pc.queuePc.inside = true) := by decide +kernel

theorem sections_safe_first : ∃ s, run (messageStep plainEnv)
    (bootMessages idleKernel idleQueue (bootTerminal fun _ => 0)) (firstOps 20) = .ok s ∧
      (s.frame refB).pc.queuePc.inside = true ∧ SectionsSafe s := by
  obtain ⟨s, hs, h⟩ := @sections_safe plainEnv (by decide) idleKernel idleQueue (bootTerminal fun _ => 0) (firstOps 20)
  obtain ⟨t, ht, hinside⟩ := firstOps_inside
  obtain rfl := Except.ok.inj (hs.symm.trans ht)
  exact ⟨s, hs, hinside, h⟩

end Runs

end RtosKernel
