import RtosKernel.Proofs.MessageTaskProofs

/-!
# The two tasks: the stall

If `task_a` is woken while `task_b` is in a critical section, it spins: `mutex_lock` sleeps for one tick, and the
`schedule` of that very `int $32` counts the tick and wakes the task again, so `task_b` never gets the CPU to leave the
section (`Stalled`). No step leaves this state, and a timer interrupt at the wrong moment is the only way into it.
-/

namespace RtosKernel

open Lib

/-- `task_a` runs, and `task_b` is in a critical section. -/
structure Stalled (s : Messages) : Prop where
  running : s.current = refA
  holder : (s.frame refB).pc.holds = true

instance (s : Messages) : Decidable (Stalled s) :=
  decidable_of_iff (s.current = refA ∧ (s.frame refB).pc.holds = true) ⟨fun h => ⟨h.1, h.2⟩, fun h => ⟨h.1, h.2⟩⟩

/-- Where `task_a` can be while `task_b` is at `b`, in a critical section. -/
def LoopPc.Behind (b : LoopPc) : LoopPc → Prop
  | .queue _ | .queueWait _ _ | .sleep .trap => True
  | .lock | .lockWait _ => b.showing = true
  | _ => False

/-- `task_a` is in front of the mutex and does not lose the CPU. -/
structure Blocked (s : Messages) : Prop where
  stalled : Stalled s
  place : LoopPc.Behind (s.frame refB).pc (s.frame refA).pc
  awake : (s.frame refA).pc = .sleep .trap → (s.kernel.tasking.tasks refA).state = .ready

/-- The cells of the rows of the tasks are the same. -/
def SameRows (s s' : Terminal) : Prop := ∀ i : ℤ, 2 * vgaWidth ≤ i → i < 4 * vgaWidth → s'.vga i = s.vga i

/-- What no step of a stalled system changes. -/
structure Kept (s s' : Messages) : Prop where
  receiver : s'.frame refB = s.frame refB
  counter : (s'.frame refA).num = (s.frame refA).num
  shown : SameRows s.screen s'.screen
  received : poppedValues s'.events = poppedValues s.events

/-- A timer interrupt that wakes `task_a` while `task_b` is in a critical section. -/
def WakesInSection (s : Messages) : MessageOp → Prop
  | .irq0 _ => (s.frame refB).pc.holds = true ∧ WakesReady (s.kernel.tasking.tasks refA)
  | .exec _ _ => False

section Stall

variable {env : TaskEnv} {body : LoopBody} {esp : UInt32} {s s' : Messages} {op : MessageOp}

theorem SameRows.of_eq {s s' : Terminal} (h : s' = s) : SameRows s s' := fun _ _ _ => by rw [h]

theorem Kept.trans {s'' : Messages} (h : Kept s s') (h' : Kept s' s'') : Kept s s'' :=
  ⟨h'.receiver.trans h.receiver, h'.counter.trans h.counter,
    fun i hlo hhi => (h'.shown i hlo hhi).trans (h.shown i hlo hhi), h'.received.trans h.received⟩

/-- `task_a` is ready, or its `task_sleep(1)` ends with the next tick. -/
theorem Blocked.wakes (h : Blocked s) (hrun : RunInv s) : WakesReady (s.kernel.tasking.tasks refA) := by
  have hrunning := hrun.tasks.running
  rw [show s.kernel.tasking.current = refA from h.stalled.running] at hrunning
  rcases hrunning with hready | htrap
  · exact .inl hready
  · rcases hrun.tasks.core.sender_rests with hw | hrest
    · exact hw
    · refine .inl (h.awake ?_)
      cases hpc : (s.frame refA).pc with
      | sleep p =>
        rw [hpc] at htrap
        cases p with
        | trap => rfl
        | _ => cases htrap
      | queue pc =>
        rw [hpc] at htrap
        cases htrap
      | _ =>
        rw [hpc] at hrest
        cases hrest

/-- If `task_a` is inside the queue, the mutex of `task_b` is that of the display. -/
theorem Blocked.showing (h : Blocked s) (hrun : RunInv s) (hin : (s.frame refA).pc.queuePc.inside = true) :
    (s.frame refB).pc.showing = true := by
  obtain ⟨o, items, hqueue⟩ := hrun.messages.locks.queue
  have hA : o = some refA := (hqueue.inside refA).mp hin
  have hB : (s.frame refB).pc.queuePc.inside = false := by
    by_contra hne
    have hB : o = some refB := (hqueue.inside refB).mp ((Bool.not_eq_false _).mp hne)
    rw [hA] at hB
    cases hB
  have hholds := h.stalled.holder
  rwa [LoopPc.holds, hB, Bool.false_or] at hholds

theorem Blocked.vga_busy (h : Blocked s) (hrun : RunInv s) (hpc : (s.frame refA).pc = .lock) :
    mutexTryLock s.current s.vgaMutex = none := by
  obtain ⟨o, hmx, hvga⟩ := hrun.messages.locks.vga
  have hplace := h.place
  rw [hpc] at hplace
  obtain rfl : o = some refB := (hvga refB).mp hplace
  rw [hmx, mutexTryLock_held]

/-- `task_a` goes on at another place in front of the mutex. -/
theorem Blocked.move (h : Blocked s) (hcur : s'.current = refA) (hB : s'.frame refB = s.frame refB)
    (hplace : LoopPc.Behind (s.frame refB).pc (s'.frame refA).pc)
    (hawake : (s'.frame refA).pc = .sleep .trap → (s'.kernel.tasking.tasks refA).state = .ready) : Blocked s' :=
  ⟨⟨hcur, by rw [hB]; exact h.stalled.holder⟩, by rw [hB]; exact hplace, hawake⟩

/-- A statement of `queue_push`. -/
theorem Blocked.queueCall (h : Blocked s) (hrun : RunInv s) {pc : QueuePc} (hpc : (s.frame refA).pc = .queue pc) :
    Blocked (queueCallExec taskA s pc) ∧ Kept s (queueCallExec taskA s pc) := by
  have hcur := h.stalled.running
  have hne : refB ≠ s.current := by rw [hcur]; decide
  have hB : (queueCallExec taskA s pc).frame refB = s.frame refB := Function.update_of_ne hne ..
  have hpush : pc.pushes = some (s.frame refA).num := hrun.messages.sender.call pc (by rw [hpc]; rfl)
  cases he : (queueExec s.current s.msgQueue pc).2.2 with
  | some e =>
    have hA : (queueCallExec taskA s pc).frame refA = { s.frame refA with pc := .lock } := by
      simp only [queueCallExec, Messages.setFrame, hcur, Function.update_self] at he ⊢
      rw [he]
      rfl
    have hin : pc.inside = true := by
      cases pc with
      | idle => cases hpush
      | pushLock v =>
        rw [queueExec] at he
        split at he <;> cases he
      | popLock => cases hpush
      | _ => rfl
    have hpop : poppedValues [e] = [] := by
      rcases queueExec_pushes (t := s.current) (q := s.msgQueue) hpush with ⟨hn, -⟩ | hs | hs
      · rw [he] at hn
        cases hn
      · obtain rfl := Option.some.inj (he.symm.trans hs)
        rfl
      · obtain rfl := Option.some.inj (he.symm.trans hs)
        rfl
    refine ⟨h.move hcur hB ?_ fun hsleep => ?_, hB, by rw [hA], .of_eq rfl, ?_⟩
    · rw [hA]
      exact h.showing hrun (by rw [hpc]; exact hin)
    · rw [hA] at hsleep
      cases hsleep
    · rw [show (queueCallExec taskA s pc).events = s.events ++ [e] by simp only [queueCallExec, he, Option.toList_some],
        poppedValues_append, hpop, List.append_nil]
  | none =>
    have hA : (queueCallExec taskA s pc).frame refA = { s.frame refA with
        pc := if (queueExec s.current s.msgQueue pc).2.1 = pc then .queueWait pc .ticks
          else .queue (queueExec s.current s.msgQueue pc).2.1 } := by
      simp only [queueCallExec, Messages.setFrame, hcur, Function.update_self] at he ⊢
      rw [he]
    refine ⟨h.move hcur hB ?_ fun hsleep => ?_, hB, by rw [hA], .of_eq rfl, ?_⟩
    · rw [hA]
      dsimp only
      split_ifs <;> trivial
    · rw [hA] at hsleep
      dsimp only at hsleep
      split_ifs at hsleep
    · simp only [queueCallExec, he, Option.toList_none, List.append_nil]

/-- The places in a `task_sleep` of `task_a` in front of the mutex: it is the `task_sleep(1)` of `mutex_lock`, or the
last statement of the round. -/
theorem IsSleep.behind {num n : UInt32} {here : SleepPc → LoopPc} {after b : LoopPc}
    (h : IsSleep taskA num here after n) :
    (LoopPc.Behind b (here .ticks) → LoopPc.Behind b (here .state) ∧ here .state ≠ .sleep .trap) ∧
      (LoopPc.Behind b (here .state) → LoopPc.Behind b (here .trap) ∧ here .trap ≠ .sleep .trap) ∧
      (LoopPc.Behind b (here .trap) → LoopPc.Behind b after ∧ after ≠ .sleep .trap) := by
  cases h with
  | queue pc => exact ⟨fun _ => ⟨trivial, by simp⟩, fun _ => ⟨trivial, by simp⟩, fun _ => ⟨trivial, by simp⟩⟩
  | lock => exact ⟨fun hb => ⟨hb, by simp⟩, fun hb => ⟨hb, by simp⟩, fun hb => ⟨hb, by simp⟩⟩
  | round => exact ⟨fun hb => hb.elim, fun hb => hb.elim, fun _ => ⟨trivial, by simp [taskA]⟩⟩

/-- `task_a` goes on at `pc'`. -/
theorem Blocked.goto (h : Blocked s) {pc' : LoopPc} (hcur : s'.current = refA)
    (hframe : s'.frame = Function.update s.frame s.current { s.frame s.current with pc := pc' })
    (hplace : LoopPc.Behind (s.frame refB).pc pc' ∧ pc' ≠ .sleep .trap) (hscreen : s'.screen = s.screen)
    (hevents : s'.events = s.events) : Blocked s' ∧ Kept s s' := by
  have hne : refB ≠ s.current := by rw [h.stalled.running]; decide
  have hB : s'.frame refB = s.frame refB := by rw [hframe, Function.update_of_ne hne]
  have hA : s'.frame refA = { s.frame refA with pc := pc' } := by
    rw [hframe, h.stalled.running, Function.update_self]
  refine ⟨h.move hcur hB ?_ fun hsleep => ?_, hB, by rw [hA], .of_eq hscreen, by rw [hevents]⟩
  · rw [hA]
    exact hplace.1
  · rw [hA] at hsleep
    exact absurd hsleep hplace.2

/-- **A statement of `task_a` leaves it in front of the mutex.** -/
theorem Blocked.loop (h : Blocked s) (hrun : RunInv s) (hf : 9 ≤ env.fuel) (he : LoopEffect env taskA esp s s') :
    Blocked s' ∧ Kept s s' := by
  have hcur := h.stalled.running
  have hplace := h.place
  cases he with
  | queue pc hpc => exact h.queueCall hrun (hcur ▸ hpc)
  | ticks hs hpc =>
    rw [hcur] at hpc
    rw [hpc] at hplace
    exact h.goto hcur rfl (hs.behind.1 hplace) rfl rfl
  | state hs hpc =>
    rw [hcur] at hpc
    rw [hpc] at hplace
    exact h.goto hcur rfl (hs.behind.2.1 hplace) rfl rfl
  | trap hs hpc hk =>
    -- `schedule` wakes the task in the same pass
    obtain ⟨-, hiff⟩ := hrun.tasks.trap hf (.inl ⟨hcur, rfl⟩) hs hpc hk
    obtain ⟨l, hl⟩ := hrun.messages.ring
    have hcreated : Created s.kernel.tasking refA := by
      rw [← hcur]
      exact (hl.mem _).mp hl.current
    rw [hcur] at hpc
    rw [hpc] at hplace
    exact h.goto (hiff.mpr ⟨hcreated, h.wakes hrun⟩) rfl (hs.behind.2.2 hplace) rfl rfl
  | take hpc hmx =>
    rw [h.vga_busy hrun (hcur ▸ hpc)] at hmx
    cases hmx
  | busy hpc hmx =>
    rw [hcur] at hpc
    rw [hpc] at hplace
    exact h.goto hcur rfl ⟨hplace, by simp⟩ rfl rfl
  | _ hpc =>
    rw [hcur] at hpc
    rw [hpc] at hplace
    cases hplace

/-- **No step ends the stall.** -/
theorem Blocked.step (h : Blocked s) (hrun : RunInv s) (hf : 9 ≤ env.fuel) (he : StepEffect env s op s') :
    Blocked s' ∧ Kept s s' := by
  have hcur := h.stalled.running
  cases he with
  | irq esp hk =>
    obtain ⟨-, hiff, hready⟩ := messageIrq_tasks hrun.tasks.core hf hk
    obtain ⟨l, hl⟩ := hrun.messages.ring
    have hcreated : Created s.kernel.tasking refA := by
      rw [← hcur]
      exact (hl.mem _).mp hl.current
    have hcur' := hiff.mpr ⟨hcreated, h.wakes hrun⟩
    rw [hcur'] at hready
    exact ⟨h.move hcur' rfl h.place fun _ => hready, rfl, rfl, .of_eq rfl, rfl⟩
  | loop esp buf hloop he =>
    rcases hloop with ⟨-, rfl⟩ | ⟨hB, -⟩
    · exact h.loop hrun hf he
    · rw [hcur] at hB
      cases hB
  | main esp buf hmain =>
    rw [hcur] at hmain
    cases hmain

/-- `task_a` away from the CPU is at the start of a round, or at the end of one. -/
theorem RunInv.behind (h : RunInv s) (hne : s.current ≠ refA) (b : LoopPc) : b.Behind (s.frame refA).pc := by
  have hrest := h.tasks.sender_away hne
  cases hpc : (s.frame refA).pc with
  | queue pc => trivial
  | sleep p =>
    rw [hpc] at hrest
    cases p with
    | trap => trivial
    | _ => cases hrest
  | _ =>
    rw [hpc] at hrest
    cases hrest

/-- `task_b` leaves the CPU by its own statement only outside the critical sections. -/
theorem IsSleep.receiver_holds {num n : UInt32} {here : SleepPc → LoopPc} {after : LoopPc} {p : SleepPc}
    (h : IsSleep taskB num here after n) (hwait : (here p).waiting = none) : after.holds = false := by
  cases h with
  | queue pc => cases hwait
  | lock => cases hwait
  | round => rfl

/-- The running task takes the CPU for itself only by its `int $32`. -/
theorem LoopEffect.current_eq (he : LoopEffect env body esp s s') :
    s'.current = s.current ∨ ∃ here after n, IsSleep body (s.frame s.current).num here after n ∧
      (s.frame s.current).pc = here .trap ∧ s'.frame s.current = { s.frame s.current with pc := after } := by
  cases he with
  | trap hs hpc hk => exact .inr ⟨_, _, _, hs, hpc, by simp⟩
  | _ => exact .inl rfl

/-- A task in a critical section was created, and `task_a` before `task_b`. -/
theorem RunInv.sender_created (h : RunInv s) (hB : (s.frame refB).pc.holds = true) :
    Created s.kernel.tasking refA := by
  have hcreated : Created s.kernel.tasking refB := by
    by_contra hc
    rw [h.tasks.core.idle refB (.inl hc), entryFrame_holds] at hB
    cases hB
  exact Nat.lt_of_succ_lt hcreated

theorem RunInv.loop_free (h : RunInv s) (hns : ¬ Stalled s) (hloop : RunsLoop s.current body)
    (he : LoopEffect env body esp s s') : ¬ Stalled s' := by
  rintro ⟨hcur', hB⟩
  rcases hloop with ⟨hcur, -⟩ | ⟨hcur, rfl⟩
  · rw [he.others (by rw [hcur]; decide)] at hB
    exact hns ⟨hcur, hB⟩
  · rcases he.current_eq with hsame | ⟨here, after, n, hs, hpc, hafter⟩
    · rw [hsame, hcur] at hcur'
      cases hcur'
    · have hwait := h.tasks.core.receiver_goes_on
      rw [hcur] at hpc hafter
      rw [hpc] at hwait
      rw [hafter, hs.receiver_holds hwait] at hB
      cases hB

theorem RunInv.main_current (h : RunInv s) : (mainExec env s).current = s.current := by
  rcases mainExec_cases env s with he | ⟨entry, priority, he⟩
  · rw [he]
  · obtain ⟨l, hl⟩ := h.messages.ring
    rw [he]
    exact createTask_current hl entry priority

/-- **The way into the stall.** -/
theorem RunInv.enters (h : RunInv s) (hf : 9 ≤ env.fuel) (hns : ¬ Stalled s) (he : StepEffect env s op s') :
    (Stalled s' ↔ WakesInSection s op) ∧ (Stalled s' → Blocked s') := by
  cases he with
  | irq esp hk =>
    obtain ⟨-, hiff, hready⟩ := messageIrq_tasks h.tasks.core hf hk
    refine ⟨⟨fun hst => ⟨hst.holder, (hiff.mp hst.running).2⟩,
      fun hw => ⟨hiff.mpr ⟨h.sender_created hw.1, hw.2⟩, hw.1⟩⟩, fun hst => ⟨hst, ?_, fun _ => ?_⟩⟩
    · exact h.behind (fun hcur => hns ⟨hcur, hst.holder⟩) _
    · rw [hiff.mpr (hiff.mp hst.running)] at hready
      exact hready
  | loop esp buf hloop he =>
    have hfree := h.loop_free hns hloop he
    exact ⟨iff_of_false hfree id, fun hst => absurd hst hfree⟩
  | main esp buf hmain =>
    have hfree : ¬ Stalled (mainExec env s) := by
      intro hst
      have hcur := hst.running
      rw [h.main_current, hmain] at hcur
      cases hcur
    exact ⟨iff_of_false hfree id, fun hst => absurd hst hfree⟩

end Stall

/-! ## Every run -/

section Runs

variable {env : TaskEnv} {s : Messages}

/-- A stalled state is one in which `task_a` does not get past the mutex. -/
structure StallInv (s : Messages) : Prop where
  run : RunInv s
  blocked : Stalled s → Blocked s

theorem messageStep_stall (hf : 9 ≤ env.fuel) (h : StallInv s) (op : MessageOp) :
    ∃ s', messageStep env s op = .ok s' ∧ StallInv s' ∧ (Stalled s → Stalled s' ∧ Kept s s') ∧
      (¬ Stalled s → (Stalled s' ↔ WakesInSection s op)) := by
  obtain ⟨s', hs, he⟩ := messageStep_effect hf h.run op
  refine ⟨s', hs, ⟨he.inv hf h.run, fun hst => ?_⟩, fun hst => ?_, fun hns => (h.run.enters hf hns he).1⟩
  · by_cases hns : Stalled s
    · exact ((h.blocked hns).step h.run hf he).1
    · exact (h.run.enters hf hns he).2 hst
  · obtain ⟨hblocked, hkept⟩ := (h.blocked hst).step h.run hf he
    exact ⟨hblocked.stalled, hkept⟩

theorem bootMessages_stall (k : Kernel) (q : Queue) (screen : Terminal) : StallInv (bootMessages k q screen) := by
  refine ⟨bootMessages_tasks k q screen, fun hst => ?_⟩
  have hcur : TaskRef.mainTask = refA := hst.running
  cases hcur

/-- `task_a` makes a round, `task_b` locks the queue, and then the 50 ticks of `task_a` are over. -/
def stallOps : List MessageOp :=
  List.replicate 2 (.exec 0 fun _ => 0) ++ .irq0 0 :: List.replicate 16 (.exec 0 fun _ => 0) ++
    List.replicate 49 (.irq0 0)

theorem stallOps_stalls : Returns (run (messageStep plainEnv)
    (bootMessages idleKernel idleQueue (bootTerminal fun _ => 0)) stallOps) Stalled := by decide +kernel

/-- **A stall lasts for ever: `task_b` executes nothing more, `task_a` completes no round, and their rows of the header
stay as they are, whatever interrupts of the timer come.** -/
theorem stalled_for_ever (hf : 9 ≤ env.fuel) {k : Kernel} {q : Queue} {screen : Terminal} {ops : List MessageOp}
    (hs : run (messageStep env) (bootMessages k q screen) ops = .ok s) (hst : Stalled s) (more : List MessageOp) :
    ∃ s', run (messageStep env) s more = .ok s' ∧ Stalled s' ∧ Kept s s' := by
  obtain ⟨t, ht, hinv⟩ := run_total (I := StallInv) (bootMessages_stall k q screen)
    (fun s op h => (messageStep_stall hf h op).imp fun _ h => ⟨h.1, h.2.1⟩) ops
  obtain rfl := Except.ok.inj (ht.symm.trans hs)
  have hrun : ∃ s', run (messageStep env) t more = .ok s' ∧ _ :=
    run_total (I := fun s' => StallInv s' ∧ Stalled s' ∧ Kept t s')
    ⟨hinv, hst, rfl, rfl, .of_eq rfl, rfl⟩ (fun s' op h => ?_) more
  · exact hrun.imp fun _ h => ⟨h.1, h.2.2⟩
  · obtain ⟨h, hst', hkept⟩ := h
    obtain ⟨s'', hs'', h', hstall, -⟩ := messageStep_stall hf h op
    obtain ⟨hst'', hkept'⟩ := hstall hst'
    exact ⟨s'', hs'', h', hst'', hkept.trans hkept'⟩

theorem stalled_for_ever_first : ∃ s, run (messageStep plainEnv)
      (bootMessages idleKernel idleQueue (bootTerminal fun _ => 0)) stallOps = .ok s ∧
    ∃ s', run (messageStep plainEnv) s [.irq0 0, .exec 0 fun _ => 0, .irq0 0] = .ok s' ∧ Stalled s' ∧ Kept s s' := by
  obtain ⟨s, hs, hst⟩ := stallOps_stalls
  exact ⟨s, hs, stalled_for_ever (by decide) hs hst _⟩

/-- **The two tasks stall exactly if a timer interrupt wakes `task_a` while `task_b` is in a critical section.** -/
theorem stalls_iff (hf : 9 ≤ env.fuel) (k : Kernel) (q : Queue) (screen : Terminal) (ops : List MessageOp) :
    Along (messageStep env) (bootMessages k q screen) (fun s => ¬ Stalled s) ops ↔
      AllSteps (messageStep env) (bootMessages k q screen) (fun s op => ¬ WakesInSection s op) ops := by
  refine along_iff_of_spec (I := fun s => StallInv s ∧ ¬ Stalled s) ⟨bootMessages_stall k q screen, fun hst => ?_⟩
    (fun _ h => h.2) (fun s op h => ?_) ops
  · have hcur : TaskRef.mainTask = refA := hst.running
    cases hcur
  · obtain ⟨s', hs, h', -, hiff⟩ := messageStep_stall hf h.1 op
    exact ⟨s', hs, fun hC => ⟨h', fun hst => hC ((hiff h.2).mp hst)⟩, fun hP hw => hP ((hiff h.2).mpr hw)⟩

theorem stalls_iff_first : ¬ AllSteps (messageStep plainEnv)
    (bootMessages idleKernel idleQueue (bootTerminal fun _ => 0)) (fun s op => ¬ WakesInSection s op) stallOps :=
  fun h => not_along_of_returns stallOps_stalls (fun _ hst hns => hns hst)
    ((stalls_iff (by decide) idleKernel idleQueue (bootTerminal fun _ => 0) stallOps).mpr h)

end Runs

end RtosKernel
