import RtosKernel.Proofs.SignalProofs

/-!
# Proofs: `SIGKILL` cannot be caught, ignored or blocked

The handlers of `SIGKILL` and `SIGSTOP` never change. `sigblock` does not spare `SIGKILL`, so it can be
pending and blocked at once, and then a dispatch does not deliver it. A run avoids that exactly if no
process blocks `SIGKILL` while it is pending for it, and none is sent it while it has it blocked.
-/

namespace RtosKernel

open Lib

/-- The two handlers are the default ones; and if `SIGKILL` is pending for the current process, then after
`signal_dispatch` it is not and the process has ended. The process in slot `who` is the one that has its
pid. -/
structure KillSafe (body : Handlers) (fuel : ℕ) (s : Signals) : Prop where
  default : ∀ pid : UInt32, pid < 16 →
    (s.contexts pid.toNat).handlers sigKill = sigDfl ∧ (s.contexts pid.toNat).handlers sigStop = sigDfl
  killed : ∀ (who : Slot) (pid : UInt32) (task : Caller), (s.procs.pool who).pid = pid → pid < 16 →
    processGet pid s.procs = some who → HasBit (s.contexts pid.toNat).pending sigKill →
    ∃ s', signalDispatch body (task.withFuel fuel) (s.as who) = .ok s' ∧
      ¬ HasBit (s'.contexts pid.toNat).pending sigKill ∧ s'.procs.state who = .zombie

/-- A process is sent `SIGKILL` only while it does not have it blocked. -/
def NotBlocked (s : Signals) (pid : UInt32) (signum : ℤ) : Prop :=
  signum = 9 → pid < 16 → processGet pid s.procs ≠ none → ¬ HasBit (s.contexts pid.toNat).blocked sigKill

/-- No process is sent `SIGKILL` while it has it blocked, and none blocks it while it is pending. -/
def KeepsKill (s : Signals) (op : SigOp) : Prop :=
  match op.call with
  | .kill pid signum => NotBlocked s pid signum
  | .raise signum => NotBlocked s (s.procs.pool op.who).pid signum
  | .sigblock mask => HasBit mask sigKill → (s.procs.pool op.who).pid < 16 →
      ¬ HasBit (s.contexts (s.procs.pool op.who).pid.toNat).pending sigKill
  | _ => True

/-- Between two calls: the lock is free, the handlers are the default ones, and a process for which
`SIGKILL` is pending is there. -/
structure SigInv (s : Signals) : Prop where
  lock : s.lock = mutexInit
  default : ∀ pid : UInt32, pid < 16 →
    (s.contexts pid.toNat).handlers 9 = sigDfl ∧ (s.contexts pid.toNat).handlers 19 = sigDfl
  alive : ∀ pid : UInt32, pid < 16 → HasBit (s.contexts pid.toNat).pending 9 → processGet pid s.procs ≠ none

/-- `SIGKILL` is pending and blocked. -/
def Stuck (ctx : SignalCtx) : Prop := HasBit ctx.pending 9 ∧ HasBit ctx.blocked 9

section Steps

variable {s : Signals} {who : Slot} {pid : UInt32}

theorem signalInit_inv (s : Signals) : SigInv (signalInit s) ∧
    ∀ pid : UInt32, pid < 16 → ¬ Stuck ((signalInit s).contexts pid.toNat) := by
  have hctx : ∀ pid : UInt32, pid < 16 → (signalInit s).contexts pid.toNat = signalInitCtx := by
    intro pid hpid
    exact if_pos (UInt32.lt_iff_toNat_lt.mp hpid)
  refine ⟨⟨rfl, fun pid hpid => ?_, fun pid hpid hp => ?_⟩, fun pid hpid hstuck => ?_⟩
  · rw [hctx pid hpid]
    exact ⟨rfl, rfl⟩
  · rw [hctx pid hpid] at hp
    exact absurd hp (not_hasBit_zero 9)
  · rw [hctx pid hpid] at hstuck
    exact not_hasBit_zero 9 hstuck.1

/-- A signal call returns and keeps the invariant. -/
theorem SigInv.call (h : SigInv s) (call : SigCall) : SigInv (sigEffect (s.as who) call) := by
  obtain ⟨hprocs, hlock⟩ := sigEffect_keeps (s.as who) call
  refine ⟨hlock.trans h.lock, fun pid hpid => ?_, fun pid hpid hp => ?_⟩
  · obtain ⟨h9, h19⟩ := sigEffect_defaults (s.as who) call pid.toNat
    rw [h9, h19]
    exact h.default pid hpid
  · rw [hprocs]
    show processGet pid s.procs ≠ none
    -- the signal was pending before, or is sent by this call to a process that is there
    have hsend : ∀ q : UInt32, HasBit (((s.as who).send q 9).contexts pid.toNat).pending 9 →
        processGet pid s.procs ≠ none := by
      intro q hq
      unfold Signals.send at hq
      split at hq
      · rename_i hv
        by_cases hpq : pid = q
        · rw [hpq]
          exact hv.2.2
        · have hne : pid.toNat ≠ q.toNat := fun e => hpq (UInt32.toNat_inj.mp e)
          simp only [Function.update_of_ne hne] at hq
          exact h.alive pid hpid hq
      · exact h.alive pid hpid hq
    by_cases hs : Sends 9 call
    · cases call with
      | kill q n =>
        obtain rfl : n = 9 := hs
        exact hsend q hp
      | raise n =>
        obtain rfl : n = 9 := hs
        exact hsend _ hp
      | signal n handler => cases hs
      | sigblock mask => cases hs
      | sigunblock mask => cases hs
    · exact h.alive pid hpid ((sigEffect_pending hs (s.as who) pid.toNat).mp hp)

/-- One context is changed. -/
theorem stuck_update {contexts : ℕ → SignalCtx} {q : UInt32} (hq : q < 16)
    (hn : ∀ pid : UInt32, pid < 16 → ¬ Stuck (contexts pid.toNat)) (ctx : SignalCtx) :
    (∀ pid : UInt32, pid < 16 → ¬ Stuck (Function.update contexts q.toNat ctx pid.toNat)) ↔ ¬ Stuck ctx := by
  constructor
  · intro h
    simpa using h q hq
  · intro h pid hpid
    by_cases hpq : pid.toNat = q.toNat
    · rw [hpq, Function.update_self]
      exact h
    · rw [Function.update_of_ne hpq]
      exact hn pid hpid

theorem stuck_onCurrent (hn : ∀ pid : UInt32, pid < 16 → ¬ Stuck (s.contexts pid.toNat))
    (f : SignalCtx → SignalCtx) :
    (∀ pid : UInt32, pid < 16 → ¬ Stuck (((s.as who).onCurrent f).contexts pid.toNat)) ↔
      ((s.procs.pool who).pid < 16 → ¬ Stuck (f (s.contexts (s.procs.pool who).pid.toNat))) := by
  by_cases hq : (s.procs.pool who).pid < 16
  · have hctx : ((s.as who).onCurrent f).contexts = Function.update s.contexts (s.procs.pool who).pid.toNat
        (f (s.contexts (s.procs.pool who).pid.toNat)) := by
      simp [Signals.onCurrent, Signals.as, hq]
    rw [hctx, stuck_update hq hn]
    exact ⟨fun h _ => h, fun h => h hq⟩
  · have hctx : ((s.as who).onCurrent f).contexts = s.contexts := by
      simp [Signals.onCurrent, Signals.as, hq]
    rw [hctx]
    exact iff_of_true hn fun h => absurd h hq

theorem stuck_send (hn : ∀ pid : UInt32, pid < 16 → ¬ Stuck (s.contexts pid.toNat)) (q : UInt32) (signum : ℤ) :
    (∀ pid : UInt32, pid < 16 → ¬ Stuck (((s.as who).send q signum).contexts pid.toNat)) ↔
      NotBlocked s q signum := by
  unfold Signals.send NotBlocked
  by_cases hv : (0 ≤ signum ∧ signum < 32) ∧ q < 16 ∧ processGet q (s.as who).procs ≠ none
  · rw [if_pos hv]
    obtain ⟨⟨h0, h32⟩, hq, hget⟩ := hv
    simp only [Signals.as]
    rw [stuck_update hq hn]
    by_cases h9 : signum = 9
    · subst h9
      have hbit : HasBit ((s.contexts q.toNat).pending ||| bitMask (9 : ℤ).toNat) 9 :=
        (hasBit_or (by decide)).mpr (.inr ((hasBit_bitMask (by decide) (by decide)).mpr rfl))
      constructor
      · intro h _ _ _ hb
        exact h ⟨hbit, hb⟩
      · intro h hst
        exact h rfl hq hget hst.2
    · refine iff_of_true (fun hst => hn q hq ⟨?_, hst.2⟩) fun e => absurd e h9
      exact (hasBit_or_other h0 h32 h9 _).mp hst.1
  · rw [if_neg hv]
    refine iff_of_true hn fun e hq hget => absurd ?_ hv
    subst e
    exact ⟨⟨by decide, by decide⟩, hq, hget⟩

/-- A call leaves `SIGKILL` pending and blocked for no process exactly under the condition. -/
theorem stuck_call_iff (hn : ∀ pid : UInt32, pid < 16 → ¬ Stuck (s.contexts pid.toNat)) (op : SigOp) :
    (∀ pid : UInt32, pid < 16 → ¬ Stuck ((sigEffect (s.as op.who) op.call).contexts pid.toNat)) ↔
      KeepsKill s op := by
  obtain ⟨who, task, call⟩ := op
  cases call with
  | signal signum handler =>
    refine iff_of_true ?_ trivial
    simp only [sigEffect]
    split
    · exact (stuck_onCurrent hn _).mpr fun hq => hn _ hq
    · exact hn
  | kill q signum => exact stuck_send hn q signum
  | raise signum => exact stuck_send hn _ signum
  | sigblock mask =>
    simp only [sigEffect, KeepsKill, sigKill]
    rw [stuck_onCurrent hn]
    constructor
    · intro h hmask hq hp
      exact h hq ⟨hp, (hasBit_or (by decide)).mpr (.inr hmask)⟩
    · rintro h hq ⟨hp, hb⟩
      rcases (hasBit_or (by decide)).mp hb with hb | hmask
      · exact hn _ hq ⟨hp, hb⟩
      · exact h hmask hq hp
  | sigunblock mask =>
    refine iff_of_true ?_ trivial
    simp only [sigEffect]
    rw [stuck_onCurrent hn]
    rintro hq ⟨hp, hb⟩
    exact hn _ hq ⟨hp, ((hasBit_and_not (by decide)).mp hb).1⟩

/-- The property holds in a state exactly if `SIGKILL` is pending and blocked for no process. -/
theorem SigInv.killSafe_iff {body : Handlers} {fuel : ℕ} (hbody : NoKillers body) (hf : 0 < fuel)
    (h : SigInv s) :
    KillSafe body fuel s ↔ ∀ pid : UInt32, pid < 16 → ¬ Stuck (s.contexts pid.toNat) := by
  have hdispatch : ∀ (who : Slot) (pid : UInt32) (task : Caller), (s.procs.pool who).pid = pid → pid < 16 →
      processGet pid s.procs = some who → HasBit (s.contexts pid.toNat).pending 9 →
      ∃ s', signalDispatch body (task.withFuel fuel) (s.as who) = .ok s' ∧
        (HasBit (s'.contexts pid.toNat).pending 9 ↔ HasBit (s.contexts pid.toNat).blocked 9) ∧
        (¬ HasBit (s.contexts pid.toNat).blocked 9 → s'.procs.state who = .zombie) := by
    intro who pid task hpid h16 hfound hpend
    exact @signalDispatch_spec body (task.withFuel fuel) who pid (s.as who) hbody hf h.lock rfl hpid h16 hfound
      (h.default pid h16).1 hpend
  constructor
  · rintro hsafe pid h16 ⟨hpend, hblk⟩
    obtain ⟨who, hfound⟩ := Option.ne_none_iff_exists'.mp (h.alive pid h16 hpend)
    have hpid := (processGet_spec hfound).2
    obtain ⟨s', hs', hp', -⟩ := hdispatch who pid (soloCaller .mainTask) hpid h16 hfound hpend
    obtain ⟨s'', hs'', hp'', -⟩ := hsafe.killed who pid (soloCaller .mainTask) hpid h16 hfound hpend
    rw [hs'] at hs''
    obtain rfl := Except.ok.inj hs''
    exact hp'' (hp'.mpr hblk)
  · intro hn
    refine ⟨h.default, fun who pid task hpid h16 hfound hpend => ?_⟩
    obtain ⟨s', hs', hp', hz⟩ := hdispatch who pid task hpid h16 hfound hpend
    have hblk : ¬ HasBit (s.contexts pid.toNat).blocked 9 := fun hb => hn pid h16 ⟨hpend, hb⟩
    exact ⟨s', hs', fun hp => hblk (hp'.mp hp), hz hblk⟩

end Steps

/-- **If no handler, whatever its address, sends `SIGKILL` when it is called for a later signal: in every state of a
run of signal calls by any processes, `SIGKILL` and `SIGSTOP` have their default handlers and a dispatch
with `SIGKILL` pending ends the process, exactly if in the run no process blocks `SIGKILL` while it is
pending for it and none is sent it while it has it blocked.** -/
theorem sigkill_unblockable_iff {fuel : ℕ} (hf : 0 < fuel) {body : Handlers} (hbody : NoKillers body)
    (s : Signals) (ops : List SigOp) :
    Along (sigStep fuel) (signalInit s) (KillSafe body fuel) ops ↔
      AllSteps (sigStep fuel) (signalInit s) KeepsKill ops := by
  have hstep : ∀ (s : Signals) (op : SigOp), SigInv s →
      sigStep fuel s op = .ok (sigEffect (s.as op.who) op.call) := fun s op h =>
    @sigCall_eq (s.as op.who) (op.task.withFuel fuel) h.lock hf op.call
  refine along_iff_of_spec
    (I := fun s => SigInv s ∧ ∀ pid : UInt32, pid < 16 → ¬ Stuck (s.contexts pid.toNat))
    (signalInit_inv s) ?_ ?_ ops
  · rintro s ⟨h, hn⟩
    exact (h.killSafe_iff hbody hf).mpr hn
  · rintro s op ⟨h, hn⟩
    refine ⟨_, hstep s op h, fun hC => ⟨h.call op.call, (stuck_call_iff hn op).mpr hC⟩, ?_⟩
    intro hP
    exact (stuck_call_iff hn op).mp (((h.call op.call).killSafe_iff hbody hf).mp hP)

theorem sigkill_unblockable_unblock_kill :
    0 < 1 ∧ NoKillers (fun _ _ => []) ∧
      Along (sigStep 1) (signalInit (bootSignals (processInit (bootProcs 0)))) (KillSafe (fun _ _ => []) 1)
        [⟨0, soloCaller .mainTask, .sigblock 0x200⟩, ⟨0, soloCaller .mainTask, .sigunblock 0x200⟩,
          ⟨0, soloCaller .mainTask, .kill 0 9⟩] := by
  have hbody : NoKillers fun _ _ => [] := fun _ _ _ _ h => absurd h (by simp)
  refine ⟨one_pos, hbody, (sigkill_unblockable_iff one_pos hbody _ _).mpr ?_⟩
  refine allSteps_cons.mpr ⟨fun _ _ => by decide +kernel, fun s hs => allSteps_cons.mpr ⟨trivial, fun s' hs' =>
    allSteps_cons.mpr ⟨fun _ _ _ => ?_, fun _ _ => allSteps_nil⟩⟩⟩
  obtain rfl := Except.ok.inj hs
  obtain rfl := Except.ok.inj hs'
  decide +kernel

/-- A process blocks `SIGKILL` and is sent it: the signal stays pending. -/
theorem sigkill_blocked :
    ¬ Along (sigStep 1) (signalInit (bootSignals (processInit (bootProcs 0)))) (KillSafe (fun _ _ => []) 1)
        [⟨0, soloCaller .mainTask, .sigblock 0x200⟩, ⟨0, soloCaller .mainTask, .kill 0 9⟩] := by
  intro h
  obtain ⟨s, hs, hP⟩ := h _ List.prefix_rfl
  obtain rfl := Except.ok.inj hs
  obtain ⟨s', hs', hnot, -⟩ := hP.killed 0 0 (soloCaller .mainTask) (by decide +kernel) (by decide)
    (by decide +kernel) (by decide +kernel)
  obtain rfl := Except.ok.inj hs'
  exact hnot (by decide +kernel)

end RtosKernel
