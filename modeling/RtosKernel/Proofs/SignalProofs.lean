import RtosKernel.Signal
import RtosKernel.Proofs.MutexProofs

/-!
# Proofs: signals

With `signal_lock` free every call of the signal API is a pure change of one context (`sigEffect`), and
`signal_dispatch` is followed signal by signal. `SIGKILL` keeps its default handler whatever is called,
so a dispatch that delivers it ends the process; but nothing keeps it from being blocked.
-/

namespace RtosKernel

open Lib

/-! ## The calls -/

/-- A change of the context of the current process, if its pid is below 16. -/
def Signals.onCurrent (s : Signals) (f : SignalCtx → SignalCtx) : Signals :=
  match s.procs.current with
  | none => s
  | some p =>
    if (s.procs.pool p).pid < 16 then
      { s with contexts :=
        Function.update s.contexts (s.procs.pool p).pid.toNat (f (s.contexts (s.procs.pool p).pid.toNat)) }
    else s

/-- A signal sent to a process that is there. -/
def Signals.send (s : Signals) (pid : UInt32) (signum : ℤ) : Signals :=
  if (0 ≤ signum ∧ signum < 32) ∧ pid < 16 ∧ processGet pid s.procs ≠ none then
    { s with contexts := Function.update s.contexts pid.toNat { s.contexts pid.toNat with
      pending := (s.contexts pid.toNat).pending ||| bitMask signum.toNat } }
  else s

/-- What a call does when `signal_lock` is free. -/
def sigEffect (s : Signals) : SigCall → Signals
  | .signal signum handler =>
    if (0 ≤ signum ∧ signum < 32) ∧ ¬ (signum = 9 ∨ signum = 19) then
      s.onCurrent fun ctx => { ctx with handlers := Function.update ctx.handlers signum.toNat handler }
    else s
  | .kill pid signum => s.send pid signum
  | .raise signum =>
    match s.procs.current with
    | none => s
    | some p => s.send (s.procs.pool p).pid signum
  | .sigblock mask => s.onCurrent fun ctx => { ctx with blocked := ctx.blocked ||| mask }
  | .sigunblock mask => s.onCurrent fun ctx => { ctx with blocked := ctx.blocked &&& ~~~ mask }

section Calls

variable {s : Signals} {c : Caller}

theorem changeCtx_eq (hl : s.lock = mutexInit) (hf : 0 < c.fuel) (pid : UInt32) (f : SignalCtx → SignalCtx) :
    changeCtx c pid f s =
      .ok { s with contexts := Function.update s.contexts pid.toNat (f (s.contexts pid.toNat)) } := by
  rw [changeCtx, mutexLock_init c hl hf, ok_bind, mutexUnlock_heldBy, ← hl]
  rfl

theorem signal_eq (hl : s.lock = mutexInit) (hf : 0 < c.fuel) (signum : ℤ) (handler : UInt32) :
    ∃ old, signal c signum handler s = .ok (old, sigEffect s (.signal signum handler)) := by
  have hrange : (signum < 0 ∨ signum ≥ (numSignals : ℤ)) ↔ ¬ (0 ≤ signum ∧ signum < 32) := by
    simp only [numSignals]
    omega
  have hhandler : (if handler ≠ 0 then handler else sigDfl) = handler := by
    by_cases h0 : handler = 0
    · rw [if_neg (not_not.mpr h0), h0]
      rfl
    · rw [if_pos h0]
  unfold signal sigEffect Signals.onCurrent
  simp only [hrange, processCurrent]
  by_cases hr : 0 ≤ signum ∧ signum < 32
  · by_cases hk : signum = 9 ∨ signum = 19
    · exact ⟨sigDfl, by simp [hk, sigKill, sigStop]⟩
    · cases hc : s.procs.current with
      | none => exact ⟨sigDfl, by simp [hr, hk, sigKill, sigStop]⟩
      | some p =>
        by_cases hp : (s.procs.pool p).pid < 16
        · refine ⟨(s.contexts (s.procs.pool p).pid.toNat).handlers signum.toNat, ?_⟩
          simp [hr, hk, hp, sigKill, sigStop, hhandler, changeCtx_eq hl hf]
        · exact ⟨sigDfl, by simp [hr, hk, hp, sigKill, sigStop]⟩
  · exact ⟨sigDfl, by simp [hr]⟩

theorem kill_eq (hl : s.lock = mutexInit) (hf : 0 < c.fuel) (pid : UInt32) (signum : ℤ) :
    ∃ e, kill c pid signum s = .ok (e, s.send pid signum) := by
  have hrange : (signum < 0 ∨ signum ≥ (numSignals : ℤ)) ↔ ¬ (0 ≤ signum ∧ signum < 32) := by
    simp only [numSignals]
    omega
  unfold kill Signals.send
  simp only [hrange]
  by_cases hr : 0 ≤ signum ∧ signum < 32
  · by_cases hp : pid < 16
    · cases hg : processGet pid s.procs with
      | none => exact ⟨.noent, by simp [hr, hp]⟩
      | some t => exact ⟨.ok, by simp [hr, hp, changeCtx_eq hl hf]⟩
    · exact ⟨.inval, by simp [hr, hp]⟩
  · exact ⟨.inval, by simp [hr]⟩

theorem changeBlocked_eq (hl : s.lock = mutexInit) (hf : 0 < c.fuel) (f : UInt32 → UInt32) :
    ∃ e, changeBlocked c f s = .ok (e, s.onCurrent fun ctx => { ctx with blocked := f ctx.blocked }) := by
  unfold changeBlocked Signals.onCurrent
  simp only [processCurrent]
  cases hc : s.procs.current with
  | none => exact ⟨.inval, rfl⟩
  | some p =>
    by_cases hp : (s.procs.pool p).pid < 16
    · exact ⟨.ok, by simp [hp, changeCtx_eq hl hf]⟩
    · exact ⟨.inval, by simp [hp]⟩

/-- With `signal_lock` free a call returns, and does what `sigEffect` says. -/
theorem sigCall_eq (hl : s.lock = mutexInit) (hf : 0 < c.fuel) (call : SigCall) :
    sigCall c s call = .ok (sigEffect s call) := by
  cases call with
  | signal signum handler =>
    obtain ⟨old, h⟩ := signal_eq hl hf signum handler
    rw [sigCall, h]
    rfl
  | kill pid signum =>
    obtain ⟨e, h⟩ := kill_eq hl hf pid signum
    rw [sigCall, h]
    rfl
  | raise signum =>
    rw [sigCall, raise, sigEffect, processCurrent]
    cases hc : s.procs.current with
    | none => rfl
    | some p =>
      obtain ⟨e, h⟩ := kill_eq hl hf (s.procs.pool p).pid signum
      simp only [h]
      rfl
  | sigblock mask =>
    obtain ⟨e, h⟩ := changeBlocked_eq hl hf (· ||| mask)
    rw [sigCall, sigblock, h]
    rfl
  | sigunblock mask =>
    obtain ⟨e, h⟩ := changeBlocked_eq hl hf (· &&& ~~~ mask)
    rw [sigCall, sigunblock, h]
    rfl

/-! What a call leaves as it is. -/

theorem onCurrent_rel {P : SignalCtx → SignalCtx → Prop} (hrefl : ∀ ctx, P ctx ctx)
    (f : SignalCtx → SignalCtx) (hf : ∀ ctx, P ctx (f ctx)) (i : ℕ) :
    P (s.contexts i) ((s.onCurrent f).contexts i) := by
  unfold Signals.onCurrent
  cases hc : s.procs.current with
  | none => exact hrefl _
  | some p =>
    simp only
    split
    · by_cases hi : i = (s.procs.pool p).pid.toNat
      · subst hi
        simp only [Function.update_self]
        exact hf _
      · simp only [Function.update_of_ne hi]
        exact hrefl _
    · exact hrefl _

theorem onCurrent_keeps (f : SignalCtx → SignalCtx) :
    (s.onCurrent f).procs = s.procs ∧ (s.onCurrent f).lock = s.lock := by
  unfold Signals.onCurrent
  cases s.procs.current with
  | none => exact ⟨rfl, rfl⟩
  | some p =>
    simp only
    split <;> exact ⟨rfl, rfl⟩

theorem send_rel {P : SignalCtx → SignalCtx → Prop} (hrefl : ∀ ctx, P ctx ctx) {signum : ℤ}
    (hf : 0 ≤ signum → signum < 32 →
      ∀ ctx : SignalCtx, P ctx { ctx with pending := ctx.pending ||| bitMask signum.toNat })
    (pid : UInt32) (i : ℕ) : P (s.contexts i) ((s.send pid signum).contexts i) := by
  unfold Signals.send
  split
  · rename_i h
    by_cases hi : i = pid.toNat
    · subst hi
      simp only [Function.update_self]
      exact hf h.1.1 h.1.2 _
    · simp only [Function.update_of_ne hi]
      exact hrefl _
  · exact hrefl _

theorem send_keeps (pid : UInt32) (signum : ℤ) :
    (s.send pid signum).procs = s.procs ∧ (s.send pid signum).lock = s.lock := by
  unfold Signals.send
  split <;> exact ⟨rfl, rfl⟩

/-- No call changes the process table or leaves the lock taken. -/
theorem sigEffect_keeps (s : Signals) (call : SigCall) :
    (sigEffect s call).procs = s.procs ∧ (sigEffect s call).lock = s.lock := by
  cases call with
  | signal signum handler =>
    rw [sigEffect]
    split
    · exact onCurrent_keeps _
    · exact ⟨rfl, rfl⟩
  | kill pid signum => exact send_keeps pid signum
  | raise signum =>
    rw [sigEffect]
    cases s.procs.current with
    | none => exact ⟨rfl, rfl⟩
    | some p => exact send_keeps _ signum
  | sigblock mask => exact onCurrent_keeps _
  | sigunblock mask => exact onCurrent_keeps _

/-- The call sends the signal. -/
def Sends (signum : ℤ) : SigCall → Prop
  | .kill _ n => n = signum
  | .raise n => n = signum
  | _ => False

/-- What holds between a context and itself, and between a context and what a call may make of it, holds
between the contexts before and after a call. -/
theorem sigEffect_rel {P : SignalCtx → SignalCtx → Prop} {call : SigCall} (hrefl : ∀ ctx, P ctx ctx)
    (hhandlers : ∀ ctx n h, n ≠ 9 → n ≠ 19 → P ctx { ctx with handlers := Function.update ctx.handlers n h })
    (hpending : ∀ signum ctx, Sends signum call → 0 ≤ signum → signum < 32 →
      P ctx { ctx with pending := ctx.pending ||| bitMask signum.toNat })
    (hblocked : ∀ ctx w, P ctx { ctx with blocked := w }) (s : Signals) (i : ℕ) :
    P (s.contexts i) ((sigEffect s call).contexts i) := by
  cases call with
  | signal signum handler =>
    rw [sigEffect]
    split
    · rename_i h
      exact onCurrent_rel hrefl _ (fun ctx => hhandlers ctx _ _ (by omega) (by omega)) i
    · exact hrefl _
  | kill pid signum => exact send_rel hrefl (fun h0 h32 ctx => hpending signum ctx rfl h0 h32) pid i
  | raise signum =>
    rw [sigEffect]
    cases s.procs.current with
    | none => exact hrefl _
    | some p => exact send_rel hrefl (fun h0 h32 ctx => hpending signum ctx rfl h0 h32) _ i
  | sigblock mask => exact onCurrent_rel hrefl _ (fun ctx => hblocked ctx _) i
  | sigunblock mask => exact onCurrent_rel hrefl _ (fun ctx => hblocked ctx _) i

/-- No call changes the handlers of `SIGKILL` and `SIGSTOP`. -/
theorem sigEffect_defaults (s : Signals) (call : SigCall) (i : ℕ) :
    ((sigEffect s call).contexts i).handlers 9 = (s.contexts i).handlers 9 ∧
      ((sigEffect s call).contexts i).handlers 19 = (s.contexts i).handlers 19 :=
  sigEffect_rel (P := fun ctx ctx' => ctx'.handlers 9 = ctx.handlers 9 ∧ ctx'.handlers 19 = ctx.handlers 19)
    (fun _ => ⟨rfl, rfl⟩)
    (fun _ _ _ h9 h19 => ⟨Function.update_of_ne (Ne.symm h9) .., Function.update_of_ne (Ne.symm h19) ..⟩)
    (fun _ _ _ _ _ => ⟨rfl, rfl⟩) (fun _ _ => ⟨rfl, rfl⟩) s i

/-- Another signal sent to a process does not change whether `SIGKILL` is pending. -/
theorem hasBit_or_other {signum : ℤ} (h0 : 0 ≤ signum) (h32 : signum < 32) (hne : signum ≠ 9) (w : UInt32) :
    HasBit (w ||| bitMask signum.toNat) 9 ↔ HasBit w 9 := by
  have hk : signum.toNat ≠ 9 := by omega
  simp only [hasBit_or (by decide : 9 < 32),
    hasBit_bitMask (by omega : signum.toNat < 32) (by decide : 9 < 32), hk, or_false]

/-- A call that does not send `SIGKILL` does not change whether it is pending. -/
theorem sigEffect_pending {call : SigCall} (hcall : ¬ Sends 9 call) (s : Signals) (i : ℕ) :
    HasBit ((sigEffect s call).contexts i).pending 9 ↔ HasBit (s.contexts i).pending 9 := by
  refine sigEffect_rel (P := fun ctx ctx' => HasBit ctx'.pending 9 ↔ HasBit ctx.pending 9)
    (fun _ => Iff.rfl) (fun _ _ _ _ _ => Iff.rfl) ?_ (fun _ _ => Iff.rfl) s i
  intro signum ctx hs h0 h32
  refine hasBit_or_other h0 h32 ?_ _
  rintro rfl
  exact hcall hs

/-- No call takes a pending signal back. -/
theorem sigEffect_keeps_pending (s : Signals) (call : SigCall) {i : ℕ} (h : HasBit (s.contexts i).pending 9) :
    HasBit ((sigEffect s call).contexts i).pending 9 := by
  refine sigEffect_rel (P := fun ctx ctx' => HasBit ctx.pending 9 → HasBit ctx'.pending 9)
    (fun _ => id) (fun _ _ _ _ _ => id) ?_ (fun _ _ => id) s i h
  intro signum ctx _ _ _ hp
  exact (hasBit_or (by decide)).mpr (.inl hp)

end Calls

/-! ## Ending a process -/

section Exit

variable {p : Procs} {pid : UInt32} {who : Slot}

theorem processGet_spec (h : processGet pid p = some who) : p.state who ≠ .unused ∧ (p.pool who).pid = pid := by
  simpa using List.find?_some h

/-- `process_exit` looks for the process that `process_get` finds. -/
theorem processExit_find (pid : UInt32) (p : Procs) :
    (List.finRange maxProcesses).find? (fun i => (p.pool i).pid = pid ∧ p.state i ≠ .unused) = processGet pid p := by
  rw [processGet]
  congr 1
  funext i
  rw [Bool.eq_iff_iff, decide_eq_true_iff, decide_eq_true_iff, and_comm]

theorem processExit_eq (h : processGet pid p = some who) :
    processExit pid p = p.setProc who { p.pool who with state := .zombie } := by
  rw [processExit, processExit_find, h]

theorem processExit_none (h : processGet pid p = none) : processExit pid p = p := by
  rw [processExit, processExit_find, h]

/-- Ending a process changes neither its pid nor the process that has a pid. -/
theorem processGet_zombie (h : processGet pid p = some who) (pid' : UInt32) :
    processGet pid' (p.setProc who { p.pool who with state := .zombie }) = processGet pid' p := by
  have hu := (processGet_spec h).1
  unfold processGet
  congr 1
  funext i
  refine decide_eq_decide.mpr ?_
  by_cases hi : i = who
  · subst hi
    simp [Procs.setProc, Procs.state, show (p.pool i).state ≠ .unused from hu]
  · simp [Procs.setProc, Procs.state, Function.update_of_ne hi]

end Exit

/-! ## Dispatch -/

/-- No handler, whatever its address, sends `SIGKILL` when it is called for a signal above `SIGKILL`, that is, after
it. -/
def NoKillers (body : Handlers) : Prop := ∀ handler sig, 9 < sig → ∀ call ∈ body handler sig, ¬ Sends 9 call

/-- Between two passes of the loop of `signal_dispatch`, for the process with this pid in slot `who`. -/
structure Dispatching (t : TaskRef) (who : Slot) (pid : UInt32) (s : Signals) : Prop where
  lock : s.lock = heldBy t
  current : s.procs.current = some who
  found : processGet pid s.procs = some who
  default : (s.contexts pid.toNat).handlers 9 = sigDfl

section Dispatch

variable {body : Handlers} {c : Caller} {who : Slot} {pid mask : UInt32} {s : Signals}

/-- The calls of a handler: `SIGKILL` stays pending, and is not pending afterwards if it was not and no call
sends it. -/
theorem handler_spec (calls : List SigCall) (hf : 0 < c.fuel) (hl : s.lock = mutexInit) :
    ∃ s', calls.foldlM (sigCall c) s = .ok s' ∧ s'.procs = s.procs ∧ s'.lock = mutexInit ∧
      ∀ i, (s'.contexts i).handlers 9 = (s.contexts i).handlers 9 ∧
        (HasBit (s.contexts i).pending 9 → HasBit (s'.contexts i).pending 9) ∧
        ((∀ call ∈ calls, ¬ Sends 9 call) → HasBit (s'.contexts i).pending 9 →
          HasBit (s.contexts i).pending 9) := by
  induction calls generalizing s with
  | nil => exact ⟨s, rfl, rfl, hl, fun _ => ⟨rfl, id, fun _ => id⟩⟩
  | cons call calls ih =>
    obtain ⟨hprocs, hlock⟩ := sigEffect_keeps s call
    obtain ⟨s', hs', hp', hl', hctx⟩ := @ih (sigEffect s call) (hlock.trans hl)
    refine ⟨s', ?_, hp'.trans hprocs, hl', fun i => ?_⟩
    · rw [List.foldlM_cons, sigCall_eq hl hf, ok_bind, hs']
    · obtain ⟨hh, hstays, hnew⟩ := hctx i
      refine ⟨hh.trans (sigEffect_defaults s call i).1, fun h => hstays (sigEffect_keeps_pending s call h), ?_⟩
      intro hcalls h
      exact (sigEffect_pending (hcalls call (by simp)) s i).mp (hnew (fun d hd => hcalls d (by simp [hd])) h)

/-- The default handler of a signal, for the current process. -/
theorem defaultSignalHandler_spec (hcur : s.procs.current = some who)
    (hfound : processGet pid s.procs = some who) (sig : ℕ) :
    ∃ p, defaultSignalHandler sig s = .ok { s with procs := p } ∧ p.current = some who ∧
      processGet pid p = some who ∧ (s.procs.state who = .zombie ∨ sig = 9 → p.state who = .zombie) := by
  have hpid := (processGet_spec hfound).2
  by_cases hsig : sig = sigTerm ∨ sig = sigKill
  · refine ⟨s.procs.setProc who { s.procs.pool who with state := .zombie }, ?_, hcur, ?_, fun _ => ?_⟩
    · rw [defaultSignalHandler, if_pos hsig, processCurrent, hcur]
      simp only [hpid, processExit_eq hfound, pure_eq_ok]
    · rw [processGet_zombie hfound, hfound]
    · simp [Procs.state, Procs.setProc]
  · refine ⟨s.procs, ?_, hcur, hfound, ?_⟩
    · rw [defaultSignalHandler, if_neg hsig]
      rfl
    · rintro (hz | rfl)
      · exact hz
      · exact absurd (.inr rfl) hsig

/-- The handler of a signal, with the lock free: `SIGKILL` stays pending, above `SIGKILL` it also stays not
pending, and its default handler ends the process and changes no context. -/
theorem callHandler_spec (hbody : NoKillers body) (hf : 0 < c.fuel) (hl : s.lock = mutexInit)
    (hcur : s.procs.current = some who) (hfound : processGet pid s.procs = some who) {handler : UInt32}
    {sig : ℕ} (h9 : sig = 9 → handler = sigDfl) :
    ∃ s', callHandler body c handler sig s = .ok s' ∧ s'.lock = mutexInit ∧ s'.procs.current = some who ∧
      processGet pid s'.procs = some who ∧
      (∀ i, (s'.contexts i).handlers 9 = (s.contexts i).handlers 9 ∧
        (HasBit (s.contexts i).pending 9 → HasBit (s'.contexts i).pending 9) ∧
        (9 ≤ sig → HasBit (s'.contexts i).pending 9 → HasBit (s.contexts i).pending 9)) ∧
      (s.procs.state who = .zombie ∨ sig = 9 → s'.procs.state who = .zombie) := by
  unfold callHandler
  by_cases hown : handler ≠ 0 ∧ handler ≠ sigIgn
  · rw [if_pos hown]
    have hne : sig ≠ 9 := fun e => hown.1 (h9 e)
    obtain ⟨s', hs', hp, hl', hctx⟩ := handler_spec (body handler sig) hf hl
    refine ⟨s', hs', hl', ?_, ?_, fun i => ?_, ?_⟩
    · rw [hp, hcur]
    · rw [hp, hfound]
    · obtain ⟨hh, hstays, hnew⟩ := hctx i
      exact ⟨hh, hstays, fun hle => hnew (hbody handler sig (by omega))⟩
    · rintro (hz | e)
      · rw [hp, hz]
      · exact absurd e hne
  · rw [if_neg hown]
    by_cases hdfl : handler = sigDfl
    · rw [if_pos hdfl]
      obtain ⟨p, hp, hcur', hfound', hz⟩ := defaultSignalHandler_spec hcur hfound sig
      exact ⟨_, hp, hl, hcur', hfound', fun _ => ⟨rfl, id, fun _ => id⟩, hz⟩
    · rw [if_neg hdfl]
      refine ⟨s, rfl, hl, hcur, hfound, fun _ => ⟨rfl, id, fun _ => id⟩, ?_⟩
      rintro (hz | rfl)
      · exact hz
      · exact absurd (h9 rfl) hdfl

/-- What the pass for `sig` means for `SIGKILL`. -/
structure Delivers (who : Slot) (pid mask : UInt32) (sig : ℕ) (s s' : Signals) : Prop where
  stays : ¬ (sig = 9 ∧ HasBit mask 9) → HasBit (s.contexts pid.toNat).pending 9 →
    HasBit (s'.contexts pid.toNat).pending 9
  gone : 9 < sig → ¬ HasBit (s.contexts pid.toNat).pending 9 → ¬ HasBit (s'.contexts pid.toNat).pending 9
  ended : s.procs.state who = .zombie → s'.procs.state who = .zombie
  kills : sig = 9 → HasBit mask 9 →
    ¬ HasBit (s'.contexts pid.toNat).pending 9 ∧ s'.procs.state who = .zombie

/-- One pass of the loop. -/
theorem deliver_spec (hbody : NoKillers body) (hf : 0 < c.fuel) (h : Dispatching c.task who pid s) {sig : ℕ}
    (hsig : sig < 32) :
    ∃ s', deliver body c pid mask s sig = .ok s' ∧ Dispatching c.task who pid s' ∧
      Delivers who pid mask sig s s' := by
  by_cases hm : HasBit mask sig
  · set s1 : Signals := { s with
      contexts := Function.update s.contexts pid.toNat { s.contexts pid.toNat with
        pending := (s.contexts pid.toNat).pending &&& ~~~ bitMask sig }
      lock := mutexInit } with hs1
    obtain ⟨s2, hs2, hl2, hcur2, hfound2, hctx2, hz2⟩ :=
      @callHandler_spec body c who pid s1 hbody hf rfl h.current h.found
        ((s.contexts pid.toNat).handlers sig) sig (by rintro rfl; exact h.default)
    have hctx1 : s1.contexts pid.toNat = { s.contexts pid.toNat with
        pending := (s.contexts pid.toNat).pending &&& ~~~ bitMask sig } := by
      rw [hs1]
      exact Function.update_self ..
    -- the bit of `sig` and no other is cleared before the handler runs
    have hclear : HasBit (s1.contexts pid.toNat).pending 9 ↔
        HasBit (s.contexts pid.toNat).pending 9 ∧ sig ≠ 9 := by
      rw [hctx1, hasBit_and_not (by decide), hasBit_bitMask hsig (by decide)]
    obtain ⟨hh, hstays, hnew⟩ := hctx2 pid.toNat
    refine ⟨{ s2 with lock := heldBy c.task }, ?_, ⟨rfl, hcur2, hfound2, ?_⟩, ⟨?_, ?_, ?_, ?_⟩⟩
    · rw [deliver, if_pos hm]
      simp only [h.lock, mutexUnlock_heldBy]
      rw [hs2, ok_bind, mutexLock_init c hl2 hf, ok_bind]
      rfl
    · rw [hh, hctx1]
      exact h.default
    · intro hne hp
      exact hstays (hclear.mpr ⟨hp, fun e => hne ⟨e, e ▸ hm⟩⟩)
    · intro hlt hp hp'
      exact hp (hclear.mp (hnew hlt.le hp')).1
    · exact fun hz => hz2 (.inl hz)
    · rintro rfl -
      exact ⟨fun hp' => (hclear.mp (hnew le_rfl hp')).2 rfl, hz2 (.inr rfl)⟩
  · refine ⟨s, ?_, h, ⟨fun _ hp => hp, fun _ hp => hp, id, fun e h9 => absurd (e ▸ h9) hm⟩⟩
    rw [deliver, if_neg hm]
    rfl

/-- The loop over the signals below `n`, with `SIGKILL` pending at the start: it is pending until its
pass, if it is in the mask, and from there on it is not and the process has ended. -/
theorem deliver_loop (hbody : NoKillers body) (hf : 0 < c.fuel) (h : Dispatching c.task who pid s)
    (hpend : HasBit (s.contexts pid.toNat).pending 9) {n : ℕ} (hn : n ≤ 32) :
    ∃ s', (List.range n).foldlM (deliver body c pid mask) s = .ok s' ∧ Dispatching c.task who pid s' ∧
      (9 < n ∧ HasBit mask 9 →
        ¬ HasBit (s'.contexts pid.toNat).pending 9 ∧ s'.procs.state who = .zombie) ∧
      (¬ (9 < n ∧ HasBit mask 9) → HasBit (s'.contexts pid.toNat).pending 9) := by
  refine foldlM_range (P := fun n t => Dispatching c.task who pid t ∧
      (9 < n ∧ HasBit mask 9 → ¬ HasBit (t.contexts pid.toNat).pending 9 ∧ t.procs.state who = .zombie) ∧
      (¬ (9 < n ∧ HasBit mask 9) → HasBit (t.contexts pid.toNat).pending 9))
    ⟨h, fun h9 => absurd h9.1 (by omega), fun _ => hpend⟩ ?_
  rintro k hk s1 ⟨h1, hafter, hbefore⟩
  obtain ⟨s2, hs2, h2, hd⟩ := @deliver_spec _ _ _ _ mask _ hbody hf h1 k (by omega)
  refine ⟨s2, hs2, h2, ?_, ?_⟩
  · rintro ⟨hlt, hm⟩
    rcases Nat.lt_succ_iff_lt_or_eq.mp hlt with h9 | h9
    · obtain ⟨hgone, hz⟩ := hafter ⟨h9, hm⟩
      exact ⟨hd.gone h9 hgone, hd.ended hz⟩
    · exact hd.kills h9.symm hm
  · intro hno
    refine hd.stays (fun h9 => hno ⟨by omega, h9.2⟩) (hbefore fun h9 => hno ⟨by omega, h9.2⟩)

/-- **`signal_dispatch` with `SIGKILL` pending: it is pending afterwards exactly if it is blocked, and if it
is not, the process has ended.** -/
theorem signalDispatch_spec (hbody : NoKillers body) (hf : 0 < c.fuel) (hl : s.lock = mutexInit)
    (hcur : s.procs.current = some who) (hpid : (s.procs.pool who).pid = pid) (h16 : pid < 16)
    (hfound : processGet pid s.procs = some who) (hdfl : (s.contexts pid.toNat).handlers 9 = sigDfl)
    (hpend : HasBit (s.contexts pid.toNat).pending 9) :
    ∃ s', signalDispatch body c s = .ok s' ∧
      (HasBit (s'.contexts pid.toNat).pending 9 ↔ HasBit (s.contexts pid.toNat).blocked 9) ∧
      (¬ HasBit (s.contexts pid.toNat).blocked 9 → s'.procs.state who = .zombie) := by
  have hstart : Dispatching c.task who pid { s with lock := heldBy c.task } := ⟨rfl, hcur, hfound, hdfl⟩
  obtain ⟨s', hs', -, hafter, hbefore⟩ := @deliver_loop body c who pid
    ((s.contexts pid.toNat).pending &&& ~~~ (s.contexts pid.toNat).blocked) _ hbody hf hstart hpend 32 le_rfl
  have hmask : HasBit ((s.contexts pid.toNat).pending &&& ~~~ (s.contexts pid.toNat).blocked) 9 ↔
      ¬ HasBit (s.contexts pid.toNat).blocked 9 := by
    rw [hasBit_and_not (by decide)]
    exact and_iff_right hpend
  rw [hmask] at hafter hbefore
  refine ⟨{ s' with lock := mutexUnlock c.task s'.lock }, ?_, ⟨?_, ?_⟩, ?_⟩
  · rw [signalDispatch, processCurrent, hcur]
    simp only [hpid, UInt32.not_le.mpr h16, if_false, numSignals]
    rw [mutexLock_init c hl hf, ok_bind, hs', ok_bind]
    rfl
  · intro hp
    by_contra hb
    exact (hafter ⟨by decide, hb⟩).1 hp
  · exact fun hb => hbefore fun h => h.2 hb
  · exact fun hb => (hafter ⟨by decide, hb⟩).2

end Dispatch

end RtosKernel
