import RtosKernel.Proofs.SignalProofs

/-!
# Proofs: what a dispatch delivers

The events of a dispatch determine the context of the process: it is replayed from them (`replayEvent`). The
loop takes the signals of the mask that was computed at its start, whatever the handlers do to the context, and
a bit of the pending set is on at the end if it was set after it was cleared for the last time
(`hasBit_replay`).
-/

namespace RtosKernel

open Lib

/-! ## Replay -/

/-- A signal is made pending, if it is one and if the process is in the table. -/
def pendSignal (found : Bool) (signum : ℤ) (ctx : SignalCtx) : SignalCtx :=
  if found = true ∧ 0 ≤ signum ∧ signum < 32 then { ctx with pending := ctx.pending ||| bitMask signum.toNat }
  else ctx

/-- What a call does to the context of the current process; `found` says if the process is in the table. -/
def replayCall (found : Bool) (pid : UInt32) (ctx : SignalCtx) : SigCall → SignalCtx
  | .signal signum handler => { ctx with handlers := registerEvent ctx.handlers (.call (.signal signum handler)) }
  | .kill target signum => if target = pid then pendSignal found signum ctx else ctx
  | .raise signum => pendSignal found signum ctx
  | .sigblock mask => { ctx with blocked := ctx.blocked ||| mask }
  | .sigunblock mask => { ctx with blocked := ctx.blocked &&& ~~~ mask }

/-- The context of the current process after an event. -/
def replayEvent (found : Bool) (pid : UInt32) (ctx : SignalCtx) : SigEvent → SignalCtx
  | .taken sig _ => { ctx with pending := ctx.pending &&& ~~~ bitMask sig }
  | .ran _ _ => ctx
  | .call call => replayCall found pid ctx call

/-- What a dispatch for the process in slot `who` finds in the process table. -/
structure DispatchFor (who : Slot) (pid : UInt32) (found : Bool) (s : Signals) : Prop where
  current : s.procs.current = some who
  pid_eq : (s.procs.pool who).pid = pid
  found_eq : (processGet pid s.procs).isSome = found

section Replay

variable {who : Slot} {pid : UInt32} {found : Bool} {s : Signals} {c : Caller}

theorem onCurrent_ctx (h : DispatchFor who pid found s) (h16 : pid < 16) (f : SignalCtx → SignalCtx) :
    (s.onCurrent f).contexts pid.toNat = f (s.contexts pid.toNat) := by
  unfold Signals.onCurrent
  rw [h.current]
  simp only [h.pid_eq, if_pos h16, Function.update_self]

theorem send_ctx (h : DispatchFor who pid found s) (h16 : pid < 16) (target : UInt32) (signum : ℤ) :
    (s.send target signum).contexts pid.toNat =
      if target = pid then pendSignal found signum (s.contexts pid.toNat) else s.contexts pid.toNat := by
  have hfound : processGet pid s.procs ≠ none ↔ found = true := by
    rw [← h.found_eq, Option.isSome_iff_ne_none]
  unfold Signals.send
  by_cases htarget : target = pid
  · subst htarget
    rw [if_pos rfl, pendSignal]
    by_cases hsent : found = true ∧ 0 ≤ signum ∧ signum < 32
    · rw [if_pos ⟨hsent.2, h16, hfound.mpr hsent.1⟩, if_pos hsent]
      exact Function.update_self ..
    · rw [if_neg fun hr => hsent ⟨hfound.mp hr.2.2, hr.1⟩, if_neg hsent]
  · have hne : pid.toNat ≠ target.toNat := fun he => htarget (UInt32.toNat_inj.mp he.symm)
    rw [if_neg htarget]
    split
    · exact Function.update_of_ne hne _ _
    · rfl

/-- A call changes the context of the process as it is replayed. -/
theorem sigEffect_ctx (h : DispatchFor who pid found s) (h16 : pid < 16) (call : SigCall) :
    (sigEffect s call).contexts pid.toNat = replayCall found pid (s.contexts pid.toNat) call := by
  cases call with
  | signal signum handler =>
    by_cases hset : (0 ≤ signum ∧ signum < 32) ∧ ¬ (signum = 9 ∨ signum = 19)
    · have hregister : registerEvent (s.contexts pid.toNat).handlers (.call (.signal signum handler)) =
          Function.update (s.contexts pid.toNat).handlers signum.toNat handler := if_pos hset
      rw [sigEffect, if_pos hset, onCurrent_ctx h h16, replayCall, hregister]
    · have hregister : registerEvent (s.contexts pid.toNat).handlers (.call (.signal signum handler)) =
          (s.contexts pid.toNat).handlers := if_neg hset
      rw [sigEffect, if_neg hset, replayCall, hregister]
  | kill target signum => exact send_ctx h h16 target signum
  | raise signum =>
    rw [sigEffect, h.current]
    simp only [h.pid_eq]
    rw [send_ctx h h16, if_pos rfl, replayCall]
  | sigblock mask => exact onCurrent_ctx h h16 _
  | sigunblock mask => exact onCurrent_ctx h h16 _

/-- The calls of a handler are replayed. -/
theorem sigCalls_replay (calls : List SigCall) (hf : 0 < c.fuel) (hl : s.lock = mutexInit)
    (h : DispatchFor who pid found s) (h16 : pid < 16) :
    ∃ s', calls.foldlM (sigCall c) s = .ok s' ∧ s'.lock = mutexInit ∧ DispatchFor who pid found s' ∧
      s'.contexts pid.toNat = calls.foldl (replayCall found pid) (s.contexts pid.toNat) := by
  induction calls generalizing s with
  | nil => exact ⟨s, rfl, hl, h, rfl⟩
  | cons call calls ih =>
    obtain ⟨hprocs, hlock⟩ := sigEffect_keeps s call
    have h' : DispatchFor who pid found (sigEffect s call) :=
      ⟨hprocs ▸ h.current, hprocs ▸ h.pid_eq, hprocs ▸ h.found_eq⟩
    obtain ⟨s', hs', hl', hfor, hctx⟩ := ih (hlock.trans hl) h'
    refine ⟨s', ?_, hl', hfor, ?_⟩
    · rw [List.foldlM_cons, sigCall_eq hl hf, ok_bind, hs']
    · rw [hctx, sigEffect_ctx h h16, List.foldl_cons]

/-- `process_exit` takes no process out of the table and changes no pid. -/
theorem processExit_for (h : DispatchFor who pid found s) :
    DispatchFor who pid found { s with procs := processExit pid s.procs } := by
  cases hget : processGet pid s.procs with
  | none =>
    rw [processExit_none hget]
    exact h
  | some i =>
    rw [processExit_eq hget]
    refine ⟨h.current, ?_, ?_⟩
    · by_cases hi : who = i
      · rw [← h.pid_eq, hi]
        simp [Procs.setProc]
      · rw [← h.pid_eq]
        simp [Procs.setProc, Function.update_of_ne hi]
    · rw [← h.found_eq]
      simp only [processGet_zombie hget]

/-- The default handler changes no context, and the process stays in the table. -/
theorem defaultHandler_replay (h : DispatchFor who pid found s) (sig : ℕ) :
    ∃ p, defaultSignalHandler sig s = .ok { s with procs := p } ∧ DispatchFor who pid found { s with procs := p } := by
  by_cases hsig : sig = sigTerm ∨ sig = sigKill
  · refine ⟨processExit pid s.procs, ?_, ?_⟩
    · rw [defaultSignalHandler, if_pos hsig, processCurrent, h.current]
      simp only [h.pid_eq]
      rfl
    · exact processExit_for h
  · refine ⟨s.procs, ?_, h⟩
    rw [defaultSignalHandler, if_neg hsig]
    rfl

/-- A handler is replayed from its events. -/
theorem callHandler_replay (body : Handlers) (hf : 0 < c.fuel) (hl : s.lock = mutexInit)
    (h : DispatchFor who pid found s) (h16 : pid < 16) (handler : UInt32) (sig : ℕ) :
    ∃ s', callHandler body c handler sig s = .ok s' ∧ s'.lock = mutexInit ∧ DispatchFor who pid found s' ∧
      s'.contexts pid.toNat =
        (handlerEvents body handler sig).foldl (replayEvent found pid) (s.contexts pid.toNat) := by
  unfold callHandler handlerEvents
  by_cases hown : handler ≠ 0 ∧ handler ≠ sigIgn
  · rw [if_pos hown, if_pos hown, List.foldl_cons, List.foldl_map]
    exact sigCalls_replay (body handler sig) hf hl h h16
  · rw [if_neg hown, if_neg hown]
    by_cases hdfl : handler = sigDfl
    · rw [if_pos hdfl, if_pos hdfl]
      obtain ⟨p, hp, hfor⟩ := defaultHandler_replay h sig
      exact ⟨_, hp, hl, hfor, rfl⟩
    · rw [if_neg hdfl, if_neg hdfl]
      exact ⟨s, rfl, hl, h, rfl⟩

/-- The events of the pass for `sig`. -/
def passEvents (body : Handlers) (pid mask : UInt32) (s : Signals) (sig : ℕ) : List SigEvent :=
  if HasBit mask sig then
    let handler := (s.contexts pid.toNat).handlers sig
    .taken sig handler :: handlerEvents body handler sig
  else []

/-- One pass of the loop is replayed from its events. -/
theorem deliver_replay (body : Handlers) (mask : UInt32) (hf : 0 < c.fuel) (hl : s.lock = heldBy c.task)
    (h : DispatchFor who pid found s) (h16 : pid < 16) (sig : ℕ) :
    ∃ s', deliver body c pid mask s sig = .ok s' ∧ s'.lock = heldBy c.task ∧ DispatchFor who pid found s' ∧
      s'.contexts pid.toNat =
        (passEvents body pid mask s sig).foldl (replayEvent found pid) (s.contexts pid.toNat) := by
  unfold passEvents
  by_cases hm : HasBit mask sig
  · obtain ⟨s₁, hs₁⟩ : ∃ s₁ : Signals, s₁ = { s with
        contexts := Function.update s.contexts pid.toNat { s.contexts pid.toNat with
          pending := (s.contexts pid.toNat).pending &&& ~~~ bitMask sig }
        lock := mutexInit } := ⟨_, rfl⟩
    have h₁ : DispatchFor who pid found s₁ := by
      rw [hs₁]
      exact ⟨h.current, h.pid_eq, h.found_eq⟩
    have hctx₁ : s₁.contexts pid.toNat = { s.contexts pid.toNat with
        pending := (s.contexts pid.toNat).pending &&& ~~~ bitMask sig } := by
      rw [hs₁]
      exact Function.update_self ..
    obtain ⟨s₂, hs₂, hl₂, h₂, hctx₂⟩ := callHandler_replay body hf (by rw [hs₁]) h₁ h16
      ((s.contexts pid.toNat).handlers sig) sig
    refine ⟨{ s₂ with lock := heldBy c.task }, ?_, rfl, ⟨h₂.current, h₂.pid_eq, h₂.found_eq⟩, ?_⟩
    · rw [deliver, if_pos hm]
      simp only [hl, mutexUnlock_heldBy]
      rw [← hs₁, hs₂, ok_bind, mutexLock_init c hl₂ hf, ok_bind]
      rfl
    · rw [if_pos hm, List.foldl_cons, replayEvent, ← hctx₁]
      exact hctx₂
  · refine ⟨s, ?_, hl, h, ?_⟩
    · rw [deliver, if_neg hm]
      rfl
    · rw [if_neg hm, List.foldl_nil]

end Replay

/-! ## The handlers that are taken -/

section Handlers

variable {found : Bool} {pid : UInt32} {ctx : SignalCtx} {es fs : List SigEvent}

/-- Each signal that is taken comes with the handler that the replayed context has for it then. -/
def TakesRegistered (found : Bool) (pid : UInt32) : SignalCtx → List SigEvent → Prop
  | _, [] => True
  | ctx, .taken sig handler :: es =>
    handler = ctx.handlers sig ∧ TakesRegistered found pid (replayEvent found pid ctx (.taken sig handler)) es
  | ctx, e :: es => TakesRegistered found pid (replayEvent found pid ctx e) es

theorem takesRegistered_append :
    TakesRegistered found pid ctx (es ++ fs) ↔
      TakesRegistered found pid ctx es ∧ TakesRegistered found pid (es.foldl (replayEvent found pid) ctx) fs := by
  induction es generalizing ctx with
  | nil => exact ⟨fun h => ⟨trivial, h⟩, fun h => h.2⟩
  | cons e es ih =>
    cases e with
    | taken sig handler =>
      simp only [List.cons_append, TakesRegistered, List.foldl_cons, ih]
      exact and_assoc.symm
    | ran sig handler =>
      simp only [List.cons_append, TakesRegistered, List.foldl_cons, ih]
    | call call =>
      simp only [List.cons_append, TakesRegistered, List.foldl_cons, ih]

theorem takesRegistered_of_none (h : es.filterMap SigEvent.takes = []) : TakesRegistered found pid ctx es := by
  induction es generalizing ctx with
  | nil => trivial
  | cons e es ih =>
    cases e with
    | taken sig handler => exact absurd h (by simp [SigEvent.takes])
    | ran sig handler => exact ih h
    | call call => exact ih h

theorem pendSignal_handlers (found : Bool) (signum : ℤ) (ctx : SignalCtx) :
    (pendSignal found signum ctx).handlers = ctx.handlers := by
  unfold pendSignal
  split_ifs <;> rfl

theorem replay_handlers (es : List SigEvent) (ctx : SignalCtx) :
    (es.foldl (replayEvent found pid) ctx).handlers = es.foldl registerEvent ctx.handlers := by
  induction es generalizing ctx with
  | nil => rfl
  | cons e es ih =>
    have hone : (replayEvent found pid ctx e).handlers = registerEvent ctx.handlers e := by
      cases e with
      | taken sig handler => rfl
      | ran sig handler => rfl
      | call call =>
        cases call with
        | signal signum handler => rfl
        | kill target signum =>
          show (if target = pid then pendSignal found signum ctx else ctx).handlers = ctx.handlers
          split_ifs
          · exact pendSignal_handlers found signum ctx
          · rfl
        | raise signum => exact pendSignal_handlers found signum ctx
        | sigblock mask => rfl
        | sigunblock mask => rfl
    rw [List.foldl_cons, List.foldl_cons, ih, hone]

/-- The calls of a handler neither take a signal nor run another handler. -/
theorem filterMap_calls {α : Type} {f : SigEvent → Option α} (hf : ∀ call, f (.call call) = none)
    (calls : List SigCall) : (calls.map SigEvent.call).filterMap f = [] := by
  rw [List.filterMap_map]
  exact List.filterMap_eq_nil_iff.mpr fun call _ => hf call

theorem handlerEvents_takes (body : Handlers) (handler : UInt32) (sig : ℕ) :
    (handlerEvents body handler sig).filterMap SigEvent.takes = [] := by
  unfold handlerEvents
  split_ifs
  · exact filterMap_calls (fun _ => rfl) (body handler sig)
  · rfl
  · rfl

theorem handlerEvents_runs (body : Handlers) (handler : UInt32) (sig : ℕ) :
    (handlerEvents body handler sig).filterMap SigEvent.runs = if handler ≠ sigIgn then [(sig, handler)] else [] := by
  unfold handlerEvents
  by_cases hown : handler ≠ 0 ∧ handler ≠ sigIgn
  · have hrun : (SigEvent.ran sig handler :: (body handler sig).map .call).filterMap SigEvent.runs =
        (sig, handler) :: ((body handler sig).map .call).filterMap SigEvent.runs := rfl
    rw [if_pos hown, if_pos hown.2, hrun, filterMap_calls fun _ => rfl]
  · rw [if_neg hown]
    by_cases hdfl : handler = sigDfl
    · have hrun : handler ≠ sigIgn := by
        rw [hdfl]
        decide
      rw [if_pos hdfl, if_pos hrun]
      rfl
    · have hign : ¬ handler ≠ sigIgn := fun hne => hown ⟨hdfl, hne⟩
      rw [if_neg hdfl, if_neg hign]
      rfl

theorem passEvents_takes (body : Handlers) (pid mask : UInt32) (s : Signals) (sig : ℕ) :
    (passEvents body pid mask s sig).filterMap SigEvent.takes =
      if HasBit mask sig then [(sig, (s.contexts pid.toNat).handlers sig)] else [] := by
  unfold passEvents
  split_ifs with hm
  · exact congrArg (_ :: ·) (handlerEvents_takes body _ sig)
  · rfl

theorem passEvents_runs (body : Handlers) (pid mask : UInt32) (s : Signals) (sig : ℕ) :
    (passEvents body pid mask s sig).filterMap SigEvent.runs =
      ((passEvents body pid mask s sig).filterMap SigEvent.takes).filter fun t => t.2 ≠ sigIgn := by
  rw [passEvents_takes]
  unfold passEvents
  split_ifs with hm
  · refine (handlerEvents_runs body _ sig).trans ?_
    by_cases hign : (s.contexts pid.toNat).handlers sig = sigIgn
    · simp [hign]
    · simp [hign]
  · rfl

theorem passEvents_registered (body : Handlers) (pid mask : UInt32) (s : Signals) (sig : ℕ) :
    TakesRegistered found pid (s.contexts pid.toNat) (passEvents body pid mask s sig) := by
  unfold passEvents
  split_ifs with hm
  · exact ⟨rfl, takesRegistered_of_none (handlerEvents_takes body _ sig)⟩
  · trivial

end Handlers

/-! ## The loop -/

/-- After `n` passes of the loop of a dispatch that started in `s`. -/
structure DispatchInv (who : Slot) (pid : UInt32) (t : TaskRef) (s : Signals) (n : ℕ) (d : Signals × List SigEvent) :
    Prop where
  lock : d.1.lock = heldBy t
  table : DispatchFor who pid (processGet pid s.procs).isSome d.1
  ctx : d.1.contexts pid.toNat =
    d.2.foldl (replayEvent (processGet pid s.procs).isSome pid) (s.contexts pid.toNat)
  taken : (d.2.filterMap SigEvent.takes).map Prod.fst =
    (List.range n).filter fun sig => HasBit (deliverable s pid) sig
  ran : d.2.filterMap SigEvent.runs = (d.2.filterMap SigEvent.takes).filter fun t => t.2 ≠ sigIgn
  registered : TakesRegistered (processGet pid s.procs).isSome pid (s.contexts pid.toNat) d.2

section Loop

variable {who : Slot} {pid : UInt32} {s : Signals} {c : Caller} {body : Handlers} {n : ℕ}

theorem deliverEvents_inv (hf : 0 < c.fuel) (h16 : pid < 16) {d : Signals × List SigEvent}
    (h : DispatchInv who pid c.task s n d) :
    ∃ d', deliverEvents body c pid (deliverable s pid) d n = .ok d' ∧ DispatchInv who pid c.task s (n + 1) d' := by
  obtain ⟨s', hs', hl', htable, hctx⟩ := deliver_replay body (deliverable s pid) hf h.lock h.table h16 n
  refine ⟨(s', d.2 ++ passEvents body pid (deliverable s pid) d.1 n), ?_, ⟨hl', htable, ?_, ?_, ?_, ?_⟩⟩
  · rw [deliverEvents, hs', ok_bind]
    rfl
  · rw [hctx, h.ctx, List.foldl_append]
  · rw [List.filterMap_append, List.map_append, h.taken, passEvents_takes, List.range_succ, List.filter_append]
    congr 1
    by_cases hm : HasBit (deliverable s pid) n
    · simp [hm]
    · simp [hm]
  · rw [List.filterMap_append, List.filterMap_append, List.filter_append, h.ran, passEvents_runs]
  · refine takesRegistered_append.mpr ⟨h.registered, ?_⟩
    rw [← h.ctx]
    exact passEvents_registered body pid _ d.1 n

/-- The whole loop. -/
theorem dispatchLoop_inv (body : Handlers) (hf : 0 < c.fuel) (h16 : pid < 16) (hcur : s.procs.current = some who)
    (hpid : (s.procs.pool who).pid = pid) :
    ∃ d, (List.range 32).foldlM (deliverEvents body c pid (deliverable s pid)) ({ s with lock := heldBy c.task }, []) =
      .ok d ∧ DispatchInv who pid c.task s 32 d := by
  refine foldlM_range (P := DispatchInv who pid c.task s) ?_ fun n _ d h => deliverEvents_inv hf h16 h
  exact ⟨rfl, ⟨hcur, hpid, rfl⟩, rfl, rfl, rfl, trivial⟩

/-- The events are recorded beside the loop. -/
theorem deliverEvents_fst {mask : UInt32} {l : List ℕ} {d d' : Signals × List SigEvent}
    (h : l.foldlM (deliverEvents body c pid mask) d = .ok d') : l.foldlM (deliver body c pid mask) d.1 = .ok d'.1 := by
  induction l generalizing d with
  | nil =>
    rw [← Except.ok.inj h]
    rfl
  | cons sig l ih =>
    obtain ⟨d₁, hd₁, h⟩ := bind_eq_ok.mp h
    obtain ⟨s₁, hs₁, hpure⟩ := bind_eq_ok.mp hd₁
    rw [List.foldlM_cons, hs₁, ok_bind]
    rw [← Except.ok.inj hpure] at h
    exact ih h

end Loop

/-! ## The pending signals -/

section Pending

variable {found : Bool} {pid : UInt32} {ctx : SignalCtx} {es : List SigEvent} {sig : ℕ}

/-- The signal is not taken. -/
def NotTaken (sig : ℕ) (es : List SigEvent) : Prop := ∀ handler, SigEvent.taken sig handler ∉ es

/-- The signal is sent to the process, and not taken afterwards. -/
def SentLast (found : Bool) (pid : UInt32) (sig : ℕ) (es : List SigEvent) : Prop :=
  ∃ before call after, es = before ++ .call call :: after ∧ (found = true ∧ call.sends pid = some (sig : ℤ)) ∧
    NotTaken sig after

theorem notTaken_cons {e : SigEvent} : NotTaken sig (e :: es) ↔ (∀ handler, e ≠ .taken sig handler) ∧ NotTaken sig es := by
  constructor
  · intro h
    exact ⟨fun handler he => h handler (he ▸ List.mem_cons_self), fun handler hm => h handler (List.mem_cons_of_mem _ hm)⟩
  · rintro ⟨hne, h⟩ handler hm
    rcases List.mem_cons.mp hm with he | hm
    · exact hne handler he.symm
    · exact h handler hm

theorem sentLast_cons {e : SigEvent} :
    SentLast found pid sig (e :: es) ↔
      (∃ call, e = .call call ∧ (found = true ∧ call.sends pid = some (sig : ℤ)) ∧ NotTaken sig es) ∨
        SentLast found pid sig es := by
  constructor
  · rintro ⟨before, call, after, hsplit, hsent, hnot⟩
    cases before with
    | nil =>
      obtain ⟨rfl, rfl⟩ := List.cons.inj hsplit
      exact .inl ⟨call, rfl, hsent, hnot⟩
    | cons f before =>
      obtain ⟨rfl, rfl⟩ := List.cons.inj hsplit
      exact .inr ⟨before, call, after, rfl, hsent, hnot⟩
  · rintro (⟨call, rfl, hsent, hnot⟩ | ⟨before, call, after, rfl, hsent, hnot⟩)
    · exact ⟨[], call, es, rfl, hsent, hnot⟩
    · exact ⟨e :: before, call, after, rfl, hsent, hnot⟩

theorem hasBit_pendSignal (hsig : sig < 32) (signum : ℤ) :
    HasBit (pendSignal found signum ctx).pending sig ↔
      HasBit ctx.pending sig ∨ (found = true ∧ signum = (sig : ℤ)) := by
  unfold pendSignal
  by_cases hsent : found = true ∧ 0 ≤ signum ∧ signum < 32
  · obtain ⟨hfound, hlo, hhi⟩ := hsent
    have hone : signum.toNat = sig ↔ signum = (sig : ℤ) := by omega
    rw [if_pos ⟨hfound, hlo, hhi⟩]
    simp only [hasBit_or hsig, hasBit_bitMask (show signum.toNat < 32 by omega) hsig, hone, hfound, true_and]
  · rw [if_neg hsent]
    refine (or_iff_left ?_).symm
    rintro ⟨hfound, rfl⟩
    exact hsent ⟨hfound, by omega, by omega⟩

theorem hasBit_replayCall (hsig : sig < 32) (call : SigCall) :
    HasBit (replayCall found pid ctx call).pending sig ↔
      HasBit ctx.pending sig ∨ (found = true ∧ call.sends pid = some (sig : ℤ)) := by
  cases call with
  | signal signum handler => simp [replayCall, SigCall.sends]
  | kill target signum =>
    by_cases htarget : target = pid
    · simp only [replayCall, SigCall.sends, if_pos htarget, Option.some.injEq]
      exact hasBit_pendSignal hsig signum
    · simp [replayCall, SigCall.sends, htarget]
  | raise signum =>
    simp only [replayCall, SigCall.sends, Option.some.injEq]
    exact hasBit_pendSignal hsig signum
  | sigblock mask => simp [replayCall, SigCall.sends]
  | sigunblock mask => simp [replayCall, SigCall.sends]

/-- A signal is pending after some events if it was before and is not taken, or if it is sent and not taken
afterwards. -/
theorem hasBit_replay (hsig : sig < 32) (hes : ∀ k handler, SigEvent.taken k handler ∈ es → k < 32) :
    HasBit (es.foldl (replayEvent found pid) ctx).pending sig ↔
      (HasBit ctx.pending sig ∧ NotTaken sig es) ∨ SentLast found pid sig es := by
  induction es generalizing ctx with
  | nil =>
    have hnot : NotTaken sig [] := fun handler => List.not_mem_nil
    have hsent : ¬ SentLast found pid sig [] := by
      rintro ⟨before, call, after, hsplit, -⟩
      exact absurd hsplit (by simp)
    simp [hnot, hsent]
  | cons e es ih =>
    rw [List.foldl_cons, ih fun k handler hm => hes k handler (List.mem_cons_of_mem _ hm), notTaken_cons, sentLast_cons]
    cases e with
    | taken k handler =>
      have hk : k < 32 := hes k handler List.mem_cons_self
      have hne : (∀ handler', SigEvent.taken k handler ≠ .taken sig handler') ↔ k ≠ sig := by
        constructor
        · rintro h rfl
          exact h handler rfl
        · intro h handler' he
          exact h (SigEvent.taken.inj he).1
      simp only [replayEvent, hasBit_and_not hsig, hasBit_bitMask hk hsig, hne, reduceCtorEq, false_and,
        exists_false, false_or, and_assoc]
    | ran k handler => simp [replayEvent]
    | call call =>
      simp only [replayEvent, hasBit_replayCall hsig, SigEvent.call.injEq, ne_eq, reduceCtorEq, not_false_eq_true,
        implies_true, true_and, exists_eq_left']
      tauto

end Pending

/-! ## The dispatch -/

section Dispatch

variable {who : Slot} {pid : UInt32} {t : TaskRef} {s : Signals} {d : Signals × List SigEvent} {sig : ℕ}

theorem mem_takes (es : List SigEvent) :
    sig ∈ (es.filterMap SigEvent.takes).map Prod.fst ↔ ∃ handler, .taken sig handler ∈ es := by
  constructor
  · intro h
    obtain ⟨⟨k, handler⟩, hmem, rfl⟩ := List.mem_map.mp h
    obtain ⟨e, he, htakes⟩ := List.mem_filterMap.mp hmem
    cases e with
    | taken k' handler' =>
      obtain ⟨rfl, rfl⟩ := Prod.mk.inj (Option.some.inj htakes)
      exact ⟨_, he⟩
    | ran k' handler' => cases htakes
    | call call => cases htakes
  · rintro ⟨handler, he⟩
    exact List.mem_map.mpr ⟨(sig, handler), List.mem_filterMap.mpr ⟨_, he, rfl⟩, rfl⟩

theorem DispatchInv.taken_iff (h : DispatchInv who pid t s 32 d) :
    (∃ handler, .taken sig handler ∈ d.2) ↔ sig < 32 ∧ HasBit (deliverable s pid) sig := by
  rw [← mem_takes, h.taken, List.mem_filter, List.mem_range, decide_eq_true_iff]

/-- A signal that is taken is not taken again. -/
theorem DispatchInv.once (h : DispatchInv who pid t s 32 d) {before after : List SigEvent} {e : SigEvent}
    (hsplit : d.2 = before ++ e :: after) {handler : UInt32} (hb : .taken sig handler ∈ before) :
    NotTaken sig after := by
  intro handler' ha
  have hnodup : ((d.2.filterMap SigEvent.takes).map Prod.fst).Nodup := by
    rw [h.taken]
    exact List.nodup_range.filter _
  rw [hsplit, List.filterMap_append, List.map_append] at hnodup
  have hbefore := (mem_takes before).mpr ⟨handler, hb⟩
  have hafter := (mem_takes (e :: after)).mpr ⟨handler', List.mem_cons_of_mem e ha⟩
  exact List.disjoint_of_nodup_append hnodup hbefore hafter

theorem DispatchInv.notTaken_after (h : DispatchInv who pid t s 32 d) (hsig : sig < 32)
    {before after : List SigEvent} {call : SigCall} (hsplit : d.2 = before ++ .call call :: after) :
    NotTaken sig after ↔ (∃ handler, .taken sig handler ∈ before) ∨ ¬ HasBit (deliverable s pid) sig := by
  constructor
  · intro hnot
    by_cases hdel : HasBit (deliverable s pid) sig
    · obtain ⟨handler, hmem⟩ := h.taken_iff.mpr ⟨hsig, hdel⟩
      rw [hsplit] at hmem
      rcases List.mem_append.mp hmem with hmem | hmem
      · exact .inl ⟨handler, hmem⟩
      · rcases List.mem_cons.mp hmem with he | hmem
        · cases he
        · exact absurd hmem (hnot handler)
    · exact .inr hdel
  · rintro (⟨handler, hb⟩ | hdel)
    · exact h.once hsplit hb
    · intro handler hmem
      refine hdel (h.taken_iff.mp ⟨handler, ?_⟩).2
      rw [hsplit]
      exact List.mem_append_right _ (List.mem_cons_of_mem _ hmem)

/-- After the whole loop the dispatch has delivered exactly. -/
theorem DispatchInv.delivers (h : DispatchInv who pid t s 32 d) (lock : Mutex) :
    DeliversExactly s pid { d.1 with lock := lock } d.2 := by
  refine ⟨h.taken, fun before sig handler after hsplit => ?_, h.ran, fun sig hsig => ?_⟩
  · have hreg := h.registered
    rw [hsplit] at hreg
    have hhandler := (takesRegistered_append.mp hreg).2.1
    rwa [replay_handlers] at hhandler
  · have hlt : ∀ k handler, SigEvent.taken k handler ∈ d.2 → k < 32 :=
      fun k handler hm => (h.taken_iff.mp ⟨handler, hm⟩).1
    have hctx : HasBit (d.1.contexts pid.toNat).pending sig ↔
        (HasBit (s.contexts pid.toNat).pending sig ∧ NotTaken sig d.2) ∨
          SentLast (processGet pid s.procs).isSome pid sig d.2 := by
      rw [h.ctx]
      exact hasBit_replay hsig hlt
    have hfound : (processGet pid s.procs).isSome = true ↔ processGet pid s.procs ≠ none :=
      Option.isSome_iff_ne_none
    have hnot : NotTaken sig d.2 ↔ ¬ HasBit (deliverable s pid) sig := by
      rw [NotTaken, ← not_exists, h.taken_iff, and_iff_right hsig]
    refine hctx.trans (or_congr ?_ ?_)
    · rw [hnot, deliverable, hasBit_and_not hsig]
      tauto
    · constructor
      · rintro ⟨before, call, after, hsplit, ⟨hin, hsent⟩, hafter⟩
        exact ⟨before, call, after, hsplit, ⟨hfound.mp hin, hsent⟩, (h.notTaken_after hsig hsplit).mp hafter⟩
      · rintro ⟨before, call, after, hsplit, ⟨hin, hsent⟩, hlate⟩
        exact ⟨before, call, after, hsplit, ⟨hfound.mpr hin, hsent⟩, (h.notTaken_after hsig hsplit).mpr hlate⟩

end Dispatch

/-- **Delivery is exact**, whatever the handlers do. -/
theorem signal_delivery_exact {body : Handlers} {c : Caller} {s : Signals} {who : Slot} {pid : UInt32}
    (hcur : processCurrent s.procs = some who) (hpid : (s.procs.pool who).pid = pid) (h16 : pid < 16)
    (hl : s.lock = mutexInit) (hf : 0 < c.fuel) :
    ∃ s' events, signalDispatch body c s = .ok s' ∧ dispatchEvents body c s = .ok (s', events) ∧
      DeliversExactly s pid s' events := by
  obtain ⟨d, hd, hinv⟩ := dispatchLoop_inv body hf h16 hcur hpid
  have hloop := deliverEvents_fst hd
  rw [deliverable] at hd hloop
  refine ⟨{ d.1 with lock := mutexUnlock c.task d.1.lock }, d.2, ?_, ?_, hinv.delivers _⟩
  · rw [signalDispatch, hcur]
    simp only [hpid, UInt32.not_le.mpr h16, if_false, numSignals]
    rw [mutexLock_init c hl hf, ok_bind, hloop]
    rfl
  · rw [dispatchEvents, hcur]
    simp only [hpid, UInt32.not_le.mpr h16, if_false, numSignals]
    rw [mutexLock_init c hl hf, ok_bind, hd]
    rfl

/-- A process with the signals 1 and 3 pending and a handler of its own for 1. -/
def raisingSignals : Signals :=
  { initSignals (bootSignals (bootProcs 0)) with
    contexts := fun _ => { handlers := fun sig => if sig = 1 then 0x1000 else sigDfl, pending := 10, blocked := 0 } }

/-- A handler that raises both. -/
def raisingHandlers : Handlers := fun _ _ => [.raise 3, .raise 1]

/-- Its handler raises both signals: 1 is pending again afterwards, and 3 is delivered. -/
theorem signal_delivery_exact_raising :
    ∃ s' events,
      dispatchEvents raisingHandlers ((soloCaller .mainTask).withFuel 1) raisingSignals = .ok (s', events) ∧
      DeliversExactly raisingSignals 0 s' events ∧
      HasBit (s'.contexts 0).pending 1 ∧ ¬ HasBit (s'.contexts 0).pending 3 := by
  have hcur : processCurrent raisingSignals.procs = some 0 := rfl
  have hpid : (raisingSignals.procs.pool 0).pid = 0 := rfl
  have hf : 0 < ((soloCaller .mainTask).withFuel 1).fuel := by decide
  obtain ⟨s', events, hs', hev, hdel⟩ : ∃ s' events,
      signalDispatch raisingHandlers ((soloCaller .mainTask).withFuel 1) raisingSignals = .ok s' ∧
      dispatchEvents raisingHandlers ((soloCaller .mainTask).withFuel 1) raisingSignals = .ok (s', events) ∧
      DeliversExactly raisingSignals 0 s' events := signal_delivery_exact hcur hpid (by decide) rfl hf
  have hbits : (signalDispatch raisingHandlers ((soloCaller .mainTask).withFuel 1) raisingSignals).map
      (fun s' => (s'.contexts 0).pending) = .ok 2 := rfl
  rw [hs'] at hbits
  have hpending : (s'.contexts 0).pending = 2 := Except.ok.inj hbits
  refine ⟨s', events, hev, hdel, ?_, ?_⟩
  · rw [hpending]
    decide
  · rw [hpending]
    decide

end RtosKernel
