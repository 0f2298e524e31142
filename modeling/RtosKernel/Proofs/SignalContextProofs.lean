import RtosKernel.Proofs.PidProofs
import RtosKernel.Proofs.SignalProofs

/-!
# Proofs: processes and their signal contexts

A signal call changes the context of a process that is there, and `signal_dispatch` may end the current
process; that is all they do to the two tables (`SigFrame`). So a context stays as `signal_init` left it
until a process gets its pid, and a new process finds it clean.

The contexts are numbered by pid and there are sixteen of them, but pids are never used again. A process
with a pid of 16 or more has no context, and no signal reaches it.
-/

namespace RtosKernel

open Lib

/-! ## What the signal calls do to the two tables -/

/-- No process comes or goes, and only contexts of pids that a slot has are changed. -/
structure SigFrame (s s' : Signals) : Prop where
  pids : SamePids s.procs s'.procs
  current : s'.procs.current = s.procs.current
  unused : ∀ j, s'.procs.state j = .unused ↔ s.procs.state j = .unused
  contexts : ∀ p, (∀ i, (s.procs.pool i).pid.toNat ≠ p) → s'.contexts p = s.contexts p

section Frame

variable {s s' : Signals} {c : Caller}

theorem SigFrame.refl (s : Signals) : SigFrame s s :=
  ⟨SamePids.refl _, rfl, fun _ => Iff.rfl, fun _ _ => rfl⟩

theorem SigFrame.trans {s'' : Signals} (h : SigFrame s s') (h' : SigFrame s' s'') : SigFrame s s'' := by
  refine ⟨h.pids.trans h'.pids, h'.current.trans h.current, fun j => (h'.unused j).trans (h.unused j), ?_⟩
  intro p hp
  rw [h'.contexts p (fun i => by rw [h.pids.pid]; exact hp i), h.contexts p hp]

/-- A call that returns without having done anything. -/
theorem SigFrame.of_pure {α : Type} {a b : α} (h : (pure (a, s) : Except Stop (α × Signals)) = .ok (b, s')) :
    SigFrame s s' := by
  obtain ⟨-, rfl⟩ := Prod.mk.inj (Except.ok.inj h)
  exact SigFrame.refl s

/-- One context is changed, and the lock. -/
theorem SigFrame.update (s : Signals) (i : Slot) (ctx : SignalCtx) (mx : Mutex) :
    SigFrame s { s with
      contexts := Function.update s.contexts (s.procs.pool i).pid.toNat ctx, lock := mx } := by
  refine ⟨SamePids.refl _, rfl, fun _ => Iff.rfl, fun p hp => ?_⟩
  exact Function.update_of_ne (hp i).symm ..

theorem changeCtx_frame {i : Slot} {f : SignalCtx → SignalCtx}
    (h : changeCtx c (s.procs.pool i).pid f s = .ok s') : SigFrame s s' := by
  obtain ⟨mx, -, hs⟩ := bind_eq_ok.mp h
  rw [← Except.ok.inj hs]
  exact SigFrame.update s i _ _

/-- A call that changes the context of a slot's pid and returns. -/
theorem SigFrame.of_change {α : Type} {a b : α} {i : Slot} {f : SignalCtx → SignalCtx}
    (h : (changeCtx c (s.procs.pool i).pid f s >>= fun t => pure (a, t)) = .ok (b, s')) : SigFrame s s' := by
  obtain ⟨t, ht, hs⟩ := bind_eq_ok.mp h
  obtain ⟨-, rfl⟩ := Prod.mk.inj (Except.ok.inj hs)
  exact changeCtx_frame ht

/-- A call whose result is not used. -/
theorem SigFrame.of_call {α : Type} {x : Except Stop (α × Signals)} (hx : ∀ {a t}, x = .ok (a, t) → SigFrame s t)
    (h : (x >>= fun r => pure r.2) = .ok s') : SigFrame s s' := by
  obtain ⟨⟨a, t⟩, ht, hs⟩ := bind_eq_ok.mp h
  obtain rfl : t = s' := Except.ok.inj hs
  exact hx ht

theorem kill_frame {pid : UInt32} {signum : ℤ} {e : ErrorT} (h : kill c pid signum s = .ok (e, s')) :
    SigFrame s s' := by
  unfold kill at h
  split at h
  · exact .of_pure h
  · split at h
    · exact .of_pure h
    · split at h
      · exact .of_pure h
      · next i hi =>
        rw [← (processGet_spec hi).2] at h
        exact .of_change h

theorem signal_frame {signum : ℤ} {handler old : UInt32} (h : signal c signum handler s = .ok (old, s')) :
    SigFrame s s' := by
  unfold signal at h
  split at h
  · exact .of_pure h
  · split at h
    · exact .of_pure h
    · split at h
      · exact .of_pure h
      · simp only at h
        split at h
        · exact .of_pure h
        · exact .of_change h

theorem changeBlocked_frame {f : UInt32 → UInt32} {e : ErrorT} (h : changeBlocked c f s = .ok (e, s')) :
    SigFrame s s' := by
  unfold changeBlocked at h
  split at h
  · exact .of_pure h
  · simp only at h
    split at h
    · exact .of_pure h
    · exact .of_change h

theorem raise_frame {signum : ℤ} {e : ErrorT} (h : raise c signum s = .ok (e, s')) : SigFrame s s' := by
  unfold raise at h
  split at h
  · exact .of_pure h
  · exact kill_frame h

theorem sigCall_frame {call : SigCall} (h : sigCall c s call = .ok s') : SigFrame s s' := by
  cases call with
  | signal signum handler => exact .of_call signal_frame h
  | kill pid signum => exact .of_call kill_frame h
  | raise signum => exact .of_call raise_frame h
  | sigblock mask => exact .of_call changeBlocked_frame h
  | sigunblock mask => exact .of_call changeBlocked_frame h

/-! ## What a dispatch does -/

theorem defaultSignalHandler_frame {signum : ℕ} (h : defaultSignalHandler signum s = .ok s') :
    SigFrame s s' := by
  unfold defaultSignalHandler at h
  split at h
  · split at h
    · cases h
    · rw [← Except.ok.inj h]
      obtain ⟨-, -, hcur, hunused⟩ := processExit_spec (s.procs.pool ‹Slot›).pid s.procs
      exact ⟨processExit_pids _ _, hcur, hunused, fun _ _ => rfl⟩
  · rw [← Except.ok.inj h]
    exact SigFrame.refl s

variable {body : Handlers}

theorem callHandler_frame {handler : UInt32} {sig : ℕ} (h : callHandler body c handler sig s = .ok s') :
    SigFrame s s' := by
  unfold callHandler at h
  split at h
  · exact foldlM_inv (I := SigFrame s) (fun _ _ _ ht hcall => ht.trans (sigCall_frame hcall))
      (SigFrame.refl s) h
  · split at h
    · exact defaultSignalHandler_frame h
    · rw [← Except.ok.inj h]
      exact SigFrame.refl s

/-- A pass of the loop of `signal_dispatch` for the process in slot `i`. -/
theorem deliver_frame {i : Slot} {pending : UInt32} {sig : ℕ}
    (h : deliver body c (s.procs.pool i).pid pending s sig = .ok s') : SigFrame s s' := by
  unfold deliver at h
  split at h
  · obtain ⟨t, ht, h⟩ := bind_eq_ok.mp h
    obtain ⟨mx, -, h⟩ := bind_eq_ok.mp h
    have hcall := (SigFrame.update s i _ _).trans (callHandler_frame ht)
    rw [← Except.ok.inj h]
    exact ⟨hcall.pids, hcall.current, hcall.unused, hcall.contexts⟩
  · rw [← Except.ok.inj h]
    exact SigFrame.refl s

theorem signalDispatch_frame (h : signalDispatch body c s = .ok s') : SigFrame s s' := by
  unfold signalDispatch at h
  split at h
  · rw [← Except.ok.inj h]
    exact SigFrame.refl s
  · next i hi =>
    simp only at h
    split at h
    · rw [← Except.ok.inj h]
      exact SigFrame.refl s
    · obtain ⟨mx, -, h⟩ := bind_eq_ok.mp h
      obtain ⟨t, ht, h⟩ := bind_eq_ok.mp h
      have hlock : SigFrame s { s with lock := mx } := ⟨SamePids.refl _, rfl, fun _ => Iff.rfl, fun _ _ => rfl⟩
      have hloop : SigFrame s t := by
        refine foldlM_inv (I := SigFrame s) (fun u sig u' hu hd => ?_) hlock ht
        rw [← hu.pids.pid i] at hd
        exact hu.trans (deliver_frame hd)
      rw [← Except.ok.inj h]
      exact ⟨hloop.pids, hloop.current, hloop.unused, hloop.contexts⟩

end Frame

/-! ## The lock -/

section Lock

variable {s s' : Signals} {c : Caller} {body : Handlers}

theorem sigCall_lock (hf : 0 < c.fuel) (hl : s.lock = mutexInit) {call : SigCall}
    (h : sigCall c s call = .ok s') :
    s'.lock = mutexInit := by
  rw [sigCall_eq hl hf] at h
  rw [← Except.ok.inj h]
  exact (sigEffect_keeps s call).2.trans hl

theorem callHandler_lock (hf : 0 < c.fuel) (hl : s.lock = mutexInit) {handler : UInt32} {sig : ℕ}
    (h : callHandler body c handler sig s = .ok s') : s'.lock = mutexInit := by
  unfold callHandler at h
  split at h
  · exact foldlM_inv (I := fun t : Signals => t.lock = mutexInit) (fun _ _ _ ht => sigCall_lock hf ht) hl h
  · split at h
    · unfold defaultSignalHandler at h
      split at h
      · split at h
        · cases h
        · rw [← Except.ok.inj h]
          exact hl
      · rw [← Except.ok.inj h]
        exact hl
    · rw [← Except.ok.inj h]
      exact hl

/-- A dispatch gives the lock back. -/
theorem signalDispatch_lock (hf : 0 < c.fuel) (hl : s.lock = mutexInit)
    (h : signalDispatch body c s = .ok s') :
    s'.lock = mutexInit := by
  unfold signalDispatch at h
  split at h
  · rw [← Except.ok.inj h]
    exact hl
  · simp only at h
    split at h
    · rw [← Except.ok.inj h]
      exact hl
    · rw [mutexLock_init c hl hf, ok_bind] at h
      obtain ⟨t, ht, h⟩ := bind_eq_ok.mp h
      -- between two passes the task holds the lock
      have hheld : t.lock = heldBy c.task := by
        refine foldlM_inv (I := fun u : Signals => u.lock = heldBy c.task) (fun u sig u' hu hd => ?_) rfl ht
        unfold deliver at hd
        split at hd
        · obtain ⟨v, hv, hd⟩ := bind_eq_ok.mp hd
          have hfree : v.lock = mutexInit := callHandler_lock hf (by simp only [hu, mutexUnlock_heldBy]) hv
          rw [mutexLock_init c hfree hf, ok_bind] at hd
          rw [← Except.ok.inj hd]
        · rw [← Except.ok.inj hd]
          exact hu
      rw [← Except.ok.inj h]
      simp only [hheld, mutexUnlock_heldBy]

end Lock

/-! ## New processes -/

/-- Every handler is the default one, and no signal is pending or blocked. -/
def CleanCtx (ctx : SignalCtx) : Prop := (∀ sig, ctx.handlers sig = sigDfl) ∧ ctx.pending = 0 ∧ ctx.blocked = 0

/-- The call is a `process_create`. -/
def ProcSigOp.isCreate : ProcSigOp → Bool
  | .proc (.create ..) => true
  | _ => false

/-- `k` processes have been created, and the contexts of the pids that come next are clean. -/
structure FreshInv (k : ℕ) (s : Signals) : Prop where
  pids : PidInv k s.procs
  clean : ∀ p, k < p → p < 16 → CleanCtx (s.contexts p)

section Fresh

variable {body : Handlers} {fuel k : ℕ} {s s' : Signals}

theorem initSignals_fresh (s₀ : Signals) : FreshInv 0 (initSignals s₀) := by
  refine ⟨processInit_pidInv s₀.procs, fun p _ h16 => ?_⟩
  have hctx : (initSignals s₀).contexts p = signalInitCtx := if_pos h16
  rw [hctx]
  exact ⟨fun _ => rfl, rfl, rfl⟩

/-- A signal call or a dispatch reaches no context of a pid to come. -/
theorem FreshInv.frame (h : FreshInv k s) (hs : SigFrame s s') : FreshInv k s' := by
  obtain ⟨c, hc, hlc⟩ := h.pids.current
  refine ⟨h.pids.same hs.pids (fun j hj => .inr ?_) ⟨c, hs.current.trans hc, ?_⟩, fun p hp h16 => ?_⟩
  · exact fun hu => hj ((hs.unused j).mpr hu)
  · exact fun hu => hlc ((hs.unused c).mp hu)
  · rw [hs.contexts p fun i he => ?_]
    · exact h.clean p hp h16
    · have hle := h.pids.le i
      omega

/-- One more process is created at most, and only by `process_create`. -/
theorem procSigStep_fresh (h : FreshInv k s) {op : ProcSigOp} (hk : op.isCreate = true → k + 1 < 2 ^ 32)
    (hs : procSigStep body fuel s op = .ok s') :
    FreshInv k s' ∨ (op.isCreate = true ∧ FreshInv (k + 1) s') := by
  cases op with
  | proc op =>
    obtain ⟨p, hp, hs⟩ := bind_eq_ok.mp hs
    rw [← Except.ok.inj hs]
    rcases procStep_pidInv h.pids op hp with ⟨htakes, hI⟩ | ⟨-, hI⟩
    · have hop : (ProcSigOp.proc op).isCreate = true := by
        cases op with
        | create name entry priority ppid => rfl
        | exit pid => exact absurd htakes id
        | sleep ticks now => exact absurd htakes id
        | schedule esp now => exact absurd htakes id
      exact .inr ⟨hop, hI (hk hop), fun q hq h16 => h.clean q (by omega) h16⟩
    · exact .inl ⟨hI, h.clean⟩
  | call task call => exact .inl (h.frame (sigCall_frame hs))
  | dispatch task => exact .inl (h.frame (signalDispatch_frame hs))

/-- After a run with fewer than `2^32` calls of `process_create`. -/
theorem procSigRun_fresh (s₀ : Signals) {ops : List ProcSigOp} (hn : ops.countP ProcSigOp.isCreate < 2 ^ 32)
    (hr : run (procSigStep body fuel) (initSignals s₀) ops = .ok s) :
    ∃ k ≤ ops.countP ProcSigOp.isCreate, FreshInv k s := by
  induction ops using List.reverseRecOn generalizing s with
  | nil =>
    obtain rfl : initSignals s₀ = s := Except.ok.inj hr
    exact ⟨0, le_rfl, initSignals_fresh s₀⟩
  | append_singleton ops op ih =>
    obtain ⟨t, ht, hs⟩ := run_snoc_ok hr
    rw [List.countP_append, List.countP_singleton] at hn ⊢
    obtain ⟨k, hk, hI⟩ := ih (by omega) ht
    have hk1 : op.isCreate = true → k + 1 < 2 ^ 32 := by
      intro hop
      rw [if_pos hop] at hn
      omega
    rcases procSigStep_fresh hI hk1 hs with hI' | ⟨hop, hI'⟩
    · exact ⟨k, by omega, hI'⟩
    · exact ⟨k + 1, by rw [if_pos hop]; omega, hI'⟩

/-- A pid below 16, read back from the `int` that `process_create` returns. -/
theorem pid_of_int {pid : UInt32} (h0 : 0 ≤ pid.toInt32.toInt) (h16 : pid.toInt32.toInt < 16) :
    pid.toInt32.toInt.toNat = pid.toNat := by
  have hval : pid.toInt32.toInt =
      if 2 * pid.toNat < 2 ^ 32 then (pid.toNat : ℤ) else pid.toNat - (2 ^ 32 : ℕ) :=
    BitVec.toInt_eq_toNat_cond pid.toBitVec
  have hlt := pid.toNat_lt
  split at hval
  · omega
  · omega

end Fresh

/-- **A new process finds a clean signal context: in a run of fewer than `2^32` calls of
`process_create`, mixed with any other process and signal calls, a `process_create` that returns a pid
below 16 returns one whose context has the default handlers and neither pending nor blocked signals.** -/
theorem new_process_signals_clean {body : Handlers} {fuel : ℕ} {s₀ s : Signals} {ops : List ProcSigOp}
    (hr : run (procSigStep body fuel) (initSignals s₀) ops = .ok s)
    (hn : ops.countP ProcSigOp.isCreate + 1 < 2 ^ 32) {name : List UInt8} {entry priority ppid : UInt32}
    {pid : Int32} {p : Procs} (hc : processCreate fuel name entry priority ppid s.procs = .ok (pid, p))
    (h0 : 0 ≤ pid.toInt) (h16 : pid.toInt < 16) :
    CleanCtx (({ s with procs := p } : Signals).contexts pid.toInt.toNat) := by
  obtain ⟨k, hk, hI⟩ := procSigRun_fresh s₀ (by omega) hr
  rcases processCreate_cases hc with ⟨-, rfl, -⟩ | ⟨i, -, rfl, -⟩
  · exact absurd h0 (by decide)
  · have hnext := hI.pids.nextPid
    have hval := pid_of_int h0 h16
    exact hI.clean _ (by omega) (by omega)

/-- The first process that is created, after a signal was sent to the idle process. -/
theorem new_process_signals_clean_first :
    ∃ (s : Signals) (pid : Int32) (p : Procs),
      run (procSigStep (fun _ _ => []) 1) (initSignals (bootSignals (bootProcs 0)))
        [.call (soloCaller .mainTask) (.kill 0 10)] = .ok s ∧
      processCreate 1 [97] 0x1000 1 0 s.procs = .ok (pid, p) ∧
      CleanCtx (({ s with procs := p } : Signals).contexts pid.toInt.toNat) := by
  have hr : run (procSigStep (fun _ _ => []) 1) (initSignals (bootSignals (bootProcs 0)))
      [.call (soloCaller .mainTask) (.kill 0 10)] =
      .ok (sigEffect (initSignals (bootSignals (bootProcs 0))) (.kill 0 10)) := by
    have hlock : (initSignals (bootSignals (bootProcs 0))).lock = mutexInit := rfl
    rw [run_singleton, procSigStep]
    exact sigCall_eq hlock (by exact one_pos) (.kill 0 10)
  have hprocs := (sigEffect_keeps (initSignals (bootSignals (bootProcs 0))) (.kill 0 10)).1
  obtain ⟨pid, p, hc⟩ : ∃ pid p, processCreate 1 [97] 0x1000 1 0
      (sigEffect (initSignals (bootSignals (bootProcs 0))) (.kill 0 10)).procs = .ok (pid, p) ∧ pid = 1 := by
    rw [hprocs]
    exact ⟨_, _, rfl, rfl⟩
  refine ⟨_, pid, p, hr, hc.1, ?_⟩
  exact new_process_signals_clean hr (by decide) hc.1 (by rw [hc.2]; decide) (by rw [hc.2]; decide)

/-! ## Every process can be signalled -/

/-- A signal to any process in use is accepted, becomes pending for that process, and changes nothing for
the others. -/
def Signalable (s : Signals) : Prop :=
  ∀ i, s.procs.state i ≠ .unused → ∀ signum : ℤ, 0 ≤ signum → signum < 32 → ∀ c : Caller, 0 < c.fuel →
    ∃ s', kill c (s.procs.pool i).pid signum s = .ok (.ok, s') ∧
      s'.contexts (s.procs.pool i).pid.toNat = { s.contexts (s.procs.pool i).pid.toNat with
        pending := (s.contexts (s.procs.pool i).pid.toNat).pending ||| bitMask signum.toNat } ∧
      ∀ j, j ≠ i → s.procs.state j ≠ .unused →
        s'.contexts (s.procs.pool j).pid.toNat = s.contexts (s.procs.pool j).pid.toNat

/-- A `process_create` that finds a free slot has a pid below 16 to give. -/
def PidInRange (s : Signals) : ProcSigOp → Prop
  | .proc op => TakesSlot s.procs op → s.procs.nextPid < 16
  | _ => True

/-- Fewer than 16 processes have been created, and the lock is free. -/
def FewPids (s : Signals) : Prop := s.lock = mutexInit ∧ ∃ k < 16, PidInv k s.procs

section Kill

variable {body : Handlers} {fuel : ℕ} {s s' : Signals}

/-- `process_get` finds a process that is in use. -/
theorem processGet_used {p : Procs} {i : Slot} (hi : p.state i ≠ .unused) :
    processGet (p.pool i).pid p ≠ none := by
  intro hn
  refine List.find?_eq_none.mp hn i (List.mem_finRange i) ?_
  simp [hi]

theorem FewPids.signalable (h : FewPids s) : Signalable s := by
  obtain ⟨hl, k, hk, hI⟩ := h
  intro i hi signum h0 h32 c hf
  have hpid : (s.procs.pool i).pid < 16 := by
    have hle := hI.le i
    have h16 : (16 : UInt32).toNat = 16 := rfl
    rw [UInt32.lt_iff_toNat_lt]
    omega
  obtain ⟨t, ht⟩ : ∃ t, processGet (s.procs.pool i).pid s.procs = some t :=
    Option.ne_none_iff_exists'.mp (processGet_used hi)
  refine ⟨{ s with contexts := Function.update s.contexts (s.procs.pool i).pid.toNat _ }, ?_,
    Function.update_self .., ?_⟩
  · have hrange : ¬ (signum < 0 ∨ signum ≥ (numSignals : ℤ)) := by
      simp only [numSignals]
      omega
    rw [kill, if_neg hrange, if_neg (UInt32.not_le.mpr hpid), ht]
    simp only [changeCtx_eq hl hf, ok_bind, pure_eq_ok]
  · intro j hj hlive
    refine Function.update_of_ne (fun he => ?_) ..
    exact hI.distinct j i hj hlive hi (UInt32.toNat_inj.mp he)

/-- A process with a pid of 16 or more cannot be signalled. -/
theorem Signalable.pid_lt (h : Signalable s) {i : Slot} (hi : s.procs.state i ≠ .unused) :
    (s.procs.pool i).pid < 16 := by
  by_contra hge
  obtain ⟨t, ht, -⟩ := h i hi 0 le_rfl (by decide) ⟨.mainTask, 1, fun _ => [], by simp⟩ one_pos
  have hinval : ∀ c : Caller, kill c (s.procs.pool i).pid 0 s = .ok (.inval, s) := by
    intro c
    rw [kill, if_neg (by decide), if_pos (UInt32.not_lt.mp hge), pure_eq_ok]
  rw [hinval] at ht
  cases ht

theorem FewPids.frame (h : FewPids s) (hl : s'.lock = mutexInit) (hs : SigFrame s s') : FewPids s' := by
  obtain ⟨-, k, hk, hI⟩ := h
  obtain ⟨c, hc, hlc⟩ := hI.current
  refine ⟨hl, k, hk, hI.same hs.pids (fun j hj => .inr ?_) ⟨c, hs.current.trans hc, ?_⟩⟩
  · exact fun hu => hj ((hs.unused j).mpr hu)
  · exact fun hu => hlc ((hs.unused c).mp hu)

theorem FewPids.nextPid_lt {k : ℕ} (hk : k < 16) (hI : PidInv k s.procs) :
    s.procs.nextPid < 16 ↔ k + 1 < 16 := by
  have hnext := hI.nextPid
  have h16 : (16 : UInt32).toNat = 16 := rfl
  rw [UInt32.lt_iff_toNat_lt]
  omega

theorem procSigStep_fewPids (hf : 0 < fuel) {op : ProcSigOp} (h : FewPids s) (hC : PidInRange s op)
    (hs : procSigStep body fuel s op = .ok s') : FewPids s' := by
  cases op with
  | proc op =>
    obtain ⟨hl, k, hk, hI⟩ := h
    obtain ⟨p, hp, hs⟩ := bind_eq_ok.mp hs
    rw [← Except.ok.inj hs]
    rcases procStep_pidInv hI op hp with ⟨htakes, hI'⟩ | ⟨-, hI'⟩
    · have hlt := (FewPids.nextPid_lt hk hI).mp (hC htakes)
      exact ⟨hl, k + 1, hlt, hI' (by omega)⟩
    · exact ⟨hl, k, hk, hI'⟩
  | call task call => exact h.frame (sigCall_lock hf h.1 hs) (sigCall_frame hs)
  | dispatch task => exact h.frame (signalDispatch_lock hf h.1 hs) (signalDispatch_frame hs)

/-- A step after which every process can be signalled had a pid below 16 to give. -/
theorem pidInRange_of_step {op : ProcSigOp} (h : FewPids s) (hs : procSigStep body fuel s op = .ok s')
    (hP : Signalable s') : PidInRange s op := by
  cases op with
  | proc op =>
    intro htakes
    obtain ⟨hl, k, hk, hI⟩ := h
    obtain ⟨p, hp, hs⟩ := bind_eq_ok.mp hs
    cases op with
    | create name entry priority ppid =>
      obtain ⟨⟨r, t⟩, hcr, hst⟩ := bind_eq_ok.mp hp
      obtain rfl : t = p := Except.ok.inj hst
      rw [← Except.ok.inj hs] at hP
      rcases processCreate_cases hcr with ⟨hfull, -, -⟩ | ⟨i, -, -, -, -, hstate, hpid, -⟩
      · exact absurd hfull htakes
      · have hlive : t.state i ≠ .unused := by
          rw [hstate, Function.update_self]
          exact ProcState.noConfusion
        have hlt := @Signalable.pid_lt _ hP i hlive
        rwa [← hpid]
    | exit pid => exact absurd htakes id
    | sleep ticks now => exact absurd htakes id
    | schedule esp now => exact absurd htakes id
  | call task call => trivial
  | dispatch task => trivial

theorem initSignals_fewPids (s₀ : Signals) : FewPids (initSignals s₀) :=
  ⟨rfl, 0, by decide, processInit_pidInv s₀.procs⟩

end Kill

/-- **Every process in use can be signalled in every state that a run of process and signal calls reaches,
exactly when each `process_create` of the run that returns with a process gives it a pid below 16.** -/
theorem live_processes_signalable_iff {body : Handlers} {fuel : ℕ} (hf : 0 < fuel) (s₀ : Signals)
    (ops : List ProcSigOp) :
    Whenever (procSigStep body fuel) (initSignals s₀) Signalable ops ↔
      AllReturned (procSigStep body fuel) (initSignals s₀) PidInRange ops := by
  refine whenever_iff (initSignals_fewPids s₀) (fun _ h => h.signalable) ?_ ?_ ops
  · exact fun s op s' h hC hs => procSigStep_fewPids hf h hC hs
  · exact fun s op s' h hs hP => pidInRange_of_step h hs hP

theorem live_processes_signalable_create_exit :
    0 < 16 ∧ Whenever (procSigStep (fun _ _ => []) 16) (initSignals (bootSignals (bootProcs 0))) Signalable
      [.proc (.create [97] 0x1000 1 0), .proc (.exit 1)] := by
  refine ⟨by decide, (live_processes_signalable_iff (by decide) _ _).mpr (allReturned_of_allSteps ?_)⟩
  refine allSteps_cons.mpr ⟨fun _ => by decide, fun s _ =>
    allSteps_cons.mpr ⟨fun h => absurd h id, fun s _ => ?_⟩⟩
  exact allSteps_nil

/-- Fifteen processes are created, the first one ends and is reaped, and a sixteenth takes its slot: it
has pid 16 and cannot be signalled. -/
theorem process_16_not_signalled :
    ¬ Whenever (procSigStep (fun _ _ => []) 16) (initSignals (bootSignals (bootProcs 0))) Signalable
      (List.replicate 15 (.proc (.create [97] 0x1000 1 0)) ++
        [.proc (.exit 1), .proc (.schedule 0 0), .proc (.create [97] 0x1000 1 0)]) := by
  intro h
  have hend : Returns (run (procSigStep (fun _ _ => []) 16) (initSignals (bootSignals (bootProcs 0)))
      (List.replicate 15 (.proc (.create [97] 0x1000 1 0)) ++
        [.proc (.exit 1), .proc (.schedule 0 0), .proc (.create [97] 0x1000 1 0)])) fun s =>
      s.procs.state 1 ≠ .unused ∧ (s.procs.pool 1).pid = 16 := by
    decide +kernel
  obtain ⟨s, hr, hlive, hpid⟩ := hend
  have hlt := (h _ List.prefix_rfl s hr).pid_lt hlive
  rw [hpid] at hlt
  exact absurd hlt (by decide)

end RtosKernel
