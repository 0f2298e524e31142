import RtosKernel.SignalBounds

/-!
# Proofs: the accesses to `signal_contexts`

Every function of `signal.c` but `pause` looks at the pid before it touches the array, so with checked
accesses it does exactly what the plain model does (`Checked.sigCall_eq`, `Checked.signalDispatch_eq`).
`pause` leaves the array whenever the process that waits has a pid of 16 or more.
-/

namespace RtosKernel

open Lib

/-! ## The calls that look at the pid -/

namespace Checked

variable {s : Signals} {c : Caller}

theorem changeCtx_eq {pid : UInt32} (h : pid < 16) (f : SignalCtx → SignalCtx) :
    changeCtx c pid f s =
      unchecked (RtosKernel.changeCtx c pid f s) >>= fun s' => pure (s.contexts pid.toNat, s') := by
  unfold changeCtx RtosKernel.changeCtx unchecked
  rw [mapError_bind]
  simp only [ctxAt, setCtx, if_pos h, ok_bind]
  cases mutexLock c s.lock with
  | error e => rfl
  | ok mx => rfl

/-- A change of a context in range, and the return of something of the context as it was. -/
theorem changeCtx_return {α : Type} {pid : UInt32} (h : ¬ pid ≥ 16) (f : SignalCtx → SignalCtx) (g : SignalCtx → α) :
    (changeCtx c pid f s >>= fun r => pure (g r.1, r.2)) =
      unchecked (RtosKernel.changeCtx c pid f s >>= fun s' => pure (g (s.contexts pid.toNat), s')) := by
  rw [changeCtx_eq (by simpa using h), unchecked, unchecked, mapError_bind, bind_assoc]
  rfl

theorem signal_eq (signum : ℤ) (handler : UInt32) :
    signal c signum handler s = unchecked (RtosKernel.signal c signum handler s) := by
  unfold signal RtosKernel.signal
  by_cases hrange : signum < 0 ∨ signum ≥ numSignals
  · rw [if_pos hrange, if_pos hrange]
    rfl
  by_cases hfixed : signum = sigKill ∨ signum = sigStop
  · rw [if_neg hrange, if_neg hrange, if_pos hfixed, if_pos hfixed]
    rfl
  · rw [if_neg hrange, if_neg hrange, if_neg hfixed, if_neg hfixed]
    cases processCurrent s.procs with
    | none => rfl
    | some current =>
      by_cases hpid : (s.procs.pool current).pid ≥ 16
      · simp only [hpid, if_true]
        rfl
      · simp only [hpid, if_false]
        exact changeCtx_return hpid _ fun ctx => ctx.handlers signum.toNat

theorem kill_eq (pid : UInt32) (signum : ℤ) :
    kill c pid signum s = unchecked (RtosKernel.kill c pid signum s) := by
  unfold kill RtosKernel.kill
  split_ifs with hrange hpid
  · rfl
  · rfl
  · cases processGet pid s.procs with
    | none => rfl
    | some target =>
      exact changeCtx_return hpid _ fun _ => ErrorT.ok

theorem raise_eq (signum : ℤ) : raise c signum s = unchecked (RtosKernel.raise c signum s) := by
  unfold raise RtosKernel.raise
  cases processCurrent s.procs with
  | none => rfl
  | some current => exact kill_eq _ signum

theorem changeBlocked_eq (f : UInt32 → UInt32) :
    changeBlocked c f s = unchecked (RtosKernel.changeBlocked c f s) := by
  unfold changeBlocked RtosKernel.changeBlocked
  cases processCurrent s.procs with
  | none => rfl
  | some current =>
    by_cases hpid : (s.procs.pool current).pid ≥ 16
    · simp only [hpid, if_true]
      rfl
    · simp only [hpid, if_false]
      exact changeCtx_return hpid _ fun _ => ErrorT.ok

/-- A call of the signal API does what it does in the plain model: no access leaves the array. -/
theorem sigCall_eq (call : SigCall) : sigCall c s call = unchecked (RtosKernel.sigCall c s call) := by
  cases call with
  | signal signum handler =>
    rw [sigCall, RtosKernel.sigCall, signal_eq, unchecked, unchecked, mapError_bind]
    rfl
  | kill pid signum => rw [sigCall, RtosKernel.sigCall, kill_eq, unchecked, unchecked, mapError_bind]; rfl
  | raise signum => rw [sigCall, RtosKernel.sigCall, raise_eq, unchecked, unchecked, mapError_bind]; rfl
  | sigblock mask =>
    rw [sigCall, RtosKernel.sigCall, sigblock, changeBlocked_eq, unchecked, unchecked, mapError_bind]
    rfl
  | sigunblock mask =>
    rw [sigCall, RtosKernel.sigCall, sigunblock, changeBlocked_eq, unchecked, unchecked, mapError_bind]
    rfl

theorem callHandler_eq (body : Handlers) (handler : UInt32) (sig : ℕ) :
    callHandler body c handler sig s = unchecked (RtosKernel.callHandler body c handler sig s) := by
  unfold callHandler RtosKernel.callHandler
  split_ifs with huser hdfl
  · exact mapError_foldlM Fault.stop (fun _ => sigCall_eq) _ _
  · rfl
  · rfl

theorem deliver_eq (body : Handlers) {pid : UInt32} (h : pid < 16) (pending : UInt32) (sig : ℕ) :
    deliver body c pid pending s sig = unchecked (RtosKernel.deliver body c pid pending s sig) := by
  unfold deliver RtosKernel.deliver
  split_ifs with hbit
  · simp only [ctxAt, setCtx, if_pos h, ok_bind, unchecked, mapError_bind]
    rw [callHandler_eq]
    rfl
  · rfl

/-- So does a dispatch: the context that it works on is chosen once, for a pid in range. -/
theorem signalDispatch_eq (body : Handlers) :
    signalDispatch body c s = unchecked (RtosKernel.signalDispatch body c s) := by
  unfold signalDispatch RtosKernel.signalDispatch
  cases processCurrent s.procs with
  | none => rfl
  | some current =>
    by_cases hpid : (s.procs.pool current).pid ≥ 16
    · simp only [hpid, if_true]
      rfl
    · simp only [hpid, if_false]
      have hlt : (s.procs.pool current).pid < 16 := by simpa using hpid
      have hloop (pending : UInt32) :=
        mapError_foldlM Fault.stop (fun t => deliver_eq (s := t) (c := c) body hlt pending)
          (List.range numSignals)
      simp only [ctxAt, if_pos hlt, ok_bind, unchecked, mapError_bind, hloop]
      rfl

end Checked

/-! ## Runs -/

/-- A pass of the loop of `pause` is made only for a process with a pid below 16. -/
def PauseInRange (s : Pausing) : PauseOp → Prop
  | .proc _ => True
  | .call _ _ => True
  | .dispatch _ => True
  | .pause => ∀ i, s.signals.procs.current = some i → (s.signals.procs.pool i).pid < 16
  | .wake i => i ∈ s.paused → (s.signals.procs.pool i).pid < 16

/-- No access of the step leaves `signal_contexts`. -/
def InBounds (body : Handlers) (fuel : ℕ) (s : Pausing) (op : PauseOp) : Prop :=
  ∀ i, pauseStep body fuel s op ≠ .error (.bounds i)

theorem unchecked_bind_inBounds {α β : Type} (x : Except Stop α) (f : α → β) (i : ℕ) :
    (unchecked x >>= fun a => pure (f a)) ≠ .error (.bounds i) := by
  cases x with
  | error e =>
    intro h
    cases h
  | ok a =>
    intro h
    cases h

theorem pausePass_inBounds_iff {current : Slot} {s : Pausing} :
    (∀ i, pausePass current s ≠ .error (.bounds i)) ↔ (s.signals.procs.pool current).pid < 16 := by
  unfold pausePass Checked.pauseTest Checked.ctxAt
  by_cases h : (s.signals.procs.pool current).pid < 16
  · simp [h]
  · simp [h]

theorem pauseStep_inBounds_iff {body : Handlers} {fuel : ℕ} {s : Pausing} {op : PauseOp} :
    InBounds body fuel s op ↔ PauseInRange s op := by
  unfold InBounds
  cases op with
  | proc op => exact iff_of_true (unchecked_bind_inBounds _ _) trivial
  | call task call =>
    rw [pauseStep, Checked.sigCall_eq]
    exact iff_of_true (unchecked_bind_inBounds _ _) trivial
  | dispatch task =>
    rw [pauseStep, Checked.signalDispatch_eq]
    exact iff_of_true (unchecked_bind_inBounds _ _) trivial
  | pause =>
    simp only [pauseStep, pause, PauseInRange, processCurrent]
    cases hc : s.signals.procs.current with
    | none => simp
    | some current => simp [pausePass_inBounds_iff]
  | wake current =>
    simp only [pauseStep, PauseInRange]
    by_cases hp : current ∈ s.paused
    · simp [hp, pausePass_inBounds_iff]
    · simp [hp]

/-- **In a run of process and signal calls every access to `signal_contexts` is in bounds, exactly when
every pass of the loop of `pause` is made for a process whose pid is below 16.** -/
theorem signal_accesses_in_bounds_iff (body : Handlers) (fuel : ℕ) (s₀ : Signals) (ops : List PauseOp) :
    AllSteps (pauseStep body fuel) (initPausing s₀) (InBounds body fuel) ops ↔
      AllSteps (pauseStep body fuel) (initPausing s₀) PauseInRange ops := by
  unfold AllSteps
  simp only [pauseStep_inBounds_iff]

/-- The last of fifteen processes ends and is reaped, the process that takes its slot has pid 16, and is
scheduled: `pause` then reads `signal_contexts[16]`. -/
theorem process_16_pause_out_of_bounds :
    ¬ AllSteps (pauseStep (fun _ _ => []) 16) (initPausing (bootSignals (bootProcs 0)))
      (InBounds (fun _ _ => []) 16)
      (List.replicate 15 (.proc (.create [97] 0x1000 1 0)) ++
        [.proc (.exit 15), .proc (.schedule 0 0), .proc (.create [97] 0x1000 2 0), .proc (.schedule 0 0)] ++
        [.pause]) := by
  intro h
  have hend : Returns (run (pauseStep (fun _ _ => []) 16) (initPausing (bootSignals (bootProcs 0)))
      (List.replicate 15 (.proc (.create [97] 0x1000 1 0)) ++
        [.proc (.exit 15), .proc (.schedule 0 0), .proc (.create [97] 0x1000 2 0), .proc (.schedule 0 0)])) fun s =>
      s.signals.procs.current = some 15 ∧ (s.signals.procs.pool 15).pid = 16 := by
    decide +kernel
  obtain ⟨s, hr, hcur, hpid⟩ := hend
  have hlt := pauseStep_inBounds_iff.mp (h _ .pause List.prefix_rfl s hr) 15 hcur
  rw [hpid] at hlt
  exact absurd hlt (by decide)

end RtosKernel
