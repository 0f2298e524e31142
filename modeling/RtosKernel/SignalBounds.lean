import RtosKernel.Signal

/-!
# Signals with checked accesses (`signal.c`)

The functions of `signal.c` again, with every access to `signal_contexts` checked against the length of
the array: an access outside it ends the call with `Fault.bounds`. `pause` is here because it reads the
array without `signal_lock` and without a look at the pid; its loop is followed pass by pass, since other
calls run while it halts.
-/

namespace RtosKernel

open Lib

/-- Why a call with checked accesses has not returned. -/
inductive Fault where
  /-- As in the plain model. -/
  | stop (e : Stop)
  /-- `signal_contexts[i]` with `i` outside the array. -/
  | bounds (i : ℕ)
  deriving DecidableEq, Repr

/-- A call that does not touch `signal_contexts`. -/
def unchecked {α : Type} (x : Except Stop α) : Except Fault α := x.mapError Fault.stop

namespace Checked

/-- A read of `signal_contexts[i]`. -/
def ctxAt (s : Signals) (i : UInt32) : Except Fault SignalCtx :=
  if i < 16 then .ok (s.contexts i.toNat) else .error (.bounds i.toNat)

/-- A store to `signal_contexts[i]`. -/
def setCtx (s : Signals) (i : UInt32) (ctx : SignalCtx) : Except Fault Signals :=
  if i < 16 then .ok { s with contexts := Function.update s.contexts i.toNat ctx } else .error (.bounds i.toNat)

/-- `mutex_lock(&signal_lock)`, a change of one context, `mutex_unlock(&signal_lock)`: the context before
the change, and the new state. -/
def changeCtx (c : Caller) (pid : UInt32) (f : SignalCtx → SignalCtx) (s : Signals) :
    Except Fault (SignalCtx × Signals) := do
  let mx ← unchecked (mutexLock c s.lock)
  let ctx ← ctxAt s pid
  let s ← setCtx s pid (f ctx)
  pure (ctx, { s with lock := mutexUnlock c.task mx })

/-- `signal(signum, handler)`, with its accesses checked. -/
def signal (c : Caller) (signum : ℤ) (handler : UInt32) (s : Signals) : Except Fault (UInt32 × Signals) :=
  if signum < 0 ∨ signum ≥ numSignals then pure (sigDfl, s)
  else if signum = sigKill ∨ signum = sigStop then pure (sigDfl, s)
  else
    match processCurrent s.procs with
    | none => pure (sigDfl, s)
    | some current => do
      let pid := (s.procs.pool current).pid
      if pid ≥ 16 then pure (sigDfl, s)
      else
        let (old, s) ← changeCtx c pid (fun ctx => { ctx with
          handlers := Function.update ctx.handlers signum.toNat (if handler ≠ 0 then handler else sigDfl) }) s
        pure (old.handlers signum.toNat, s)

/-- `kill(pid, signum)`, with its accesses checked. -/
def kill (c : Caller) (pid : UInt32) (signum : ℤ) (s : Signals) : Except Fault (ErrorT × Signals) :=
  if signum < 0 ∨ signum ≥ numSignals then pure (.inval, s)
  else if pid ≥ 16 then pure (.inval, s)
  else
    match processGet pid s.procs with
    | none => pure (.noent, s)
    | some _ => do
      let (_, s) ← changeCtx c pid (fun ctx => { ctx with pending := ctx.pending ||| bitMask signum.toNat }) s
      pure (.ok, s)

/-- `raise(signum)`, with its accesses checked. -/
def raise (c : Caller) (signum : ℤ) (s : Signals) : Except Fault (ErrorT × Signals) :=
  match processCurrent s.procs with
  | none => pure (.inval, s)
  | some current => kill c (s.procs.pool current).pid signum s

/-- The bodies of `sigblock` and `sigunblock`, which differ in the change of the mask. -/
def changeBlocked (c : Caller) (f : UInt32 → UInt32) (s : Signals) : Except Fault (ErrorT × Signals) :=
  match processCurrent s.procs with
  | none => pure (.inval, s)
  | some current => do
    let pid := (s.procs.pool current).pid
    if pid ≥ 16 then pure (.inval, s)
    else
      let (_, s) ← changeCtx c pid (fun ctx => { ctx with blocked := f ctx.blocked }) s
      pure (.ok, s)

/-- `sigblock(mask)`, with its accesses checked. -/
def sigblock (c : Caller) (mask : UInt32) : Signals → Except Fault (ErrorT × Signals) :=
  changeBlocked c (· ||| mask)

/-- `sigunblock(mask)`, with its accesses checked. -/
def sigunblock (c : Caller) (mask : UInt32) : Signals → Except Fault (ErrorT × Signals) :=
  changeBlocked c (· &&& ~~~ mask)

/-- A call with checked accesses, for its effect on the state. -/
def sigCall (c : Caller) (s : Signals) : SigCall → Except Fault Signals
  | .signal signum handler => do
    let (_, s) ← signal c signum handler s
    pure s
  | .kill pid signum => do
    let (_, s) ← kill c pid signum s
    pure s
  | .raise signum => do
    let (_, s) ← raise c signum s
    pure s
  | .sigblock mask => do
    let (_, s) ← sigblock c mask s
    pure s
  | .sigunblock mask => do
    let (_, s) ← sigunblock c mask s
    pure s

/-- The call of the handler of a signal in `signal_dispatch`. -/
def callHandler (body : Handlers) (c : Caller) (handler : UInt32) (sig : ℕ) (s : Signals) :
    Except Fault Signals :=
  if handler ≠ 0 ∧ handler ≠ sigIgn then (body handler sig).foldlM (sigCall c) s
  else if handler = sigDfl then unchecked (defaultSignalHandler sig s)
  else pure s

/-- One pass of the loop of `signal_dispatch`. `ctx` is `&signal_contexts[pid]`, with the pid at its
start. -/
def deliver (body : Handlers) (c : Caller) (pid pending : UInt32) (s : Signals) (sig : ℕ) :
    Except Fault Signals :=
  if HasBit pending sig then do
    let ctx ← ctxAt s pid
    let s ← setCtx s pid { ctx with pending := ctx.pending &&& ~~~ bitMask sig }
    let s ← callHandler body c (ctx.handlers sig) sig { s with lock := mutexUnlock c.task s.lock }
    let mx ← unchecked (mutexLock c s.lock)
    pure { s with lock := mx }
  else pure s

/-- `signal_dispatch()`, with its accesses checked. -/
def signalDispatch (body : Handlers) (c : Caller) (s : Signals) : Except Fault Signals :=
  match processCurrent s.procs with
  | none => pure s
  | some current => do
    let pid := (s.procs.pool current).pid
    if pid ≥ 16 then pure s
    else
      let mx ← unchecked (mutexLock c s.lock)
      let ctx ← ctxAt s pid
      let s ← (List.range numSignals).foldlM (deliver body c pid (ctx.pending &&& ~~~ ctx.blocked))
        { s with lock := mx }
      pure { s with lock := mutexUnlock c.task s.lock }

/-- The test of the loop of `pause` for the process in slot `current`: whether a signal is there for it. -/
def pauseTest (current : Slot) (s : Signals) : Except Fault Bool := do
  let pending ← ctxAt s (s.procs.pool current).pid
  let blocked ← ctxAt s (s.procs.pool current).pid
  pure (pending.pending &&& ~~~ blocked.blocked ≠ 0)

end Checked

/-! ## Runs -/

/-- The signals, and the processes that are in the loop of `pause`. -/
structure Pausing where
  signals : Signals
  paused : List Slot

/-- One pass of the loop of `pause`: it returns if a signal is there, and otherwise halts. -/
def pausePass (current : Slot) (s : Pausing) : Except Fault Pausing := do
  let found ← Checked.pauseTest current s.signals
  pure (if found then { s with paused := s.paused.erase current } else s)

/-- The call of `pause`, up to its first `hlt`. With no current process it returns `E_INVAL`. -/
def pause (s : Pausing) : Except Fault Pausing :=
  match processCurrent s.signals.procs with
  | none => pure s
  | some current => pausePass current { s with paused := current :: s.paused }

/-- A call of the process or signal API, or the next pass of a `pause` when its `hlt` has returned. -/
inductive PauseOp where
  | proc (op : ProcOp)
  | call (task : Caller) (call : SigCall)
  | dispatch (task : Caller)
  | pause
  | wake (current : Slot)

/-- An operation, with the processes that are in `pause` afterwards. -/
def pauseStep (body : Handlers) (fuel : ℕ) (s : Pausing) : PauseOp → Except Fault Pausing
  | .proc op => do
    let p ← unchecked (procStep fuel s.signals.procs op)
    pure { s with signals := { s.signals with procs := p } }
  | .call task call => do
    let t ← Checked.sigCall (task.withFuel fuel) s.signals call
    pure { s with signals := t }
  | .dispatch task => do
    let t ← Checked.signalDispatch body (task.withFuel fuel) s.signals
    pure { s with signals := t }
  | .pause => pause s
  | .wake current => if current ∈ s.paused then pausePass current s else pure s

/-- After `process_init` and `signal_init`, before any call. -/
def initPausing (s : Signals) : Pausing := { signals := initSignals s, paused := [] }

end RtosKernel
