import RtosKernel.Lib.WordBits
import RtosKernel.Mutex
import RtosKernel.Process

/-!
# Signals (`signal.c`)

Each process with a pid below 16 has a context: its handlers and the sets of its pending and blocked
signals, all under `signal_lock`. A handler is an address, with 0 for `SIG_DFL` and 1 for `SIG_IGN`; what
the other handlers do is the processes' own code, given as the signal calls that they make. Log messages
are left out.
-/

namespace RtosKernel

open Lib

/-- `NUM_SIGNALS`. -/
def numSignals : ℕ := 32

/-- `SIGKILL`. -/
def sigKill : ℕ := 9

/-- `SIGTERM`. -/
def sigTerm : ℕ := 14

/-- `SIGSTOP`. -/
def sigStop : ℕ := 19

/-- `SIG_DFL`. -/
def sigDfl : UInt32 := 0

/-- `SIG_IGN`. -/
def sigIgn : UInt32 := 1

/-- `signal_ctx_t`. -/
structure SignalCtx where
  handlers : ℕ → UInt32
  pending : UInt32
  blocked : UInt32

/-- The static data of `signal.c`, with the process table. `contexts i` is `signal_contexts[i]` for `i`
below 16. -/
structure Signals where
  procs : Procs
  contexts : ℕ → SignalCtx
  lock : Mutex

/-- `signal_init_ctx`. -/
def signalInitCtx : SignalCtx := { handlers := fun _ => sigDfl, pending := 0, blocked := 0 }

/-- `signal_init()`. -/
def signalInit (s : Signals) : Signals :=
  { s with lock := mutexInit, contexts := fun i => if i < 16 then signalInitCtx else s.contexts i }

/-- `mutex_lock(&signal_lock)`, a change of one context, `mutex_unlock(&signal_lock)`. -/
def changeCtx (c : Caller) (pid : UInt32) (f : SignalCtx → SignalCtx) (s : Signals) :
    Except Stop Signals := do
  let mx ← mutexLock c s.lock
  let contexts := Function.update s.contexts pid.toNat (f (s.contexts pid.toNat))
  pure { s with contexts := contexts, lock := mutexUnlock c.task mx }

/-- `signal`: the handler that was there, or `SIG_DFL`. -/
def signal (c : Caller) (signum : ℤ) (handler : UInt32) (s : Signals) : Except Stop (UInt32 × Signals) :=
  if signum < 0 ∨ signum ≥ numSignals then pure (sigDfl, s)
  else if signum = sigKill ∨ signum = sigStop then pure (sigDfl, s)
  else
    match processCurrent s.procs with
    | none => pure (sigDfl, s)
    | some current => do
      let pid := (s.procs.pool current).pid
      if pid ≥ 16 then pure (sigDfl, s)
      else
        let old := (s.contexts pid.toNat).handlers signum.toNat
        let s ← changeCtx c pid (fun ctx => { ctx with
          handlers := Function.update ctx.handlers signum.toNat (if handler ≠ 0 then handler else sigDfl) }) s
        pure (old, s)

/-- `kill(pid, signum)`. A blocked signal is marked pending like any other. -/
def kill (c : Caller) (pid : UInt32) (signum : ℤ) (s : Signals) : Except Stop (ErrorT × Signals) :=
  if signum < 0 ∨ signum ≥ numSignals then pure (.inval, s)
  else if pid ≥ 16 then pure (.inval, s)
  else
    match processGet pid s.procs with
    | none => pure (.noent, s)
    | some _ => do
      let s ← changeCtx c pid (fun ctx => { ctx with pending := ctx.pending ||| bitMask signum.toNat }) s
      pure (.ok, s)

/-- `raise(signum)`. -/
def raise (c : Caller) (signum : ℤ) (s : Signals) : Except Stop (ErrorT × Signals) :=
  match processCurrent s.procs with
  | none => pure (.inval, s)
  | some current => kill c (s.procs.pool current).pid signum s

/-- The bodies of `sigblock` and `sigunblock`, which differ in the change of the mask. -/
def changeBlocked (c : Caller) (f : UInt32 → UInt32) (s : Signals) : Except Stop (ErrorT × Signals) :=
  match processCurrent s.procs with
  | none => pure (.inval, s)
  | some current => do
    let pid := (s.procs.pool current).pid
    if pid ≥ 16 then pure (.inval, s)
    else
      let s ← changeCtx c pid (fun ctx => { ctx with blocked := f ctx.blocked }) s
      pure (.ok, s)

/-- `sigblock(mask)`; the mask may have any bit. -/
def sigblock (c : Caller) (mask : UInt32) : Signals → Except Stop (ErrorT × Signals) :=
  changeBlocked c (· ||| mask)

/-- `sigunblock(mask)`. -/
def sigunblock (c : Caller) (mask : UInt32) : Signals → Except Stop (ErrorT × Signals) :=
  changeBlocked c (· &&& ~~~ mask)

/-- A call of the signal API. -/
inductive SigCall where
  | signal (signum : ℤ) (handler : UInt32)
  | kill (pid : UInt32) (signum : ℤ)
  | raise (signum : ℤ)
  | sigblock (mask : UInt32)
  | sigunblock (mask : UInt32)

/-- A call, for its effect on the state. -/
def sigCall (c : Caller) (s : Signals) : SigCall → Except Stop Signals
  | .signal signum handler => do
    let (_, s) ← signal c signum handler s
    pure s
  | .kill pid signum => do
    let (_, s) ← kill c pid signum s
    pure s
  | .raise signum => do
    let (_, s) ← raise c signum s
    pure s
  | .sigblock mask => do
    let (_, s) ← sigblock c mask s
    pure s
  | .sigunblock mask => do
    let (_, s) ← sigunblock c mask s
    pure s

/-- The calls that the handler at an address makes when it is called with a signal number. -/
abbrev Handlers := UInt32 → ℕ → List SigCall

/-- `default_signal_handler(signum)`: `SIGTERM` and `SIGKILL` end the current process. -/
def defaultSignalHandler (signum : ℕ) (s : Signals) : Except Stop Signals :=
  if signum = sigTerm ∨ signum = sigKill then
    match processCurrent s.procs with
    | none => .error .null
    | some current => pure { s with procs := processExit (s.procs.pool current).pid s.procs }
  else pure s

/-- The call of the handler of a signal in `signal_dispatch`. -/
def callHandler (body : Handlers) (c : Caller) (handler : UInt32) (sig : ℕ) (s : Signals) :
    Except Stop Signals :=
  if handler ≠ 0 ∧ handler ≠ sigIgn then (body handler sig).foldlM (sigCall c) s
  else if handler = sigDfl then defaultSignalHandler sig s
  else pure s

/-- One pass of the loop of `signal_dispatch`, with the signals that were pending and not blocked at its
start. -/
def deliver (body : Handlers) (c : Caller) (pid pending : UInt32) (s : Signals) (sig : ℕ) :
    Except Stop Signals :=
  if HasBit pending sig then do
    let ctx := s.contexts pid.toNat
    let handler := ctx.handlers sig
    let ctx' := { ctx with pending := ctx.pending &&& ~~~ bitMask sig }
    let s := { s with
      contexts := Function.update s.contexts pid.toNat ctx', lock := mutexUnlock c.task s.lock }
    let s ← callHandler body c handler sig s
    let mx ← mutexLock c s.lock
    pure { s with lock := mx }
  else pure s

/-- `signal_dispatch()`. Which signals are delivered is settled at its start. -/
def signalDispatch (body : Handlers) (c : Caller) (s : Signals) : Except Stop Signals :=
  match processCurrent s.procs with
  | none => pure s
  | some current => do
    let pid := (s.procs.pool current).pid
    if pid ≥ 16 then pure s
    else
      let mx ← mutexLock c s.lock
      let ctx := s.contexts pid.toNat
      let s ← (List.range numSignals).foldlM (deliver body c pid (ctx.pending &&& ~~~ ctx.blocked))
        { s with lock := mx }
      pure { s with lock := mutexUnlock c.task s.lock }

/-! ## Runs -/

/-- The static data at boot, with the process table `p`. -/
def bootSignals (p : Procs) : Signals :=
  { procs := p, contexts := fun _ => { handlers := fun _ => 0, pending := 0, blocked := 0 }, lock := mutexInit }

/-- A signal call, with the process that is current at the call and the task that runs it. -/
structure SigOp where
  who : Slot
  task : Caller
  call : SigCall

/-- The process table with `who` as the current process. -/
def Signals.as (s : Signals) (who : Slot) : Signals := { s with procs := { s.procs with current := some who } }

/-- A call of some process. -/
def sigStep (fuel : ℕ) (s : Signals) (op : SigOp) : Except Stop Signals :=
  sigCall (op.task.withFuel fuel) (s.as op.who) op.call

/-! ## Runs with the process table -/

/-- A call of the process API, a signal call of the current process, or a dispatch. -/
inductive ProcSigOp where
  | proc (op : ProcOp)
  | call (task : Caller) (call : SigCall)
  | dispatch (task : Caller)

/-- A call, or a dispatch with the handlers `body`. -/
def procSigStep (body : Handlers) (fuel : ℕ) (s : Signals) : ProcSigOp → Except Stop Signals
  | .proc op => do
    let p ← procStep fuel s.procs op
    pure { s with procs := p }
  | .call task call => sigCall (task.withFuel fuel) s call
  | .dispatch task => signalDispatch body (task.withFuel fuel) s

/-- `process_init` and `signal_init`. -/
def initSignals (s : Signals) : Signals := signalInit { s with procs := processInit s.procs }

/-! ## The deliveries of a dispatch -/

/-- What happens in a dispatch: a signal is taken, with the handler that is registered for it then; a handler is
run, the default one included; the handler makes a call. -/
inductive SigEvent where
  | taken (sig : ℕ) (handler : UInt32)
  | ran (sig : ℕ) (handler : UInt32)
  | call (call : SigCall)

/-- The signal that is taken, with its handler. -/
def SigEvent.takes : SigEvent → Option (ℕ × UInt32)
  | .taken sig handler => some (sig, handler)
  | _ => none

/-- The signal whose handler is run, with the handler. -/
def SigEvent.runs : SigEvent → Option (ℕ × UInt32)
  | .ran sig handler => some (sig, handler)
  | _ => none

/-- The events of `callHandler`. -/
def handlerEvents (body : Handlers) (handler : UInt32) (sig : ℕ) : List SigEvent :=
  if handler ≠ 0 ∧ handler ≠ sigIgn then .ran sig handler :: (body handler sig).map .call
  else if handler = sigDfl then [.ran sig handler]
  else []

/-- `deliver`, with the events so far. -/
def deliverEvents (body : Handlers) (c : Caller) (pid pending : UInt32) (d : Signals × List SigEvent) (sig : ℕ) :
    Except Stop (Signals × List SigEvent) := do
  let s ← deliver body c pid pending d.1 sig
  let handler := (d.1.contexts pid.toNat).handlers sig
  pure (s, d.2 ++ if HasBit pending sig then .taken sig handler :: handlerEvents body handler sig else [])

/-- `signal_dispatch`, with its events. -/
def dispatchEvents (body : Handlers) (c : Caller) (s : Signals) : Except Stop (Signals × List SigEvent) :=
  match processCurrent s.procs with
  | none => pure (s, [])
  | some current => do
    let pid := (s.procs.pool current).pid
    if pid ≥ 16 then pure (s, [])
    else
      let mx ← mutexLock c s.lock
      let ctx := s.contexts pid.toNat
      let (s, events) ← (List.range numSignals).foldlM
        (deliverEvents body c pid (ctx.pending &&& ~~~ ctx.blocked)) ({ s with lock := mx }, [])
      pure ({ s with lock := mutexUnlock c.task s.lock }, events)

/-- The signals that a dispatch finds for the process: pending and not blocked. -/
def deliverable (s : Signals) (pid : UInt32) : UInt32 :=
  (s.contexts pid.toNat).pending &&& ~~~ (s.contexts pid.toNat).blocked

/-- The handlers after an event: a call of `signal` registers one. -/
def registerEvent (handlers : ℕ → UInt32) : SigEvent → ℕ → UInt32
  | .call (.signal signum handler) =>
    if (0 ≤ signum ∧ signum < numSignals) ∧ ¬ (signum = sigKill ∨ signum = sigStop) then
      Function.update handlers signum.toNat handler
    else handlers
  | _ => handlers

/-- The handlers of the process after these events of a dispatch from `s`. -/
def registered (s : Signals) (pid : UInt32) (events : List SigEvent) : ℕ → UInt32 :=
  events.foldl registerEvent (s.contexts pid.toNat).handlers

/-- The number of the signal that a call sends to the process itself. -/
def SigCall.sends (pid : UInt32) : SigCall → Option ℤ
  | .raise signum => some signum
  | .kill target signum => if target = pid then some signum else none
  | _ => none

/-- The call makes the signal pending for the process, if it is in the process table. -/
def Raises (s : Signals) (pid : UInt32) (sig : ℕ) (call : SigCall) : Prop :=
  processGet pid s.procs ≠ none ∧ call.sends pid = some (sig : ℤ)

/-- From `s`, a dispatch for the process takes the deliverable signals, each once and in their order, with the
handler that is registered then, and runs it unless it is `SIG_IGN`. Afterwards pending are the signals that
were blocked, and those that were raised after they had been taken or that were not deliverable. -/
structure DeliversExactly (s : Signals) (pid : UInt32) (s' : Signals) (events : List SigEvent) : Prop where
  taken : (events.filterMap SigEvent.takes).map Prod.fst =
    (List.range 32).filter fun sig => HasBit (deliverable s pid) sig
  registered : ∀ before sig handler after, events = before ++ .taken sig handler :: after →
    handler = registered s pid before sig
  ran : events.filterMap SigEvent.runs = (events.filterMap SigEvent.takes).filter fun t => t.2 ≠ sigIgn
  pending : ∀ sig < 32, HasBit (s'.contexts pid.toNat).pending sig ↔
    (HasBit (s.contexts pid.toNat).pending sig ∧ HasBit (s.contexts pid.toNat).blocked sig) ∨
    ∃ before call after, events = before ++ .call call :: after ∧ Raises s pid sig call ∧
      ((∃ handler, .taken sig handler ∈ before) ∨ ¬ HasBit (deliverable s pid) sig)

end RtosKernel
