import RtosKernel.Basic

/-!
# The timer (`timer.c`)

A tick counter, the frequency that `init_timer` sets, and an array of at most eight callbacks that every
tick calls in turn. A callback is a function pointer; what it does to the timer is a list of
registrations and unregistrations (`Callbacks`), what it does elsewhere is not part of this model.

Left out: the programming of the PIT.
-/

namespace RtosKernel

/-- `TIMER_MAX_CALLBACKS`. -/
def timerMaxCallbacks : ℕ := 8

/-- The address of a callback function. -/
abbrev Callback := ℕ

/-- The static data of `timer.c`; a null callback pointer is `none`. -/
structure Timer where
  timerTicks : UInt32
  timerFreqHz : UInt32
  callbacks : ℕ → Option Callback
  cbCount : ℕ
  cbCount_le : cbCount ≤ timerMaxCallbacks

/-- The static data at boot. -/
def bootTimer : Timer where
  timerTicks := 0
  timerFreqHz := 100
  callbacks _ := none
  cbCount := 0
  cbCount_le := Nat.zero_le _

/-- `init_timer`, as far as the data of `timer.c` goes. It does not reset the tick counter. -/
def initTimer (frequency : UInt32) (t : Timer) : Timer where
  timerTicks := t.timerTicks
  timerFreqHz := frequency
  callbacks _ := none
  cbCount := 0
  cbCount_le := Nat.zero_le _

/-- `get_ticks()`. -/
def getTicks (t : Timer) : UInt32 := t.timerTicks

/-- `get_uptime_sec()`. A division by zero is zero here; `init_timer` sets the frequency. -/
def getUptimeSec (t : Timer) : UInt32 := t.timerTicks / t.timerFreqHz

/-! ## Callbacks -/

/-- `timer_register_callback`: its return value and the timer. -/
def timerRegisterCallback (cb : Option Callback) (t : Timer) : Int32 × Timer :=
  if h : t.cbCount < timerMaxCallbacks then
    (0, { t with callbacks := Function.update t.callbacks t.cbCount cb, cbCount := t.cbCount + 1, cbCount_le := h })
  else (-1, t)

/-- The loop that moves the entries behind position `i` down by one. -/
def shiftDown (i cbCount : ℕ) (a : ℕ → Option Callback) : ℕ → Option Callback :=
  (List.range' i (cbCount - 1 - i)).foldl (fun a j => Function.update a j (a (j + 1))) a

/-- `timer_unregister_callback(cb)`: the entries behind the first one that is `cb` move down by one. -/
def timerUnregisterCallback (cb : Option Callback) (t : Timer) : Timer :=
  match (List.range t.cbCount).find? fun i => t.callbacks i = cb with
  | none => t
  | some i => { t with
      callbacks := Function.update (shiftDown i t.cbCount t.callbacks) (t.cbCount - 1) none
      cbCount := t.cbCount - 1
      cbCount_le := (Nat.sub_le _ _).trans t.cbCount_le }

/-- A call of the callback API. -/
inductive TimerCall where
  | register (cb : Option Callback)
  | unregister (cb : Option Callback)

/-- A call of a callback, or of a task. -/
def timerCall (t : Timer) : TimerCall → Timer
  | .register cb => (timerRegisterCallback cb t).2
  | .unregister cb => timerUnregisterCallback cb t

/-- What each callback function does to the timer when it is called. -/
abbrev Callbacks := Callback → List TimerCall

/-- The loop of `timer_irq_callback` from index `i` on, for at most `n` passes: the timer and the
callbacks that were called. The bound `cb_count` is read again in every pass. -/
def serveCallbacks (body : Callbacks) : ℕ → ℕ → Timer → Timer × List Callback
  | 0, _, t => (t, [])
  | n + 1, i, t =>
    if i < t.cbCount then
      match t.callbacks i with
      | none => serveCallbacks body n (i + 1) t
      | some cb =>
        let r := serveCallbacks body n (i + 1) ((body cb).foldl timerCall t)
        (r.1, cb :: r.2)
    else (t, [])

/-- `timer_irq_callback`. As `cb_count` is at most eight, so is the number of passes. -/
def timerIrqCallback (body : Callbacks) (t : Timer) : Timer × List Callback :=
  serveCallbacks body timerMaxCallbacks 0 { t with timerTicks := t.timerTicks + 1 }

/-! ## Registrations

What the array is for: the callbacks that are registered, in the order of their registrations. -/

/-- A registration of a callback; its number tells it from others of the same callback. -/
structure Occurrence where
  id : ℕ
  cb : Option Callback
  deriving DecidableEq

/-- The registrations, with the number of the next one. -/
structure Registry where
  entries : List Occurrence
  next : ℕ
  sorted : entries.Pairwise fun o o' => o.id < o'.id
  below : ∀ o ∈ entries, o.id < next
  length_le : entries.length ≤ timerMaxCallbacks

namespace Registry

/-- No callback is registered. -/
def empty : Registry where
  entries := []
  next := 0
  sorted := List.Pairwise.nil
  below := by simp
  length_le := Nat.zero_le _

/-- A new entry at the end, if there is space. -/
def register (cb : Option Callback) (r : Registry) : Registry :=
  if h : r.entries.length < timerMaxCallbacks then
    { entries := r.entries ++ [⟨r.next, cb⟩]
      next := r.next + 1
      sorted := List.pairwise_append.mpr ⟨r.sorted, List.pairwise_singleton .., by simpa using r.below⟩
      below := by
        intro o ho
        rcases List.mem_append.mp ho with ho | ho
        · exact (r.below o ho).trans (Nat.lt_succ_self _)
        · rw [List.mem_singleton.mp ho]
          exact Nat.lt_succ_self _
      length_le := by simpa using h }
  else r

/-- The first registration of the callback is removed. -/
def unregister (cb : Option Callback) (r : Registry) : Registry where
  entries := r.entries.eraseP fun o => o.cb = cb
  next := r.next
  sorted := r.sorted.sublist List.eraseP_sublist
  below o ho := r.below o (List.eraseP_sublist.subset ho)
  length_le := List.eraseP_sublist.length_le.trans r.length_le

/-- The calls, on the registry. -/
def call (r : Registry) : TimerCall → Registry
  | .register cb => r.register cb
  | .unregister cb => r.unregister cb

end Registry

/-- What the call of each registered callback does to the timer in one tick. -/
abbrev Behaviour := Occurrence → List TimerCall

/-- The loop of `timer_irq_callback` as in `serveCallbacks`, with the registrations beside the timer: a call is that
of the registration at the index, and may do what others of the same callback do not. -/
def serveOccurrences (does : Behaviour) : ℕ → ℕ → Timer → Registry → (Timer × Registry) × List Occurrence
  | 0, _, t, r => ((t, r), [])
  | n + 1, i, t, r =>
    if i < t.cbCount then
      match t.callbacks i with
      | none => serveOccurrences does n (i + 1) t r
      | some cb =>
        let o := r.entries.getD i ⟨r.next, some cb⟩
        let q := serveOccurrences does n (i + 1) ((does o).foldl timerCall t) ((does o).foldl Registry.call r)
        (q.1, o :: q.2)
    else ((t, r), [])

/-! ## Waiting -/

/-- An interrupt that ends a `hlt`: a timer interrupt, with what its callbacks do, or another one, with the calls
that its handler makes. -/
inductive Wake where
  | irq0 (body : Callbacks)
  | other (calls : List TimerCall)

/-- An interrupt, or calls between two interrupts. -/
def wake (t : Timer) : Wake → Timer
  | .irq0 body => (timerIrqCallback body t).1
  | .other calls => calls.foldl timerCall t

/-- `ticks_needed` of `timer_wait_ms`. -/
def ticksNeeded (ms : UInt32) (t : Timer) : UInt32 :=
  let needed := ms * t.timerFreqHz / 1000
  if needed = 0 then 1 else needed

/-- The loop of `timer_wait_ms`, which halts in each pass until the next interrupt, where interrupts are taken: the
timer when it ends, or nothing if it still waits after these interrupts. -/
def waitLoop (needed start : UInt32) : Timer → List Wake → Option Timer
  | t, [] => if t.timerTicks - start < needed then none else some t
  | t, w :: ws => if t.timerTicks - start < needed then waitLoop needed start (wake t w) ws else some t

/-- `timer_wait_ms`, with the interrupts that come after its call. -/
def timerWaitMs (ms : UInt32) (t : Timer) (wakes : List Wake) : Option Timer :=
  waitLoop (ticksNeeded ms t) t.timerTicks t wakes

end RtosKernel
