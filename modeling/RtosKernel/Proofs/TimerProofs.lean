import RtosKernel.Lib.LiveList
import RtosKernel.Proofs.ClockProofs

/-!
# The timer

The callback array holds what is registered, in order (`Registered`), whatever the calls of the API are and
wherever they are made. A tick serves the array by index while its callbacks may change it, so that a registration
may be passed over: it calls what is due if and only if no call moves a registration whose turn is still to come to
its own index or below (`callbacks_served_iff`).

`timer_wait_ms` compares the ticks since its call, a difference of wrapping counters, with the number of ticks that
it computes from its argument. The difference is right however the counter wraps, since it is looked at after every
interrupt (`waitLoop_isSome`); the number is right as long as the product of the milliseconds and the frequency fits
in 32 bits (`waitsExactly_iff`).
-/

namespace RtosKernel

open Lib

/-! ## The callbacks -/

section Callbacks

/-- `callbacks[0 .. cb_count)`. -/
def registeredCallbacks (t : Timer) : List (Option Callback) := (List.range t.cbCount).map t.callbacks

theorem registeredCallbacks_getElem? (t : Timer) (i : ℕ) :
    (registeredCallbacks t)[i]? = if i < t.cbCount then some (t.callbacks i) else none := by
  rw [registeredCallbacks, List.getElem?_map]
  split_ifs with h
  · rw [List.getElem?_range h]
    rfl
  · rw [List.getElem?_eq_none (by simpa using h)]
    rfl

theorem registeredCallbacks_register (cb : Option Callback) (t : Timer) :
    registeredCallbacks (timerRegisterCallback cb t).2 =
      if t.cbCount < timerMaxCallbacks then registeredCallbacks t ++ [cb] else registeredCallbacks t := by
  rw [timerRegisterCallback]
  split_ifs with h
  · show (List.range (t.cbCount + 1)).map (Function.update t.callbacks t.cbCount cb) = _
    rw [List.range_succ, List.map_append, List.map_singleton, Function.update_self, registeredCallbacks]
    congr 1
    apply List.map_congr_left
    intro j hj
    rw [Function.update_of_ne (List.mem_range.mp hj).ne]
  · rfl

/-- What the loop leaves behind position `i`. -/
theorem shiftDown_apply (i n : ℕ) (a : ℕ → Option Callback) (j : ℕ) :
    shiftDown i n a j = if i ≤ j ∧ j < n - 1 then a (j + 1) else a j := by
  have hfold (m : ℕ) : ∀ j, (List.range' i m).foldl (fun a j => Function.update a j (a (j + 1))) a j =
      if i ≤ j ∧ j < i + m then a (j + 1) else a j := by
    induction m with
    | zero =>
      intro j
      rw [if_neg (by omega)]
      rfl
    | succ m ih =>
      intro j
      rw [List.range'_1_concat, List.foldl_append, List.foldl_cons, List.foldl_nil, Function.update_apply]
      split_ifs with hj hin hin
      · rw [ih, if_neg (by omega), hj]
      · omega
      · rw [ih, if_pos (by omega)]
      · rw [ih, if_neg (by omega)]
  rw [shiftDown, hfold]
  apply if_congr _ rfl rfl
  omega

theorem registeredCallbacks_unregister (cb : Option Callback) (t : Timer) :
    registeredCallbacks (timerUnregisterCallback cb t) = (registeredCallbacks t).erase cb := by
  rw [timerUnregisterCallback]
  cases hfind : (List.range t.cbCount).find? fun i => t.callbacks i = cb with
  | none =>
    rw [List.erase_of_not_mem]
    intro hmem
    obtain ⟨i, hi, he⟩ := List.mem_map.mp hmem
    have := List.find?_range_eq_none.mp hfind i (List.mem_range.mp hi)
    simp [he] at this
  | some i =>
    obtain ⟨hcb, hi, hbefore⟩ := List.find?_range_eq_some.mp hfind
    rw [decide_eq_true_eq] at hcb
    rw [List.mem_range] at hi
    have hlen : i < (registeredCallbacks t).length := by simpa [registeredCallbacks] using hi
    have hidx : (registeredCallbacks t).idxOf cb = i := by
      show (registeredCallbacks t).findIdx (· == cb) = i
      rw [List.findIdx_eq hlen]
      simp only [registeredCallbacks, List.getElem_map, List.getElem_range]
      refine ⟨by simp [hcb], ?_⟩
      intro j hji
      simpa using hbefore j hji
    rw [List.erase_eq_eraseIdx_of_idxOf hidx]
    apply List.ext_getElem?
    intro j
    rw [registeredCallbacks_getElem?, List.getElem?_eraseIdx, registeredCallbacks_getElem?,
      registeredCallbacks_getElem?]
    simp only [Function.update_apply, shiftDown_apply]
    split_ifs <;> first | rfl | omega

/-- The array holds the registered callbacks in the order of their registrations. -/
def Registered (t : Timer) (r : Registry) : Prop := registeredCallbacks t = r.entries.map Occurrence.cb

section Registered

variable {t : Timer} {r : Registry}

theorem Registered.count (h : Registered t r) : t.cbCount = r.entries.length := by
  have hlen := congrArg List.length h
  simpa [registeredCallbacks] using hlen

theorem Registered.get (h : Registered t r) {i : ℕ} (hi : i < r.entries.length) :
    t.callbacks i = r.entries[i].cb := by
  have hget := congrArg (·[i]?) h
  simp only [registeredCallbacks_getElem?, List.getElem?_map, List.getElem?_eq_getElem hi, Option.map_some] at hget
  rw [if_pos (h.count ▸ hi)] at hget
  exact Option.some.inj hget

theorem timerCall_registered (h : Registered t r) (c : TimerCall) : Registered (timerCall t c) (r.call c) := by
  cases c with
  | register cb =>
    show registeredCallbacks (timerRegisterCallback cb t).2 = (r.register cb).entries.map Occurrence.cb
    rw [registeredCallbacks_register, h.count, h, Registry.register]
    split_ifs with hroom
    · rw [List.map_append]
      rfl
    · rfl
  | unregister cb =>
    show registeredCallbacks (timerUnregisterCallback cb t) = (r.unregister cb).entries.map Occurrence.cb
    have hsame : ((· == cb) ∘ Occurrence.cb) = fun o : Occurrence => decide (o.cb = cb) := by
      funext o
      exact beq_eq_decide ..
    rw [registeredCallbacks_unregister, h, List.erase_eq_eraseP', List.eraseP_map, hsame]
    rfl

theorem foldl_timerCall_registered (h : Registered t r) (cs : List TimerCall) :
    Registered (cs.foldl timerCall t) (cs.foldl Registry.call r) := by
  induction cs generalizing t r with
  | nil => exact h
  | cons c cs ih => exact ih (timerCall_registered h c)

end Registered

/-! ### One tick -/

/-- The calls of a registration that is called. -/
def callOccurrence (does : Behaviour) (o : Occurrence) (r : Registry) : Registry := (does o).foldl Registry.call r

/-- A null pointer is not called. -/
def Occurrence.callable (o : Occurrence) : Bool := o.cb.isSome

section Pass

variable (does : Behaviour) {t : Timer} {r : Registry} (h : Registered t r) {o : Occurrence} {cb : Callback} {n i : ℕ}

include h

theorem serveOccurrences_end (hi : r.entries[i]? = none) : serveOccurrences does (n + 1) i t r = ((t, r), []) := by
  rw [List.getElem?_eq_none_iff] at hi
  rw [serveOccurrences, if_neg (by rw [h.count]; exact not_lt.mpr hi)]

theorem serveOccurrences_null (hi : r.entries[i]? = some o) (ho : o.cb = none) :
    serveOccurrences does (n + 1) i t r = serveOccurrences does n (i + 1) t r := by
  obtain ⟨hlt, rfl⟩ := List.getElem?_eq_some_iff.mp hi
  rw [serveOccurrences, if_pos (by rw [h.count]; exact hlt), h.get hlt, ho]

theorem serveOccurrences_call (hi : r.entries[i]? = some o) (ho : o.cb = some cb) :
    serveOccurrences does (n + 1) i t r =
      ((serveOccurrences does n (i + 1) ((does o).foldl timerCall t) (callOccurrence does o r)).1,
        o :: (serveOccurrences does n (i + 1) ((does o).foldl timerCall t) (callOccurrence does o r)).2) := by
  obtain ⟨hlt, rfl⟩ := List.getElem?_eq_some_iff.mp hi
  rw [serveOccurrences, if_pos (by rw [h.count]; exact hlt), h.get hlt, ho]
  simp only [List.getD_eq_getElem?_getD, hi, Option.getD_some]
  rfl

end Pass

/-- The loop serves the registrations by index. -/
theorem serveOccurrences_eq (does : Behaviour) {t : Timer} {r : Registry} (h : Registered t r) (n i : ℕ) :
    Registered (serveOccurrences does n i t r).1.1 (serveOccurrences does n i t r).1.2 ∧
      (serveOccurrences does n i t r).2 =
        (serveByIndex Registry.entries (callOccurrence does) Occurrence.callable n i r).2 := by
  induction n generalizing i t r with
  | zero => exact ⟨h, rfl⟩
  | succ n ih =>
    cases hi : r.entries[i]? with
    | none =>
      rw [serveOccurrences_end does h hi, serveByIndex, hi]
      exact ⟨h, rfl⟩
    | some o =>
      cases hcb : o.cb with
      | none =>
        have hnull : ¬ o.callable := by simp [Occurrence.callable, hcb]
        rw [serveOccurrences_null does h hi hcb, serveByIndex_skip hi hnull]
        exact ih h (i + 1)
      | some cb =>
        have hcall : o.callable := by simp [Occurrence.callable, hcb]
        obtain ⟨hreg, he⟩ := ih (foldl_timerCall_registered h (does o)) (i + 1)
        rw [serveOccurrences_call does h hi hcb, serveByIndex_ready hi hcall]
        exact ⟨hreg, congrArg (o :: ·) he⟩

/-- If what a call does depends on the callback only, the loop is that of `timer_irq_callback`. -/
theorem serveOccurrences_eq_serveCallbacks (body : Callbacks) {t : Timer} {r : Registry} (h : Registered t r)
    (n i : ℕ) :
    let served := serveOccurrences (fun o => (o.cb.map body).getD []) n i t r
    served.1.1 = (serveCallbacks body n i t).1 ∧
      served.2.map Occurrence.cb = (serveCallbacks body n i t).2.map some := by
  induction n generalizing i t r with
  | zero => exact ⟨rfl, rfl⟩
  | succ n ih =>
    cases hi : r.entries[i]? with
    | none =>
      have hge : ¬ i < t.cbCount := by
        rw [h.count]
        exact not_lt.mpr (List.getElem?_eq_none_iff.mp hi)
      rw [serveOccurrences_end _ h hi, serveCallbacks, if_neg hge]
      exact ⟨rfl, rfl⟩
    | some o =>
      obtain ⟨hlt, ho⟩ := List.getElem?_eq_some_iff.mp hi
      have hcount : i < t.cbCount := by
        rw [h.count]
        exact hlt
      have hget : t.callbacks i = o.cb := by
        rw [h.get hlt, ho]
      rw [serveCallbacks, if_pos hcount, hget]
      cases hcb : o.cb with
      | none =>
        rw [serveOccurrences_null _ h hi hcb]
        exact ih h (i + 1)
      | some cb =>
        obtain ⟨htimer, hcalls⟩ := ih (foldl_timerCall_registered h (body cb)) (i + 1)
        rw [serveOccurrences_call _ h hi hcb]
        simp only [callOccurrence, List.map_cons, hcb]
        exact ⟨htimer, congrArg (some cb :: ·) hcalls⟩

/-! ### What is called -/

/-- From the registrations `r` some were removed and new ones appended. -/
def Registry.Changed (r r' : Registry) : Prop :=
  r.next ≤ r'.next ∧ ∃ kept added, kept.Sublist r.entries ∧ r'.entries = kept ++ added ∧ ∀ o ∈ added, r.next ≤ o.id

theorem Registry.Changed.of_sublist {r r' : Registry} (hnext : r.next ≤ r'.next) (h : r'.entries.Sublist r.entries) :
    r.Changed r' :=
  ⟨hnext, r'.entries, [], h, (List.append_nil _).symm, fun _ ho => absurd ho List.not_mem_nil⟩

theorem Registry.Changed.trans {r r' r'' : Registry} (h : r.Changed r') (h' : r'.Changed r'') : r.Changed r'' := by
  obtain ⟨hle, kept, added, hkept, he, hadded⟩ := h
  obtain ⟨hle', kept', added', hkept', he', hadded'⟩ := h'
  rw [he] at hkept'
  -- what is kept of both parts is kept of the first and added by the second
  obtain ⟨k₁, k₂, rfl, h₁, h₂⟩ := List.sublist_append_iff.mp hkept'
  refine ⟨hle.trans hle', k₁, k₂ ++ added', h₁.trans hkept, ?_, ?_⟩
  · rw [he', List.append_assoc]
  · intro o ho
    rcases List.mem_append.mp ho with ho | ho
    · exact hadded o (h₂.subset ho)
    · exact hle.trans (hadded' o ho)

theorem Registry.call_changed (r : Registry) (c : TimerCall) : r.Changed (r.call c) := by
  cases c with
  | register cb =>
    rw [Registry.call, Registry.register]
    split_ifs with hroom
    · exact ⟨Nat.le_succ _, r.entries, [⟨r.next, cb⟩], List.Sublist.refl _, rfl, by simp⟩
    · exact .of_sublist le_rfl (List.Sublist.refl _)
  | unregister cb => exact .of_sublist le_rfl List.eraseP_sublist

theorem Registry.foldl_changed (cs : List TimerCall) (r : Registry) : r.Changed (cs.foldl Registry.call r) := by
  induction cs generalizing r with
  | nil => exact .of_sublist le_rfl (List.Sublist.refl _)
  | cons c cs ih => exact (r.call_changed c).trans (ih (r.call c))

/-- The registrations from before the number `next`. -/
def isOld (next : ℕ) (o : Occurrence) : Bool := decide (o.id < next)

theorem served (does : Behaviour) (next : ℕ) :
    Served Registry.entries (callOccurrence does) (isOld next) fun r => next ≤ r.next where
  nodup {r} _ := r.sorted.imp fun hlt he => (he ▸ hlt).false
  first {r} _ := r.sorted.imp fun hlt hold => by
    rw [isOld, decide_eq_true_eq] at hold ⊢
    exact hlt.trans hold
  inv {r} o hle := hle.trans (Registry.foldl_changed (does o) r).1
  change {r} o hle := by
    obtain ⟨-, kept, added, hkept, he, hadded⟩ := Registry.foldl_changed (does o) r
    refine ⟨kept, added, hkept, he, ?_⟩
    intro x hx
    rw [isOld, decide_eq_true_eq, not_lt]
    exact hle.trans (hadded x hx)

/-! ### The run -/

/-- The timer and the registrations, and for the last tick, of the registrations from before it, those that were
called and those that were to be called. -/
structure CallbackRun where
  timer : Timer
  registry : Registry
  called : List Occurrence
  due : List Occurrence

/-- A call of the callback API, or a tick with what the callbacks do in it. -/
inductive CallbackOp where
  | call (c : TimerCall)
  | tick (does : Behaviour)

/-- The registrations whose turn comes in a tick: those that are not removed before it. -/
def dueIn (does : Behaviour) (r : Registry) : List Occurrence :=
  serveInTurn Registry.entries (callOccurrence does) Occurrence.callable r.entries r

/-- A call or a tick, with the registrations that a tick has called and those that were due. -/
def callbackStep (s : CallbackRun) : CallbackOp → Except Empty CallbackRun
  | .call c => .ok { timer := timerCall s.timer c, registry := s.registry.call c, called := [], due := [] }
  | .tick does =>
    let r := serveOccurrences does timerMaxCallbacks 0 { s.timer with timerTicks := s.timer.timerTicks + 1 } s.registry
    .ok {
      timer := r.1.1
      registry := r.1.2
      called := r.2.filter (isOld s.registry.next)
      due := dueIn does s.registry }

/-- `init_timer` registers nothing. -/
def callbackInit (frequency : UInt32) (t : Timer) : CallbackRun where
  timer := initTimer frequency t
  registry := Registry.empty
  called := []
  due := []

/-- The array holds what is registered, and the last tick called exactly once what was due in it. -/
structure CallbacksServed (s : CallbackRun) : Prop where
  count : s.timer.cbCount ≤ timerMaxCallbacks
  registered : Registered s.timer s.registry
  called : s.called = s.due
  once : s.called.Nodup

/-- In a tick every call leaves the registrations whose turn is still to come behind the index of the one that is
called. -/
def TickKeepsTurns (s : CallbackRun) : CallbackOp → Prop
  | .call _ => True
  | .tick does =>
    KeepsTurns Registry.entries (callOccurrence does) Occurrence.callable s.registry.entries s.registry

section Run

variable {s : CallbackRun} {does : Behaviour}

theorem tick_iff (h : Registered s.timer s.registry) :
    (serveOccurrences does timerMaxCallbacks 0 { s.timer with timerTicks := s.timer.timerTicks + 1 }
      s.registry).2.filter (isOld s.registry.next) = dueIn does s.registry ↔ TickKeepsTurns s (.tick does) := by
  have hold : ∀ o ∈ s.registry.entries, isOld s.registry.next o := by
    intro o ho
    rw [isOld, decide_eq_true_eq]
    exact s.registry.below o ho
  have htick : Registered { s.timer with timerTicks := s.timer.timerTicks + 1 } s.registry := h
  rw [(serveOccurrences_eq does htick timerMaxCallbacks 0).2]
  exact (served does s.registry.next).serveByIndex_iff (fun r _ => r.length_le) le_rfl hold

theorem dueIn_nodup (does : Behaviour) (r : Registry) : (dueIn does r).Nodup :=
  ((served does r.next).nodup le_rfl).sublist serveInTurn_sublist

/-- What a step keeps, and what it does under the condition. -/
theorem callbackStep_spec (h : CallbacksServed s) (op : CallbackOp) :
    ∃ s', callbackStep s op = .ok s' ∧ Registered s'.timer s'.registry ∧
      (s'.called = s'.due ↔ TickKeepsTurns s op) ∧ s'.due.Nodup := by
  cases op with
  | call c =>
    exact ⟨_, rfl, timerCall_registered h.registered c, iff_of_true rfl trivial, List.nodup_nil⟩
  | tick does =>
    have htick : Registered { s.timer with timerTicks := s.timer.timerTicks + 1 } s.registry := h.registered
    exact ⟨_, rfl, (serveOccurrences_eq does htick timerMaxCallbacks 0).1, tick_iff h.registered,
      dueIn_nodup does s.registry⟩

/-- **In every run of registrations, unregistrations and ticks, with any calls made by the callbacks, the array holds
the registered callbacks in order and every tick calls exactly once what is due in it, if and only if no callback
that is called moves a registration whose turn is still to come to its own index or below.** -/
theorem callbacks_served_iff (frequency : UInt32) (t : Timer) (ops : List CallbackOp) :
    Along callbackStep (callbackInit frequency t) CallbacksServed ops ↔
      AllSteps callbackStep (callbackInit frequency t) TickKeepsTurns ops := by
  apply along_iff_of_spec (I := CallbacksServed)
  · exact ⟨Nat.zero_le _, rfl, rfl, List.nodup_nil⟩
  · exact fun s h => h
  · intro s op h
    obtain ⟨s', hs', hreg, hcalled, hdue⟩ := callbackStep_spec h op
    refine ⟨s', hs', fun hC => ?_, fun hserved => hcalled.mp hserved.called⟩
    have he := hcalled.mpr hC
    exact ⟨s'.timer.cbCount_le, hreg, he, he ▸ hdue⟩

/-- Two callbacks, the first of which unregisters itself when it is called: the second is moved to the index that has
been served, and is not called. -/
theorem callback_after_self_removal_skipped :
    ¬ Along callbackStep (callbackInit 100 bootTimer) CallbacksServed
      [.call (.register (some 1)), .call (.register (some 2)),
        .tick fun o => if o.cb = some 1 then [.unregister (some 1)] else []] := by
  apply not_along_of_returns (Q := fun s => s.called.length = 1 ∧ s.due.length = 2)
  · decide +kernel
  · rintro s ⟨hcalled, hdue⟩ hs
    rw [hs.called, hdue] at hcalled
    exact absurd hcalled (by decide)

end Run

end Callbacks

/-! ## Waiting -/

section Waiting

/-- The interrupt is a tick. -/
def Wake.isTick : Wake → Bool
  | .irq0 _ => true
  | .other _ => false

/-- The number of ticks among the interrupts. -/
def tickCount (wakes : List Wake) : ℕ := wakes.countP Wake.isTick

/-- The number of ticks to wait for, over the integers. -/
def ticksToWait (ms freq : ℕ) : ℕ := max 1 (ms * freq / 1000)

theorem wake_ticks (t : Timer) (w : Wake) :
    (wake t w).timerTicks = if w.isTick then t.timerTicks + 1 else t.timerTicks := by
  cases w with
  | irq0 body => exact timerIrqCallback_ticks t
  | other calls => exact (foldl_timerCall_keeps calls t).1

/-- As long as the loop waits, the difference of the counters is the number of ticks since the start. -/
theorem wake_elapsed {t : Timer} {start needed : UInt32} (h : t.timerTicks - start < needed) (w : Wake) :
    ((wake t w).timerTicks - start).toNat = (t.timerTicks - start).toNat + tickCount [w] := by
  have hlt : (t.timerTicks - start).toNat < needed.toNat := UInt32.lt_iff_toNat_lt.mp h
  have hneeded : needed.toNat < 2 ^ 32 := needed.toNat_lt
  rw [wake_ticks, tickCount, List.countP_singleton]
  split_ifs with htick
  · have hnext : t.timerTicks + 1 - start = t.timerTicks - start + 1 := by
      rw [UInt32.sub_eq_add_neg, UInt32.sub_eq_add_neg, UInt32.add_assoc, UInt32.add_comm 1, UInt32.add_assoc]
    rw [hnext, UInt32.toNat_add]
    apply Nat.mod_eq_of_lt
    show (t.timerTicks - start).toNat + 1 < 2 ^ 32
    omega
  · rfl

theorem waitLoop_isSome {needed start : UInt32} {t : Timer} (h : (t.timerTicks - start).toNat ≤ needed.toNat)
    (wakes : List Wake) :
    (waitLoop needed start t wakes).isSome ↔ needed.toNat ≤ (t.timerTicks - start).toNat + tickCount wakes := by
  induction wakes generalizing t with
  | nil =>
    rw [waitLoop]
    split_ifs with hlt
    · rw [UInt32.lt_iff_toNat_lt] at hlt
      exact iff_of_false (by simp) (not_le.mpr hlt)
    · rw [UInt32.lt_iff_toNat_lt, not_lt] at hlt
      exact iff_of_true rfl hlt
  | cons w ws ih =>
    rw [waitLoop]
    split_ifs with hlt
    · have helapsed := wake_elapsed hlt w
      have hone : tickCount [w] ≤ 1 := List.countP_le_length
      have hcount : tickCount (w :: ws) = tickCount [w] + tickCount ws := by
        rw [← List.singleton_append]
        exact List.countP_append
      rw [UInt32.lt_iff_toNat_lt] at hlt
      rw [ih (by omega), helapsed, hcount, Nat.add_assoc]
    · rw [UInt32.lt_iff_toNat_lt, not_lt] at hlt
      exact iff_of_true rfl (hlt.trans (Nat.le_add_right _ _))

theorem ticksNeeded_toNat (ms : UInt32) (t : Timer) :
    (ticksNeeded ms t).toNat = max 1 (ms.toNat * t.timerFreqHz.toNat % 2 ^ 32 / 1000) := by
  have hquot : (ms * t.timerFreqHz / 1000).toNat = ms.toNat * t.timerFreqHz.toNat % 2 ^ 32 / 1000 := by
    rw [UInt32.toNat_div, UInt32.toNat_mul]
    rfl
  rw [← hquot, ticksNeeded]
  by_cases hzero : ms * t.timerFreqHz / 1000 = 0
  · rw [if_pos hzero, hzero]
    rfl
  · rw [if_neg hzero]
    have hpos : (ms * t.timerFreqHz / 1000).toNat ≠ 0 := fun h => hzero (UInt32.toNat_inj.mp h)
    omega

/-- `timer_wait_ms` has returned by the time these interrupts have come exactly if the ticks to wait for are among
them. -/
def WaitsExactly (ms : UInt32) (t : Timer) : Prop :=
  ∀ wakes, (timerWaitMs ms t wakes).isSome ↔ ticksToWait ms.toNat t.timerFreqHz.toNat ≤ tickCount wakes

theorem timerWaitMs_isSome (ms : UInt32) (t : Timer) (wakes : List Wake) :
    (timerWaitMs ms t wakes).isSome ↔ (ticksNeeded ms t).toNat ≤ tickCount wakes := by
  have hzero : (t.timerTicks - t.timerTicks).toNat = 0 := by
    rw [UInt32.sub_self]
    rfl
  have hstart : (t.timerTicks - t.timerTicks).toNat ≤ (ticksNeeded ms t).toNat := hzero.trans_le (Nat.zero_le _)
  have h := waitLoop_isSome hstart wakes
  rwa [hzero, Nat.zero_add] at h

/-- **Whatever the tick count is and whichever interrupts come, `timer_wait_ms` waits for exactly the ticks of its
delay if and only if the product of the milliseconds and the frequency is below `2^32`.** -/
theorem waitsExactly_iff (ms : UInt32) (t : Timer) :
    WaitsExactly ms t ↔ ms.toNat * t.timerFreqHz.toNat < 2 ^ 32 := by
  constructor
  · intro h
    -- the interrupts are as many ticks as the code waits for
    have hcount : tickCount (List.replicate (ticksNeeded ms t).toNat (.irq0 fun _ => [])) =
        (ticksNeeded ms t).toNat := by
      rw [tickCount, List.countP_replicate]
      exact if_pos rfl
    have hreturned := (timerWaitMs_isSome ms t _).mpr hcount.ge
    have hle := (h _).mp hreturned
    rw [hcount, ticksNeeded_toNat, ticksToWait] at hle
    omega
  · intro h wakes
    rw [timerWaitMs_isSome, ticksNeeded_toNat, Nat.mod_eq_of_lt h, ticksToWait]

/-- At 100 Hz the product for 42949673 milliseconds, about twelve hours, is `2^32 + 4`: the wait ends at the first
tick. -/
theorem wait_of_twelve_hours_ends : ¬ WaitsExactly 42949673 bootTimer := by
  intro h
  have hone : (ticksNeeded 42949673 bootTimer).toNat = 1 := by decide +kernel
  have hreturned : (timerWaitMs 42949673 bootTimer [.irq0 fun _ => []]).isSome :=
    (timerWaitMs_isSome _ _ _).mpr hone.le
  have hticks : 4294967 ≤ tickCount [.irq0 fun _ => []] := (h _).mp hreturned
  exact absurd hticks (by decide)

end Waiting

end RtosKernel
