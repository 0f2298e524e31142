import RtosKernel.Queue
import RtosKernel.Proofs.MutexProofs

/-!
# Proofs: message queues

The queue is linearizable, with the `mutex_unlock` of a call as the point at which it takes effect. In the
middle of a call the indices and the counter do not agree: `PcInv` says for each statement what holds
before it. A task that is inside is alone there, so the statements of the other tasks do not touch it.
-/

namespace RtosKernel

open Lib

/-! ## Histories -/

theorem heldAfter_snoc (events : List QueueEvent) (e : QueueEvent) :
    heldAfter (events ++ [e]) = (heldAfter events).bind (fifoEvent · e) := by
  simp [heldAfter, List.foldlM_append]

/-- What a call does to the values held. -/
theorem fifoEvent_cases {items items' : List UInt32} {e : QueueEvent} (h : fifoEvent items e = some items') :
    (∃ v, e = .pushed v ∧ items.length < 8 ∧ items' = items ++ [v]) ∨
    (∃ v, e = .full v ∧ items.length = 8 ∧ items' = items) ∨
    (∃ v, e = .popped v ∧ items = v :: items') ∨
    (e = .empty ∧ items = [] ∧ items' = items) := by
  cases e with
  | pushed v =>
    simp only [fifoEvent, Option.ite_none_right_eq_some, Option.some.injEq] at h
    exact .inl ⟨v, rfl, h.1, h.2.symm⟩
  | full v =>
    simp only [fifoEvent, Option.ite_none_right_eq_some, Option.some.injEq] at h
    exact .inr (.inl ⟨v, rfl, h.1, h.2.symm⟩)
  | popped v =>
    cases items with
    | nil => simp [fifoEvent] at h
    | cons w rest =>
      simp only [fifoEvent, Option.ite_none_right_eq_some, Option.some.injEq] at h
      obtain ⟨rfl, rfl⟩ := h
      exact .inr (.inr (.inl ⟨v, rfl, rfl⟩))
  | empty =>
    simp only [fifoEvent, Option.ite_none_right_eq_some, Option.some.injEq] at h
    obtain ⟨rfl, rfl⟩ := h
    exact .inr (.inr (.inr ⟨rfl, rfl, rfl⟩))

/-- In a history of the queue the values pushed are those popped and then those still held, and there are
at most 8 of these. -/
theorem heldAfter_values {events : List QueueEvent} {held : List UInt32} (h : heldAfter events = some held) :
    pushedValues events = poppedValues events ++ held ∧ held.length ≤ 8 := by
  induction events using List.reverseRecOn generalizing held with
  | nil =>
    obtain rfl : [] = held := Option.some.inj h
    exact ⟨rfl, Nat.zero_le _⟩
  | append_singleton events e ih =>
    rw [heldAfter_snoc, Option.bind_eq_some_iff] at h
    obtain ⟨items, hi, he⟩ := h
    obtain ⟨hv, hlen⟩ := ih hi
    rw [pushedValues, poppedValues, List.filterMap_append, List.filterMap_append, ← pushedValues,
      ← poppedValues, hv]
    obtain ⟨v, rfl, hlt, rfl⟩ | ⟨v, rfl, -, rfl⟩ | ⟨v, rfl, rfl⟩ | ⟨rfl, -, rfl⟩ := fifoEvent_cases he
    · refine ⟨by simp, ?_⟩
      rw [List.length_append, List.length_singleton]
      omega
    · exact ⟨by simp, hlen⟩
    · refine ⟨by simp, ?_⟩
      rw [List.length_cons] at hlen
      omega
    · exact ⟨by simp, hlen⟩

/-- Every call of a history was allowed to return what it returned. -/
theorem heldAfter_at {pre post : List QueueEvent} {e : QueueEvent} {held : List UInt32}
    (h : heldAfter (pre ++ e :: post) = some held) :
    ∃ items items', heldAfter pre = some items ∧ fifoEvent items e = some items' := by
  rw [heldAfter, List.foldlM_append, Option.bind_eq_bind, Option.bind_eq_some_iff] at h
  obtain ⟨items, hitems, h⟩ := h
  rw [List.foldlM_cons, Option.bind_eq_bind, Option.bind_eq_some_iff] at h
  obtain ⟨items', he, -⟩ := h
  exact ⟨items, items', hitems, he⟩

/-! ## The statements -/

/-- The indices describe the values `items`. -/
def Holds (q : Queue) (items : List UInt32) : Prop :=
  RingIdx 8 q.head q.tail q.count ∧ queueItems q = items

/-- What holds before the statement at `pc` of the task that is inside; `items` are the values held after
the calls that have returned. -/
def PcInv (q : Queue) (items : List UInt32) : QueuePc → Prop
  | .pushStore _ => Holds q items ∧ q.count < 8
  | .pushTail v =>
    RingIdx 8 q.head q.tail q.count ∧ q.count < 8 ∧
      ringItems q.data 8 q.head (q.count + 1).toNat = items ++ [v]
  | .pushCount v =>
    RingIdx 8 q.head q.tail (q.count + 1) ∧ ringItems q.data 8 q.head (q.count + 1).toNat = items ++ [v]
  | .pushDone v => Holds q (items ++ [v])
  | .pushFull _ => Holds q items ∧ q.count = 8
  | .popLoad => Holds q items ∧ 0 < q.count
  | .popHead v => Holds q items ∧ 0 < q.count ∧ q.data q.head = v
  | .popCount v =>
    RingIdx 8 q.head q.tail (q.count - 1) ∧ items = v :: ringItems q.data 8 q.head (q.count - 1).toNat
  | .popDone v => ∃ rest, items = v :: rest ∧ Holds q rest
  | .popEmpty => Holds q items ∧ q.count = 0
  | _ => Holds q items

/-- What a statement of the task inside does: it goes on inside, or unlocks the queue and returns. -/
inductive StaysOrReturns (t : TaskRef) (q : Queue) (items : List UInt32) :
    Queue × QueuePc × Option QueueEvent → Prop
  | stays {q' pc} (lock : q'.lock = q.lock) (inside : pc.inside = true) (inv : PcInv q' items pc) :
    StaysOrReturns t q items (q', pc, none)
  | returns {e items'} (event : fifoEvent items e = some items') (inv : Holds q items') :
    StaysOrReturns t q items ({ q with lock := mutexUnlock t q.lock }, .idle, some e)

section Statements

variable {t : TaskRef} {q : Queue} {items : List UInt32}

theorem Holds.length (h : Holds q items) : (items.length : ℤ) = q.count := by
  rw [← h.2, queueItems, ringItems_length]
  exact Int.toNat_of_nonneg h.1.count_nonneg

/-- The statement of a task that is inside. -/
theorem queueExec_inside {pc : QueuePc} (hin : pc.inside = true) (h : PcInv q items pc) :
    StaysOrReturns t q items (queueExec t q pc) := by
  cases pc with
  | idle | pushLock v | popLock => cases hin
  | pushTest v =>
    have hle := h.1.count_le
    by_cases hc : q.count ≥ queueSize
    · have hfull : 8 ≤ q.count := hc
      rw [queueExec, if_pos hc]
      exact .stays rfl rfl ⟨h, by omega⟩
    · have hroom : q.count < 8 := not_le.mp hc
      rw [queueExec, if_neg hc]
      exact .stays rfl rfl ⟨h, hroom⟩
  | pushStore v =>
    obtain ⟨⟨hidx, hitems⟩, hroom⟩ := h
    refine .stays rfl rfl ⟨hidx, hroom, ?_⟩
    rw [← hitems]
    exact hidx.items_push hroom v
  | pushTail v =>
    obtain ⟨hidx, hroom, hitems⟩ := h
    exact .stays rfl rfl ⟨hidx.push hroom, hitems⟩
  | pushCount v => exact .stays rfl rfl h
  | pushDone v =>
    have hlen := h.length
    have hle := h.1.count_le
    rw [List.length_append, List.length_singleton] at hlen
    have hroom : items.length < 8 := by omega
    exact .returns (if_pos hroom) h
  | pushFull v =>
    obtain ⟨hq, hfull⟩ := h
    have hlen := hq.length
    have hfull' : items.length = 8 := by omega
    exact .returns (if_pos hfull') hq
  | popTest =>
    have hge := h.1.count_nonneg
    by_cases hc : q.count = 0
    · rw [queueExec, if_pos hc]
      exact .stays rfl rfl ⟨h, hc⟩
    · rw [queueExec, if_neg hc]
      exact .stays rfl rfl ⟨h, by omega⟩
  | popLoad =>
    obtain ⟨hq, hpos⟩ := h
    exact .stays rfl rfl ⟨hq, hpos, rfl⟩
  | popHead v =>
    obtain ⟨⟨hidx, hitems⟩, hpos, hv⟩ := h
    refine .stays rfl rfl ⟨hidx.pop hpos, ?_⟩
    rw [← hitems, ← hv]
    exact hidx.items_pop hpos q.data
  | popCount v =>
    obtain ⟨hidx, hitems⟩ := h
    exact .stays rfl rfl ⟨_, hitems, hidx, rfl⟩
  | popDone v =>
    obtain ⟨rest, rfl, hq⟩ := h
    exact .returns (if_pos rfl) hq
  | popEmpty =>
    obtain ⟨hq, hzero⟩ := h
    have hlen := hq.length
    obtain rfl : items = [] := List.length_eq_zero_iff.mp (by omega)
    exact .returns (e := .empty) rfl hq

end Statements

/-! ## Every interleaving -/

/-- The queue at any moment of a run, with `o` the task that is inside, if there is one, and `items` the
values held after the calls that have returned. -/
structure QueueInv (q : Queue) (pcs : TaskRef → QueuePc) (events : List QueueEvent) (o : Option TaskRef)
    (items : List UInt32) : Prop where
  lock : q.lock = heldMutex o
  inside : ∀ t, (pcs t).inside = true ↔ o = some t
  history : heldAfter events = some items
  free : o = none → Holds q items
  busy : ∀ t, o = some t → PcInv q items (pcs t)

section Interleaving

variable {q q' : Queue} {pcs : TaskRef → QueuePc} {events : List QueueEvent} {o : Option TaskRef}
  {items items' : List UInt32} {t : TaskRef} {pc : QueuePc}

/-- A task outside stays outside: it calls one of the functions, or finds the queue locked. -/
theorem QueueInv.outside (h : QueueInv q pcs events o items) (ht : (pcs t).inside = false)
    (hpc : pc.inside = false) : QueueInv q (Function.update pcs t pc) events o items := by
  have hne : ∀ u, o = some u → u ≠ t := by
    rintro u hu rfl
    rw [(h.inside u).mpr hu] at ht
    cases ht
  refine ⟨h.lock, fun u => ?_, h.history, h.free, fun u hu => ?_⟩
  · by_cases hut : u = t
    · subst hut
      rw [Function.update_self, hpc, ← h.inside u, ht]
    · rw [Function.update_of_ne hut]
      exact h.inside u
  · rw [Function.update_of_ne (hne u hu)]
    exact h.busy u hu

/-- A task enters the free queue, or the task inside goes on to its next statement. -/
theorem QueueInv.goInside (h : QueueInv q pcs events o items) (ho : ∀ u, o = some u → u = t)
    (hl : q'.lock = heldMutex (some t)) (hpc : pc.inside = true) (hq : PcInv q' items pc) :
    QueueInv q' (Function.update pcs t pc) events (some t) items := by
  refine ⟨hl, fun u => ?_, h.history, fun hn => absurd hn (by simp), fun u hu => ?_⟩
  · by_cases hut : u = t
    · subst hut
      rw [Function.update_self, hpc]
      simp
    · rw [Function.update_of_ne hut, h.inside u]
      refine iff_of_false (fun hu => hut (ho u hu)) ?_
      simpa using Ne.symm hut
  · obtain rfl : t = u := Option.some.inj hu
    rw [Function.update_self]
    exact hq

/-- The task inside unlocks the queue, and its call takes effect. -/
theorem QueueInv.leave (h : QueueInv q pcs events (some t) items) (hl : q'.lock = mutexUnlock t q.lock)
    {e : QueueEvent} (he : fifoEvent items e = some items') (hq : Holds q' items') :
    QueueInv q' (Function.update pcs t .idle) (events ++ [e]) none items' := by
  refine ⟨?_, fun u => ?_, ?_, fun _ => hq, fun u hu => absurd hu (by simp)⟩
  · rw [hl, h.lock, mutexUnlock_heldMutex, if_pos rfl]
  · by_cases hut : u = t
    · subst hut
      rw [Function.update_self]
      exact iff_of_false Bool.false_ne_true (Option.some_ne_none u).symm
    · rw [Function.update_of_ne hut, h.inside u]
      simpa using Ne.symm hut
  · rw [heldAfter_snoc, h.history, Option.bind_some, he]

/-- A statement of the task inside. -/
theorem QueueInv.staysOrReturns (h : QueueInv q pcs events (some t) items)
    {r : Queue × QueuePc × Option QueueEvent} (hr : StaysOrReturns t q items r) :
    ∃ o' items', QueueInv r.1 (Function.update pcs t r.2.1) (events ++ r.2.2.toList) o' items' := by
  cases hr with
  | stays lock inside inv =>
    rw [Option.toList_none, List.append_nil]
    exact ⟨some t, items, h.goInside (fun u hu => (Option.some.inj hu).symm) (lock.trans h.lock) inside inv⟩
  | returns event inv => exact ⟨none, _, h.leave rfl event inv⟩

/-- A pass of the loop of `mutex_lock`: the task takes the queue if it is free. -/
theorem QueueInv.tryLock (h : QueueInv q pcs events o items) (ht : (pcs t).inside = false)
    (wait test : QueuePc) (hw : wait.inside = false) (hi : test.inside = true)
    (htest : ∀ q, PcInv q items test = Holds q items) {r : Queue × QueuePc × Option QueueEvent}
    (hr : r = match mutexTryLock t q.lock with
      | some mx => ({ q with lock := mx }, test, none)
      | none => (q, wait, none)) :
    ∃ o' items', QueueInv r.1 (Function.update pcs t r.2.1) (events ++ r.2.2.toList) o' items' := by
  have hlock := h.lock
  cases o with
  | none =>
    rw [hlock, mutexTryLock_free] at hr
    subst hr
    rw [Option.toList_none, List.append_nil]
    refine ⟨some t, items, h.goInside (fun u hu => absurd hu (by simp)) rfl hi ?_⟩
    rw [htest]
    exact h.free rfl
  | some u =>
    rw [hlock, mutexTryLock_held] at hr
    subst hr
    rw [Option.toList_none, List.append_nil]
    exact ⟨some u, items, h.outside ht hw⟩

/-- One statement of any task keeps the invariant. -/
theorem QueueInv.exec (h : QueueInv q pcs events o items) (t : TaskRef) :
    ∃ o' items', QueueInv (queueExec t q (pcs t)).1 (Function.update pcs t (queueExec t q (pcs t)).2.1)
      (events ++ (queueExec t q (pcs t)).2.2.toList) o' items' := by
  by_cases hin : (pcs t).inside = true
  · obtain rfl := (h.inside t).mp hin
    exact h.staysOrReturns (queueExec_inside hin (h.busy t rfl))
  · have hout : (pcs t).inside = false := by simpa using hin
    generalize hpc : pcs t = pc
    rw [hpc] at hin
    cases pc with
    | idle =>
      rw [queueExec, Option.toList_none, List.append_nil]
      exact ⟨o, items, h.outside hout rfl⟩
    | pushLock v => exact h.tryLock hout (.pushLock v) (.pushTest v) rfl rfl (fun _ => rfl) rfl
    | popLock => exact h.tryLock hout .popLock .popTest rfl rfl (fun _ => rfl) rfl
    | _ => exact absurd rfl hin

/-- One step of a run keeps the invariant. -/
theorem queueStep_inv {s : QueueSys} (h : ∃ o items, QueueInv s.queue s.pc s.events o items) (op : QueueOp) :
    ∃ o items, QueueInv (queueStep s op).queue (queueStep s op).pc (queueStep s op).events o items := by
  obtain ⟨o, items, h⟩ := h
  cases op with
  | push t v =>
    by_cases ht : s.pc t = .idle
    · rw [queueStep, if_pos ht]
      exact ⟨o, items, h.outside (by rw [ht]; rfl) rfl⟩
    · rw [queueStep, if_neg ht]
      exact ⟨o, items, h⟩
  | pop t =>
    by_cases ht : s.pc t = .idle
    · rw [queueStep, if_pos ht]
      exact ⟨o, items, h.outside (by rw [ht]; rfl) rfl⟩
    · rw [queueStep, if_neg ht]
      exact ⟨o, items, h⟩
  | exec t => exact h.exec t

theorem newQueue_inv (q : Queue) : QueueInv (newQueue q).queue (newQueue q).pc (newQueue q).events none [] :=
  ⟨rfl, fun t => iff_of_false Bool.false_ne_true (Option.some_ne_none t).symm, rfl,
    fun _ => ⟨ringIdx_empty (by decide), rfl⟩, fun t ht => absurd ht (Option.some_ne_none t).symm⟩

end Interleaving

/-- What holds at any moment of a run. What the calls have returned, in the order of their `mutex_unlock`,
is a history of a FIFO queue of capacity 8; so the values popped are the first of the values pushed, the
others are held, and these are the values in the buffer whenever the queue is free. -/
structure QueueLinear (s : QueueSys) : Prop where
  history : ∃ held, heldAfter s.events = some held ∧
    pushedValues s.events = poppedValues s.events ++ held ∧ held.length ≤ 8 ∧
    (s.queue.lock.locked = 0 → queueItems s.queue = held)
  pop_prefix : poppedValues s.events <+: pushedValues s.events
  push_fails : ∀ pre v post, s.events = pre ++ .full v :: post →
    ∃ held, heldAfter pre = some held ∧ held.length = 8
  pop_fails : ∀ pre post, s.events = pre ++ .empty :: post → heldAfter pre = some []

theorem QueueInv.linear {s : QueueSys} {o : Option TaskRef} {items : List UInt32}
    (h : QueueInv s.queue s.pc s.events o items) : QueueLinear s := by
  obtain ⟨hv, hlen⟩ := heldAfter_values h.history
  refine ⟨⟨items, h.history, hv, hlen, fun hfree => ?_⟩, ?_, ?_, ?_⟩
  · cases o with
    | none => exact (h.free rfl).2
    | some t =>
      rw [h.lock] at hfree
      exact absurd hfree (by decide : (1 : UInt32) ≠ 0)
  · rw [hv]
    exact List.prefix_append ..
  · intro pre v post he
    have hh := h.history
    rw [he] at hh
    obtain ⟨held, held', hp, hf⟩ := heldAfter_at hh
    obtain ⟨_, hc, -⟩ | ⟨_, -, hl, -⟩ | ⟨_, hc, -⟩ | ⟨hc, -⟩ := fifoEvent_cases hf
    · cases hc
    · exact ⟨held, hp, hl⟩
    · cases hc
    · cases hc
  · intro pre post he
    have hh := h.history
    rw [he] at hh
    obtain ⟨held, held', hp, hf⟩ := heldAfter_at hh
    obtain ⟨_, hc, -⟩ | ⟨_, hc, -⟩ | ⟨_, hc, -⟩ | ⟨-, rfl, -⟩ := fifoEvent_cases hf
    · cases hc
    · cases hc
    · cases hc
    · exact hp

/-- **The queue is linearizable: whatever the tasks call and however their statements are interleaved, the
calls have returned, in the order of their `mutex_unlock`, what the calls of a FIFO queue of capacity 8
return.** -/
theorem queue_linearizable (q : Queue) (ops : List QueueOp) :
    QueueLinear (ops.foldl queueStep (newQueue q)) := by
  have h : ∃ o items, QueueInv (ops.foldl queueStep (newQueue q)).queue
      (ops.foldl queueStep (newQueue q)).pc (ops.foldl queueStep (newQueue q)).events o items :=
    ops.foldlRecOn queueStep (motive := fun s => ∃ o items, QueueInv s.queue s.pc s.events o items)
      ⟨none, [], newQueue_inv q⟩ fun _ h op _ => queueStep_inv h op
  obtain ⟨o, items, hinv⟩ := h
  exact hinv.linear

-- the pop finds the queue locked, waits, and takes the value of the push
example :
    ([.push .mainTask 7, .exec .mainTask, .exec .mainTask, .pop (.pool 0), .exec (.pool 0), .exec .mainTask,
      .exec .mainTask, .exec .mainTask, .exec (.pool 0), .exec .mainTask, .exec (.pool 0), .exec (.pool 0),
      .exec (.pool 0), .exec (.pool 0), .exec (.pool 0), .exec (.pool 0)].foldl queueStep
        (newQueue ⟨fun _ => 0, 0, 0, 0, mutexInit⟩)).events = [.pushed 7, .popped 7] := by
  decide +kernel

end RtosKernel
