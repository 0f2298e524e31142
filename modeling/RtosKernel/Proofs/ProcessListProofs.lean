import Mathlib.Data.List.TakeWhile
import RtosKernel.Proofs.ProcessProofs

/-!
# Runs of the process table

Two properties of every state of a run from `process_init`:

* the list from `proc_list_head` holds every used slot once (`ListIntact`),
* `process_schedule` returns (`ScheduleReturns`).

Both rest on `ListInv`, and both can only be lost by a `process_create` that takes a slot which is
still on the list: it links the last node of the list to that slot and that slot to the head, so the
nodes behind it are cut off. The list stays intact exactly as long as nothing used stands behind the
slot (`TailUnused`), and `process_schedule` keeps returning exactly as long as `current_proc->next`
does not stand there (`StartKept`).
-/

namespace RtosKernel

open Lib

/-! ## The properties and the conditions -/

/-- Every used slot occurs once on the list from `proc_list_head` back to it. -/
def ListIntact (s : Procs) : Prop :=
  ∃ h l, s.head = some h ∧ IsRing s.next h l ∧ ∀ i, s.state i ≠ .unused → l.count i = 1

/-- Both traversals of `process_schedule` come to their end. -/
def ScheduleReturns (s : Procs) : Prop :=
  ∀ esp now, ∃ fuel r, processSchedule fuel esp now s = .ok r

/-- If the call is a `process_create` and the slot it takes is on the list, no used slot stands behind
that one. -/
def TailUnused (s : Procs) : ProcOp → Prop
  | .create .. => ∀ h i a b, s.head = some h → freeSlot s = some i → IsRing s.next h (a ++ i :: b) →
      ∀ j ∈ b, s.state j = .unused
  | _ => True

/-- If the call is a `process_create` and the slot it takes is on the list, `current_proc->next` does
not stand behind that one. -/
def StartKept (s : Procs) : ProcOp → Prop
  | .create .. => ∀ h i a b c n, s.head = some h → freeSlot s = some i →
      IsRing s.next h (a ++ i :: b) → s.current = some c → s.next c = some n → n ∉ b
  | _ => True

/-- The list `l` from the head comes back to it, and the current process is in use and leads onto it.
The current process itself may be off the list. -/
structure ListInv (s : Procs) (l : List Slot) : Prop where
  head : s.head = some 0
  ring : IsRing s.next 0 l
  current : ∃ c n, s.current = some c ∧ s.state c ≠ .unused ∧ s.next c = some n ∧ n ∈ l

/-- The list holds every used slot. -/
def HoldsUsed (s : Procs) (l : List Slot) : Prop := ∀ i, s.state i ≠ .unused → i ∈ l

section Steps

variable {s s' : Procs} {l a b : List Slot} {i : Slot} {fuel : ℕ}

theorem ListInv.length_le (h : ListInv s l) : l.length ≤ maxProcesses := by
  simpa using h.ring.nodup.length_le_card

theorem processInit_listInv (s₀ : Procs) : ListInv (processInit s₀) [0] ∧ HoldsUsed (processInit s₀) [0] := by
  have hnext : (processInit s₀).next 0 = some 0 := by simp [processInit, Procs.next]
  have hring : IsRing (processInit s₀).next 0 [0] := ⟨⟨rfl, 0, hnext, rfl⟩, [], rfl, by simp⟩
  refine ⟨⟨rfl, hring, 0, 0, rfl, by simp [processInit, Procs.state], hnext, by simp⟩, fun i hi => ?_⟩
  by_contra hne
  have hi0 : i ≠ 0 := by simpa using hne
  exact hi (by simp [processInit, Procs.state, hi0])

/-- A call that keeps links, head and current process, and makes no slot free or used. -/
theorem ListInv.of_same (h : ListInv s l) (hn : s'.next = s.next) (hh : s'.head = s.head)
    (hc : s'.current = s.current) (hs : ∀ j, s'.state j = .unused ↔ s.state j = .unused) :
    ListInv s' l ∧ (HoldsUsed s l → HoldsUsed s' l) := by
  obtain ⟨c, n, hcur, hlive, hcn, hnl⟩ := h.current
  refine ⟨⟨hh.trans h.head, by rw [hn]; exact h.ring, c, n, hc.trans hcur, ?_, by rw [hn, hcn], hnl⟩,
    fun hu j hj => hu j ?_⟩
  · exact fun e => hlive ((hs c).mp e)
  · exact fun e => hj ((hs j).mpr e)

/-- `process_schedule` returns and keeps the list; the new current process is on it. -/
theorem ListInv.schedule (h : ListInv s l) (hf : maxProcesses ≤ fuel) (esp now : UInt32) :
    ∃ r s', processSchedule fuel esp now s = .ok (r, s') ∧ ListInv s' l ∧
      (HoldsUsed s l → HoldsUsed s' l) := by
  obtain ⟨c, n, hcur, -, hcn, hnl⟩ := h.current
  obtain ⟨r, s', hs, hnext, hhead, x, hx, hcur', hrun, hlive⟩ :=
    processSchedule_spec h.head h.ring hcur hcn hnl (h.length_le.trans hf) esp now
  obtain ⟨y, hy, hxy⟩ := h.ring.next_mem hx
  refine ⟨r, s', hs, ⟨hhead.trans h.head, by rw [hnext]; exact h.ring, x, y, hcur', ?_, by rw [hnext, hxy],
    hy⟩, fun hu j hj => ?_⟩
  · rw [hrun]
    decide
  · rcases hlive j hj with rfl | hj'
    · exact hx
    · exact hu j hj'

/-- The list that `process_create` leaves: with the taken slot at its end, and without the nodes that
stood behind that slot. -/
def listAfterCreate (l : List Slot) (i : Slot) : List Slot := l.takeWhile (· ≠ i) ++ [i]

theorem listAfterCreate_of_mem (hnd : (a ++ i :: b).Nodup) : listAfterCreate (a ++ i :: b) i = a ++ [i] := by
  have ha : ∀ x ∈ a, decide (x ≠ i) = true := by
    intro x hx
    have := (List.nodup_append.mp hnd).2.2 x hx i (by simp)
    simpa using this
  rw [listAfterCreate, List.takeWhile_append_of_pos ha]
  simp

theorem listAfterCreate_of_notMem (hi : i ∉ l) : listAfterCreate l i = l ++ [i] := by
  rw [listAfterCreate, List.takeWhile_eq_self_iff.mpr]
  intro x hx
  simpa using fun e : x = i => hi (e ▸ hx)

/-- Slot 0 is never taken, so the head of the list stands before a taken slot. -/
theorem head_before_taken (hr : IsRing s.next 0 (a ++ i :: b)) (hi : freeSlot s = some i) : 0 ∈ a := by
  obtain ⟨v, hv, -⟩ := hr.starts
  cases a with
  | nil => exact absurd (List.cons.inj hv).1 (freeSlot_some hi).1
  | cons x a => simp [(List.cons.inj hv).1]

/-- `process_create` with the free slot `i`: what becomes of the list, the links and the states. -/
theorem ListInv.create (h : ListInv s l) (hi : freeSlot s = some i) (hf : maxProcesses ≤ fuel)
    (name : List UInt8) (entry priority ppid : UInt32) :
    ∃ s' p t, procStep fuel s (.create name entry priority ppid) = .ok s' ∧ l = p ++ [t] ∧
      IsRing s'.next 0 (listAfterCreate l i) ∧
      s'.next = Function.update (Function.update s.next t (some i)) i (some 0) ∧
      s'.state = Function.update s.state i .ready ∧ s'.head = s.head ∧ s'.current = s.current := by
  obtain ⟨u, hu, -⟩ := h.ring.starts
  obtain ⟨p, t, rfl⟩ : ∃ p t, l = p ++ [t] := by
    rcases List.eq_nil_or_concat l with rfl | ⟨p, t, rfl⟩
    · exact absurd hu (by simp)
    · exact ⟨p, t, by simp⟩
  obtain ⟨r, s', hs, hnext, hstate, hhead, hcur⟩ :=
    processCreate_spec h.head h.ring hi (h.length_le.trans hf) name entry priority ppid
  refine ⟨s', p, t, by simp [procStep, hs], rfl, ?_, hnext, hstate, hhead, hcur⟩
  rw [hnext]
  by_cases hmem : i ∈ p ++ [t]
  · obtain ⟨a, b, hab⟩ := List.append_of_mem hmem
    have hr : IsRing s.next 0 (a ++ i :: b) := hab ▸ h.ring
    have ha : a ≠ [] := List.ne_nil_of_mem (head_before_taken hr hi)
    have ht : t ∈ i :: b := by
      have := congrArg List.getLast? hab
      rw [List.getLast?_append_of_ne_nil _ (by simp), List.getLast?_append_of_ne_nil _ (by simp)] at this
      exact List.mem_of_getLast? (by rw [← this]; simp)
    rw [hab, listAfterCreate_of_mem hr.nodup]
    exact hr.cut ha ht
  · rw [listAfterCreate_of_notMem hmem]
    simpa using h.ring.append hmem

/-- A step of the process table other than a `process_create` that takes a slot. -/
theorem ListInv.step_of_not_create (h : ListInv s l) (hf : maxProcesses ≤ fuel) (op : ProcOp)
    (hop : ∀ name entry priority ppid, op = .create name entry priority ppid → freeSlot s = none) :
    ∃ s', procStep fuel s op = .ok s' ∧ ListInv s' l ∧ (HoldsUsed s l → HoldsUsed s' l) := by
  cases op with
  | create name entry priority ppid =>
    have hi := hop name entry priority ppid rfl
    exact ⟨s, by simp [procStep, processCreate_full hi], h, id⟩
  | exit pid =>
    obtain ⟨hn, hh, hc, hs⟩ := processExit_spec pid s
    exact ⟨_, rfl, h.of_same hn hh hc hs⟩
  | sleep ticks now =>
    obtain ⟨c, n, hcur, hlive, -⟩ := h.current
    obtain ⟨s', hs', hn, hh, hc, hs⟩ := processSleep_spec hcur hlive ticks now
    exact ⟨s', hs', h.of_same hn hh hc hs⟩
  | schedule esp now =>
    obtain ⟨r, s', hs, h1, h2⟩ := h.schedule hf esp now
    exact ⟨s', by simp [procStep, hs], h1, h2⟩

/-! ## Which slots stay on the list -/

theorem mem_listAfterCreate_self (l : List Slot) (i : Slot) : i ∈ listAfterCreate l i := by
  simp [listAfterCreate]

/-- A slot on the list stays there unless it stands behind the slot that is taken. -/
theorem mem_listAfterCreate {j : Slot} (hnd : l.Nodup) (hj : j ∈ l)
    (hb : ∀ a b, l = a ++ i :: b → j ∉ b) : j ∈ listAfterCreate l i := by
  by_cases hi : i ∈ l
  · obtain ⟨a, b, rfl⟩ := List.append_of_mem hi
    rw [listAfterCreate_of_mem hnd]
    have hjb := hb a b rfl
    simp only [List.mem_append, List.mem_cons, List.not_mem_nil, or_false] at hj ⊢
    tauto
  · rw [listAfterCreate_of_notMem hi]
    exact List.mem_append_left _ hj

/-- A slot behind the slot that is taken is no longer on the list. -/
theorem notMem_listAfterCreate {j : Slot} (hnd : (a ++ i :: b).Nodup) (hj : j ∈ b) :
    j ∉ listAfterCreate (a ++ i :: b) i := by
  rw [listAfterCreate_of_mem hnd]
  obtain ⟨-, h2, h3⟩ := List.nodup_append.mp hnd
  intro hm
  rcases List.mem_append.mp hm with hm | hm
  · exact h3 j hm j (by simp [hj]) rfl
  · obtain rfl : j = i := by simpa using hm
    exact (List.nodup_cons.mp h2).1 hj

/-- A used slot is not the one that `process_create` takes. -/
theorem used_ne_taken {c : Slot} (hlive : s.state c ≠ .unused) (hi : freeSlot s = some i) : c ≠ i := by
  rintro rfl
  exact hlive (freeSlot_some hi).2

/-- A used slot stays used when `process_create` takes another one. -/
theorem used_of_taken {c : Slot} (hstate : s'.state = Function.update s.state i .ready)
    (hci : c ≠ i) (hlive : s.state c ≠ .unused) : s'.state c ≠ .unused := by
  rw [hstate, Function.update_of_ne hci]
  exact hlive

/-- `process_create` keeps the list intact if nothing used stands behind its slot. -/
theorem ListInv.create_intact (h : ListInv s l) (hu : HoldsUsed s l) (hi : freeSlot s = some i)
    (hf : maxProcesses ≤ fuel) (name : List UInt8) (entry priority ppid : UInt32)
    (hC : TailUnused s (.create name entry priority ppid)) :
    ∃ s' l', procStep fuel s (.create name entry priority ppid) = .ok s' ∧ ListInv s' l' ∧
      HoldsUsed s' l' := by
  obtain ⟨s', p, t, hs, -, hr, hnext, hstate, hhead, hcur⟩ := h.create hi hf name entry priority ppid
  have hu' : HoldsUsed s' (listAfterCreate l i) := by
    intro j hj
    by_cases hji : j = i
    · exact hji ▸ mem_listAfterCreate_self l i
    · rw [hstate, Function.update_of_ne hji] at hj
      refine mem_listAfterCreate h.ring.nodup (hu j hj) fun a b hab hjb => hj ?_
      exact hC 0 i a b h.head hi (hab ▸ h.ring) j hjb
  obtain ⟨c, n, hc, hlive, -⟩ := h.current
  have hci : c ≠ i := used_ne_taken hlive hi
  have hlive' : s'.state c ≠ .unused := used_of_taken hstate hci hlive
  obtain ⟨y, hy, hcy⟩ := hr.next_mem (hu' c hlive')
  exact ⟨s', _, hs, ⟨hhead.trans h.head, hr, c, y, hcur.trans hc, hlive', hcy, hy⟩, hu'⟩

/-- `process_create` keeps the traversals of `process_schedule` if `current_proc->next` does not stand
behind its slot. -/
theorem ListInv.create_kept (h : ListInv s l) (hi : freeSlot s = some i) (hf : maxProcesses ≤ fuel)
    (name : List UInt8) (entry priority ppid : UInt32)
    (hC : StartKept s (.create name entry priority ppid)) :
    ∃ s' l', procStep fuel s (.create name entry priority ppid) = .ok s' ∧ ListInv s' l' := by
  obtain ⟨s', p, t, hs, -, hr, hnext, hstate, hhead, hcur⟩ := h.create hi hf name entry priority ppid
  obtain ⟨c, n, hc, hlive, hcn, hnl⟩ := h.current
  have hci : c ≠ i := used_ne_taken hlive hi
  have hlive' : s'.state c ≠ .unused := used_of_taken hstate hci hlive
  refine ⟨s', _, hs, hhead.trans h.head, hr, ?_⟩
  by_cases hct : c = t
  · refine ⟨c, i, hcur.trans hc, hlive', ?_, mem_listAfterCreate_self l i⟩
    rw [hnext, Function.update_of_ne hci, hct, Function.update_self]
  · refine ⟨c, n, hcur.trans hc, hlive', ?_, mem_listAfterCreate h.ring.nodup hnl fun a b hab => ?_⟩
    · rw [hnext, Function.update_of_ne hci, Function.update_of_ne hct, hcn]
    · exact hC 0 i a b c n h.head hi (hab ▸ h.ring) hc hcn

/-! ## What is lost otherwise -/

/-- A used slot behind the slot that `process_create` takes is lost from the list. -/
theorem ListInv.create_loses (h : ListInv s l) (hf : maxProcesses ≤ fuel)
    {name : List UInt8} {entry priority ppid : UInt32}
    (hs : procStep fuel s (.create name entry priority ppid) = .ok s') (hP : ListIntact s') :
    TailUnused s (.create name entry priority ppid) := by
  intro h0 i a b hh hi hr j hjb
  obtain rfl : h0 = 0 := by simpa [h.head] using hh.symm
  obtain rfl : l = a ++ i :: b := h.ring.unique hr
  obtain ⟨s1, p, t, hs1, -, hr1, -, hstate, hhead, -⟩ := h.create hi hf name entry priority ppid
  obtain rfl : s1 = s' := by rw [hs1] at hs; exact Except.ok.inj hs
  obtain ⟨h0, l', hh', hr', hcount⟩ := hP
  obtain rfl : h0 = 0 := by simpa [hhead, h.head] using hh'.symm
  obtain rfl := hr'.unique hr1
  by_contra hlive
  have hji : j ≠ i := used_ne_taken hlive hi
  have hone := hcount j (used_of_taken hstate hji hlive)
  refine notMem_listAfterCreate hr.nodup hjb (List.count_pos_iff.mp ?_)
  omega

/-- If `current_proc->next` stands behind the slot that `process_create` takes, the second traversal of
`process_schedule` runs into the list and round it for ever. -/
theorem ListInv.create_spins (h : ListInv s l) (hf : maxProcesses ≤ fuel)
    {name : List UInt8} {entry priority ppid : UInt32}
    (hs : procStep fuel s (.create name entry priority ppid) = .ok s') (hP : ScheduleReturns s') :
    StartKept s (.create name entry priority ppid) := by
  intro h0 i a b c n hh hi hr hc hcn hnb
  obtain rfl : h0 = 0 := by simpa [h.head] using hh.symm
  obtain rfl : l = a ++ i :: b := h.ring.unique hr
  obtain ⟨s1, p, t, hs1, hpt, hr1, hnext, hstate, hhead, hcur⟩ := h.create hi hf name entry priority ppid
  obtain rfl : s1 = s' := by rw [hs1] at hs; exact Except.ok.inj hs
  have hnd := List.nodup_append.mp hr.nodup
  have h0a := head_before_taken hr hi
  have hn0 : n ≠ 0 := fun e => hnd.2.2 0 h0a n (by simp [hnb]) e.symm
  obtain ⟨b1, b2, rfl⟩ := List.append_of_mem hnb
  obtain ⟨q, hq⟩ : ∃ q, n :: b2 = q ++ [t] := by
    rcases List.eq_nil_or_concat (n :: b2) with he | ⟨q, t', he⟩
    · exact absurd he (by simp)
    · have hlast : a ++ i :: (b1 ++ q) ++ [t'] = p ++ [t] := by
        rw [← hpt, he]
        simp
      exact ⟨q, by rw [he, List.concat_eq_append, (List.append_inj' hlast rfl).2]⟩
  obtain ⟨S, hSn, hS⟩ := hr.cut_off (List.ne_nil_of_mem h0a) hq
  have hct : c ≠ t := by
    rintro rfl
    have hlast := (hpt ▸ hr : IsRing s.next 0 (p ++ [c])).last
    rw [hlast] at hcn
    exact hn0 (Option.some.inj hcn).symm
  obtain ⟨c', n', hc', hlive, -⟩ := h.current
  obtain rfl : c = c' := by rw [hc] at hc'; exact Option.some.inj hc'
  have hci : c ≠ i := used_ne_taken hlive hi
  obtain ⟨fuel', r, hret⟩ := hP 0 0
  refine processSchedule_forever (hhead.trans h.head) hr1 (hcur.trans hc) ?_ ?_ hSn fuel' 0 0 r hret
  · rw [hnext, Function.update_of_ne hci, Function.update_of_ne hct, hcn]
  · rw [hnext]
    exact hS

/-- The calls that can cut the list, and the others. -/
theorem takes_slot_or_not (s : Procs) (op : ProcOp) :
    (∃ name entry priority ppid i, op = .create name entry priority ppid ∧ freeSlot s = some i) ∨
      ∀ name entry priority ppid, op = .create name entry priority ppid → freeSlot s = none := by
  by_cases hop : ∃ name entry priority ppid i, op = .create name entry priority ppid ∧ freeSlot s = some i
  · exact .inl hop
  · refine .inr fun name entry priority ppid he => ?_
    apply Option.eq_none_iff_forall_not_mem.mpr
    intro i hi
    exact hop ⟨name, entry, priority, ppid, i, he, hi⟩

end Steps

/-! ## Every run -/

/-- A step under `TailUnused` keeps the list and every used slot on it. -/
theorem procStep_intact {fuel : ℕ} (hf : maxProcesses ≤ fuel) (s : Procs) (op : ProcOp)
    (h : ∃ l, ListInv s l ∧ HoldsUsed s l) (hC : TailUnused s op) :
    ∃ s', procStep fuel s op = .ok s' ∧ ∃ l, ListInv s' l ∧ HoldsUsed s' l := by
  obtain ⟨l, hl, hu⟩ := h
  rcases takes_slot_or_not s op with ⟨name, entry, priority, ppid, i, rfl, hi⟩ | hop
  · obtain ⟨s', l', hs, h1, h2⟩ := hl.create_intact hu hi hf name entry priority ppid hC
    exact ⟨s', hs, l', h1, h2⟩
  · obtain ⟨s', hs, h1, h2⟩ := hl.step_of_not_create hf op hop
    exact ⟨s', hs, l, h1, h2 hu⟩

/-- A step under `StartKept` keeps the list and a current process that leads onto it. -/
theorem procStep_kept {fuel : ℕ} (hf : maxProcesses ≤ fuel) (s : Procs) (op : ProcOp)
    (h : ∃ l, ListInv s l) (hC : StartKept s op) :
    ∃ s', procStep fuel s op = .ok s' ∧ ∃ l, ListInv s' l := by
  obtain ⟨l, hl⟩ := h
  rcases takes_slot_or_not s op with ⟨name, entry, priority, ppid, i, rfl, hi⟩ | hop
  · obtain ⟨s', l', hs, h1⟩ := hl.create_kept hi hf name entry priority ppid hC
    exact ⟨s', hs, l', h1⟩
  · obtain ⟨s', hs, h1, -⟩ := hl.step_of_not_create hf op hop
    exact ⟨s', hs, l, h1⟩

/-- **The process list holds every used slot once in every state of a run from `process_init`, exactly
when no `process_create` of the run takes a slot with a used slot behind it on the list.** -/
theorem process_list_intact_iff {fuel : ℕ} (hf : maxProcesses ≤ fuel) (s₀ : Procs) (ops : List ProcOp) :
    Along (procStep fuel) (processInit s₀) ListIntact ops ↔
      AllSteps (procStep fuel) (processInit s₀) TailUnused ops := by
  refine along_iff (I := fun s => ∃ l, ListInv s l ∧ HoldsUsed s l) ⟨[0], processInit_listInv s₀⟩ ?_
    (procStep_intact hf) ?_ ops
  · rintro s ⟨l, hl, hu⟩
    exact ⟨0, l, hl.head, hl.ring, fun i hi => List.count_eq_one_of_mem hl.ring.nodup (hu i hi)⟩
  · rintro s op s' ⟨l, hl, hu⟩ hs hP
    cases op with
    | create name entry priority ppid => exact hl.create_loses hf hs hP
    | exit pid => trivial
    | sleep ticks now => trivial
    | schedule esp now => trivial

/-- On the list `[0]` no slot can be taken. -/
theorem processInit_notTaken {s₀ : Procs} {h i : Slot} {a b : List Slot}
    (hh : (processInit s₀).head = some h) (hi : freeSlot (processInit s₀) = some i) :
    ¬ IsRing (processInit s₀).next h (a ++ i :: b) := by
  intro hr
  obtain rfl : (0 : Slot) = h := Option.some.inj hh
  have hlen := congrArg List.length (hr.unique (processInit_listInv s₀).1.ring)
  have hpos := List.length_pos_of_mem (head_before_taken hr hi)
  simp at hlen
  omega

theorem process_list_intact_create_exit :
    maxProcesses ≤ 16 ∧ Along (procStep 16) (processInit (bootProcs 0)) ListIntact
      [.create [97] 4096 1 0, .exit 1, .schedule 0 0] := by
  refine ⟨le_rfl, (process_list_intact_iff le_rfl (bootProcs 0) _).mpr ?_⟩
  refine allSteps_cons.mpr ⟨?_, fun s _ => allSteps_cons.mpr ⟨trivial, fun s _ =>
    allSteps_cons.mpr ⟨trivial, fun s _ => allSteps_nil⟩⟩⟩
  intro h i a b hh hi hr
  exact absurd hr (processInit_notTaken hh hi)

/-- Two processes; the first exits and is reaped; the next `process_create` takes its slot and loses
the second. -/
theorem process_list_loses_second :
    ¬ Along (procStep 16) (processInit (bootProcs 0)) ListIntact
      [.create [97] 4096 1 0, .create [98] 8192 1 0, .exit 1, .schedule 0 0, .create [99] 12288 1 0] := by
  apply not_along_of_returns
    (Q := fun s => s.head = some 0 ∧ s.next 0 = some 1 ∧ s.next 1 = some 0 ∧ s.state 2 ≠ .unused)
  · decide +kernel
  · rintro s ⟨hhead, h01, h10, h2⟩ ⟨h0, l, hh, hr, hcount⟩
    obtain rfl : h0 = 0 := by simpa [hhead] using hh.symm
    have hring := isRing_pair (by decide) h01 h10
    obtain rfl := hr.unique hring
    exact absurd (hcount 2 h2) (by decide)

/-- **`process_schedule` returns in every state of a run from `process_init`, exactly when no
`process_create` of the run takes a slot with `current_proc->next` behind it on the list.** -/
theorem process_schedule_returns_iff {fuel : ℕ} (hf : maxProcesses ≤ fuel) (s₀ : Procs)
    (ops : List ProcOp) :
    Along (procStep fuel) (processInit s₀) ScheduleReturns ops ↔
      AllSteps (procStep fuel) (processInit s₀) StartKept ops := by
  refine along_iff (I := fun s => ∃ l, ListInv s l) ⟨[0], (processInit_listInv s₀).1⟩ ?_
    (procStep_kept hf) ?_ ops
  · rintro s ⟨l, hl⟩ esp now
    obtain ⟨r, s', hs, -⟩ := hl.schedule le_rfl esp now
    exact ⟨_, _, hs⟩
  · rintro s op s' ⟨l, hl⟩ hs hP
    cases op with
    | create name entry priority ppid => exact hl.create_spins hf hs hP
    | exit pid => trivial
    | sleep ticks now => trivial
    | schedule esp now => trivial

theorem process_schedule_returns_create_exit :
    maxProcesses ≤ 16 ∧ Along (procStep 16) (processInit (bootProcs 0)) ScheduleReturns
      [.create [97] 4096 1 0, .exit 1, .schedule 0 0] := by
  refine ⟨le_rfl, (process_schedule_returns_iff le_rfl (bootProcs 0) _).mpr ?_⟩
  refine allSteps_cons.mpr ⟨?_, fun s _ => allSteps_cons.mpr ⟨trivial, fun s _ =>
    allSteps_cons.mpr ⟨trivial, fun s _ => allSteps_nil⟩⟩⟩
  intro h i a b c n hh hi hr
  exact absurd hr (processInit_notTaken hh hi)

/-- Three processes with the second one running; the first exits and is reaped, and the next
`process_create` takes its slot. The list is then 0, 1; from the third process, which is next to the
current one, the links lead to 1 and never back. -/
theorem process_schedule_spins :
    ¬ Along (procStep 16) (processInit (bootProcs 0)) ScheduleReturns
      [.create [97] 4096 1 0, .create [98] 8192 2 0, .create [99] 12288 1 0, .schedule 0 0, .exit 1,
        .schedule 0 0, .create [100] 16384 1 0] := by
  apply not_along_of_returns (Q := fun s => s.head = some 0 ∧ s.current = some 2 ∧ s.next 0 = some 1 ∧
    s.next 1 = some 0 ∧ s.next 2 = some 3 ∧ s.next 3 = some 1)
  · decide +kernel
  · rintro s ⟨hhead, hcur, h01, h10, h23, h31⟩ hret
    have hring := isRing_pair (by decide) h01 h10
    obtain ⟨fuel, r, hr⟩ := hret 0 0
    refine processSchedule_forever hhead hring hcur h23 (S := fun x => x = 3 ∨ x = 1 ∨ x = 0) ?_ (.inl rfl)
      fuel 0 0 r hr
    rintro x (rfl | rfl | rfl)
    · exact ⟨1, h31, by decide, .inr (.inl rfl)⟩
    · exact ⟨0, h10, by decide, .inr (.inr rfl)⟩
    · exact ⟨1, h01, by decide, .inr (.inl rfl)⟩

end RtosKernel
