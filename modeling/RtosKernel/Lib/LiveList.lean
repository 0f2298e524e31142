import Mathlib.Tactic

/-!
# Serving a list that changes meanwhile

A list of entries is served by index: each pass calls the entry at the index, if it is ready, and the call may remove
entries of the list and append new ones (`serveByIndex`). What it is meant to do is to call the entries of the list
as it was at the beginning, each in its turn, but those that are no longer there (`serveInTurn`). A removal moves the
entries behind it down, so that an entry may get to an index that has been passed, and is then left out. The two
agree on the entries of the beginning if and only if no call moves an entry whose turn is still to come to its own
index or below (`serveByIndex_iff`).
-/

namespace RtosKernel.Lib

variable {α σ : Type*}

/-! ## Lists without duplicates -/

section Nodup

variable {l l₁ l₂ : List α} {a : α} {k : ℕ}

/-- Of two sublists of a list without duplicates, the one that has fewer members is a sublist of the other. -/
theorem sublist_of_subset (hl : l.Nodup) (h₁ : l₁.Sublist l) (h₂ : l₂.Sublist l) (hsub : l₁ ⊆ l₂) :
    l₁.Sublist l₂ := by
  induction l generalizing l₁ l₂ with
  | nil =>
    rw [List.sublist_nil.mp h₁]
    exact List.nil_sublist _
  | cons x l ih =>
    obtain ⟨hx, hl⟩ := List.nodup_cons.mp hl
    rcases List.sublist_cons_iff.mp h₂ with hr₂ | ⟨m₂, rfl, hr₂⟩
    · rcases List.sublist_cons_iff.mp h₁ with hr₁ | ⟨m₁, rfl, -⟩
      · exact ih hl hr₁ hr₂ hsub
      · exact absurd (hr₂.subset (hsub (List.mem_cons_self ..))) hx
    · have hrest {m : List α} (hm : m.Sublist l) (hm₂ : m ⊆ x :: m₂) : m.Sublist m₂ := by
        apply ih hl hm hr₂
        intro y hy
        rcases List.mem_cons.mp (hm₂ hy) with rfl | hy'
        · exact absurd (hm.subset hy) hx
        · exact hy'
      rcases List.sublist_cons_iff.mp h₁ with hr₁ | ⟨m₁, rfl, hr₁⟩
      · exact (hrest hr₁ hsub).cons x
      · exact (hrest hr₁ fun y hy => hsub (List.mem_cons_of_mem _ hy)).cons_cons x

/-- What comes after an entry behind index `k` is behind index `k` too. -/
theorem mem_drop_of_sublist (hl : l.Nodup) (h : (a :: l₁).Sublist l) (ha : a ∈ l.drop k) {b : α} (hb : b ∈ l₁) :
    b ∈ l.drop k := by
  rw [← List.take_append_drop k l] at h hl
  obtain ⟨m₁, m₂, he, h₁, h₂⟩ := List.sublist_append_iff.mp h
  cases m₁ with
  | nil =>
    obtain rfl : a :: l₁ = m₂ := he
    exact h₂.subset (List.mem_cons_of_mem _ hb)
  | cons x m₁ =>
    obtain ⟨rfl, -⟩ := List.cons.inj he
    have htake : a ∈ l.take k := h₁.subset (List.mem_cons_self ..)
    exact absurd ha ((List.nodup_append.mp hl).2.2 a htake a · rfl)

theorem mem_drop_iff_idxOf [DecidableEq α] (hl : l.Nodup) (ha : a ∈ l) : a ∈ l.drop k ↔ k ≤ l.idxOf a := by
  have hlt := List.idxOf_lt_length_of_mem ha
  constructor
  · intro h
    obtain ⟨j, hj, he⟩ := List.mem_iff_getElem.mp h
    rw [List.getElem_drop] at he
    rw [← he, hl.idxOf_getElem]
    exact Nat.le_add_right _ _
  · intro h
    rw [List.mem_iff_getElem]
    refine ⟨l.idxOf a - k, ?_, ?_⟩
    · rw [List.length_drop]
      omega
    · rw [List.getElem_drop]
      simp only [Nat.add_sub_cancel' h, List.getElem_idxOf]

end Nodup

/-! ## Serving -/

section Serve

variable (items : σ → List α) (act : α → σ → σ) (ready : α → Bool)

/-- Serving by index, from index `i` on and for at most `n` passes: the state at the end, and the entries that were
called. -/
def serveByIndex : ℕ → ℕ → σ → σ × List α
  | 0, _, s => (s, [])
  | n + 1, i, s =>
    match (items s)[i]? with
    | none => (s, [])
    | some a =>
      if ready a then
        let r := serveByIndex n (i + 1) (act a s)
        (r.1, a :: r.2)
      else serveByIndex n (i + 1) s

/-- What is assumed of the calls: there are never duplicates, the old entries come first, and a call removes entries
and appends ones that are not old. -/
structure Served (old : α → Bool) (I : σ → Prop) : Prop where
  nodup : ∀ {s}, I s → (items s).Nodup
  first : ∀ {s}, I s → (items s).Pairwise fun x y => old y → old x
  inv : ∀ {s} a, I s → I (act a s)
  change : ∀ {s} a, I s → ∃ kept added, kept.Sublist (items s) ∧ items (act a s) = kept ++ added ∧
    ∀ x ∈ added, ¬ old x

/-- The old entries from index `i` on that are ready. -/
def ahead (old : α → Bool) (i : ℕ) (s : σ) : List α := ((items s).drop i).filter fun x => old x && ready x

variable {items act ready} {old : α → Bool} {I : σ → Prop} {s : σ} {a b x : α} {as as' : List α} {i n : ℕ}

theorem mem_ahead : x ∈ ahead items ready old i s ↔ x ∈ (items s).drop i ∧ old x ∧ ready x := by
  simp only [ahead, List.mem_filter, Bool.and_eq_true]

theorem ahead_sublist : (ahead items ready old i s).Sublist (items s) :=
  List.filter_sublist.trans (List.drop_sublist ..)

theorem serveByIndex_ready (hi : (items s)[i]? = some a) (hready : ready a) :
    (serveByIndex items act ready (n + 1) i s).2 = a :: (serveByIndex items act ready n (i + 1) (act a s)).2 := by
  rw [serveByIndex, hi]
  simp only [hready, if_true]

theorem serveByIndex_skip (hi : (items s)[i]? = some a) (hready : ¬ ready a) :
    serveByIndex items act ready (n + 1) i s = serveByIndex items act ready n (i + 1) s := by
  rw [serveByIndex, hi]
  simp only [hready, if_false, Bool.false_eq_true]

/-- An entry that is not called is not ahead. -/
theorem ahead_skip (hi : (items s)[i]? = some a) (hready : ¬ ready a) :
    ahead items ready old i s = ahead items ready old (i + 1) s := by
  obtain ⟨hlt, rfl⟩ := List.getElem?_eq_some_iff.mp hi
  rw [ahead, ahead, List.drop_eq_getElem_cons hlt, List.filter_cons_of_neg (by simp [hready])]

/-- If an old entry is ahead, the entry at the index is old. -/
theorem Served.ahead_ready (h : Served items act old I) (hI : I s) (hi : (items s)[i]? = some a) (hready : ready a)
    (hb : b ∈ ahead items ready old i s) : ahead items ready old i s = a :: ahead items ready old (i + 1) s := by
  obtain ⟨hlt, rfl⟩ := List.getElem?_eq_some_iff.mp hi
  obtain ⟨hbdrop, hbold, -⟩ := mem_ahead.mp hb
  have hdrop : (items s).drop i = (items s)[i] :: (items s).drop (i + 1) := List.drop_eq_getElem_cons hlt
  have hold : old (items s)[i] := by
    have hfirst := (h.first hI).sublist (List.drop_sublist i _)
    rw [hdrop] at hfirst hbdrop
    rcases List.mem_cons.mp hbdrop with rfl | hb'
    · exact hbold
    · exact List.rel_of_pairwise_cons hfirst hb' hbold
  rw [ahead, ahead, hdrop, List.filter_cons_of_pos (by simp [hold, hready])]

/-- A call brings no old entry to an index that it was not behind before. -/
theorem Served.mem_drop_of_act (h : Served items act old I) (hI : I s) (hx : x ∈ (items (act a s)).drop i)
    (hold : old x) : x ∈ (items s).drop i := by
  obtain ⟨kept, added, hkept, he, hadded⟩ := h.change a hI
  rw [he, List.drop_append] at hx
  rcases List.mem_append.mp hx with hx | hx
  · exact (hkept.drop i).subset hx
  · exact absurd hold (hadded x (List.mem_of_mem_drop hx))

/-- Only what is still ahead is called. -/
theorem Served.mem_ahead_of_called (h : Served items act old I) (hI : I s)
    (hx : x ∈ (serveByIndex items act ready n i s).2) (hold : old x) : x ∈ ahead items ready old i s := by
  induction n generalizing i s with
  | zero => exact absurd hx List.not_mem_nil
  | succ n ih =>
    rw [serveByIndex] at hx
    cases hi : (items s)[i]? with
    | none =>
      rw [hi] at hx
      exact absurd hx List.not_mem_nil
    | some a =>
      obtain ⟨hlt, rfl⟩ := List.getElem?_eq_some_iff.mp hi
      rw [mem_ahead, List.drop_eq_getElem_cons hlt]
      simp only [hi] at hx
      split_ifs at hx with hready
      · rcases List.mem_cons.mp hx with rfl | hx'
        · exact ⟨List.mem_cons_self .., hold, hready⟩
        · obtain ⟨hdrop, -, hrx⟩ := mem_ahead.mp (ih (h.inv _ hI) hx')
          exact ⟨List.mem_cons_of_mem _ (h.mem_drop_of_act hI hdrop hold), hold, hrx⟩
      · obtain ⟨hdrop, -, hrx⟩ := mem_ahead.mp (ih hI hx)
        exact ⟨List.mem_cons_of_mem _ hdrop, hold, hrx⟩

/-- With nothing ahead, no old entry is called. -/
theorem Served.serves_nothing (h : Served items act old I) (hI : I s) (hahead : ahead items ready old i s = []) :
    (serveByIndex items act ready n i s).2.filter old = [] := by
  rw [List.filter_eq_nil_iff]
  intro x hx hold
  have hmem := h.mem_ahead_of_called hI hx hold
  rw [hahead] at hmem
  exact absurd hmem List.not_mem_nil

variable [DecidableEq α]

variable (items act ready) in
/-- Serving in turn: the entries that are ready and still there when their turn comes. -/
def serveInTurn : List α → σ → List α
  | [], _ => []
  | a :: as, s => if ready a ∧ a ∈ items s then a :: serveInTurn as (act a s) else serveInTurn as s

variable (items act ready) in
/-- Each call leaves the entries whose turn is still to come behind the index of the entry that is called. -/
def KeepsTurns : List α → σ → Prop
  | [], _ => True
  | a :: as, s =>
    if ready a ∧ a ∈ items s then
      (∀ b ∈ as, ready b → b ∈ items (act a s) → (items s).idxOf a < (items (act a s)).idxOf b) ∧
        KeepsTurns as (act a s)
    else KeepsTurns as s

variable (items ready) in
/-- The entries of a list that are ready and still there. -/
def alive (as : List α) (s : σ) : List α := as.filter fun x => ready x && decide (x ∈ items s)

theorem mem_alive : x ∈ alive items ready as s ↔ x ∈ as ∧ ready x ∧ x ∈ items s := by
  simp only [alive, List.mem_filter, Bool.and_eq_true, decide_eq_true_eq]

theorem serveInTurn_sublist : (serveInTurn items act ready as s).Sublist as := by
  induction as generalizing s with
  | nil => exact List.Sublist.refl _
  | cons a as ih =>
    rw [serveInTurn]
    split_ifs
    · exact ih.cons_cons a
    · exact ih.cons a

variable (act) in
/-- With nothing alive, nothing is served in turn, and all turns are kept. -/
theorem serveInTurn_nil (h : alive items ready as s = []) :
    serveInTurn items act ready as s = [] ∧ KeepsTurns items act ready as s := by
  induction as with
  | nil => exact ⟨rfl, trivial⟩
  | cons a as ih =>
    have hnone := List.filter_eq_nil_iff.mp h
    have hdead : ¬ (ready a ∧ a ∈ items s) := by simpa using hnone a (List.mem_cons_self ..)
    rw [serveInTurn, KeepsTurns, if_neg hdead, if_neg hdead]
    exact ih (List.filter_eq_nil_iff.mpr fun x hx => hnone x (List.mem_cons_of_mem _ hx))

variable (act) in
/-- The first entry that is alive has the next turn. -/
theorem serveInTurn_cons {rest : List α} (h : alive items ready as s = a :: rest) :
    ∃ as', alive items ready as' s = rest ∧ as' ⊆ as ∧
      serveInTurn items act ready as s = a :: serveInTurn items act ready as' (act a s) ∧
      (KeepsTurns items act ready as s ↔
        (∀ b ∈ as', ready b → b ∈ items (act a s) → (items s).idxOf a < (items (act a s)).idxOf b) ∧
          KeepsTurns items act ready as' (act a s)) := by
  induction as with
  | nil => exact absurd h (by simp [alive])
  | cons b as ih =>
    by_cases hb : ready b ∧ b ∈ items s
    · have hcons : alive items ready (b :: as) s = b :: alive items ready as s :=
        List.filter_cons_of_pos (by simpa using hb)
      rw [hcons] at h
      obtain ⟨rfl, hrest⟩ := List.cons.inj h
      refine ⟨as, hrest, List.subset_cons_self .., ?_, ?_⟩
      · rw [serveInTurn, if_pos hb]
      · rw [KeepsTurns, if_pos hb]
    · have hcons : alive items ready (b :: as) s = alive items ready as s :=
        List.filter_cons_of_neg (by simpa using hb)
      rw [hcons] at h
      obtain ⟨as', hrest, hsub, hserve, hkeeps⟩ := ih h
      refine ⟨as', hrest, List.subset_cons_of_subset b hsub, ?_, ?_⟩
      · rw [serveInTurn, if_neg hb, hserve]
      · rw [KeepsTurns, if_neg hb, hkeeps]

namespace Served

variable (h : Served items act old I)

include h

/-- A call makes no old entry alive. -/
theorem alive_act (hI : I s) (hold : ∀ x ∈ as, old x) (a : α) :
    alive items ready as (act a s) = (alive items ready as s).filter fun x => decide (x ∈ items (act a s)) := by
  rw [alive, alive, List.filter_filter]
  apply List.filter_congr
  intro x hx
  have hback : x ∈ items (act a s) → x ∈ items s := by
    intro hmem
    exact List.drop_zero (l := items s) ▸ h.mem_drop_of_act (i := 0) hI hmem (hold x hx)
  by_cases hmem : x ∈ items (act a s)
  · simp [hmem, hback hmem]
  · simp [hmem]

/-- What is alive after a call is in the order of the list. -/
theorem alive_sublist (hI : I s) (hold : ∀ x ∈ as, old x) (hsub : (alive items ready as s).Sublist (items s)) (a : α) :
    (alive items ready as (act a s)).Sublist (items s) ∧
      (alive items ready as (act a s)).Sublist (items (act a s)) := by
  obtain ⟨kept, added, hkept, he, hadded⟩ := h.change a hI
  have hitems : (alive items ready as (act a s)).Sublist (items s) := by
    rw [h.alive_act hI hold]
    exact List.filter_sublist.trans hsub
  have hmem : alive items ready as (act a s) ⊆ kept := by
    intro x hx
    obtain ⟨hxas, -, hx⟩ := mem_alive.mp hx
    rw [he] at hx
    rcases List.mem_append.mp hx with hx | hx
    · exact hx
    · exact absurd (hold x hxas) (hadded x hx)
  refine ⟨hitems, ?_⟩
  rw [he]
  exact (sublist_of_subset (h.nodup hI) hitems hkept hmem).trans (List.sublist_append_left ..)

/-- After a call, the entries that are alive are those that are ahead if and only if they are behind index `i`. -/
theorem alive_eq_ahead_iff (hI : I s) (hold : ∀ x ∈ as, old x)
    (halive : alive items ready as s = ahead items ready old i s) (a : α) :
    alive items ready as (act a s) = ahead items ready old i (act a s) ↔
      alive items ready as (act a s) ⊆ (items (act a s)).drop i := by
  have hsub : (alive items ready as s).Sublist (items s) := halive ▸ ahead_sublist
  constructor
  · intro he x hx
    rw [he] at hx
    exact (mem_ahead.mp hx).1
  · intro hdrop
    have hle : ahead items ready old i (act a s) ⊆ alive items ready as (act a s) := by
      intro x hx
      obtain ⟨hxdrop, hxold, hready⟩ := mem_ahead.mp hx
      have hahead : x ∈ ahead items ready old i s :=
        mem_ahead.mpr ⟨h.mem_drop_of_act hI hxdrop hxold, hxold, hready⟩
      rw [← halive] at hahead
      exact mem_alive.mpr ⟨(mem_alive.mp hahead).1, hready, List.mem_of_mem_drop hxdrop⟩
    have hge : alive items ready as (act a s) ⊆ ahead items ready old i (act a s) := by
      intro x hx
      obtain ⟨hxas, hready, -⟩ := mem_alive.mp hx
      exact mem_ahead.mpr ⟨hdrop hx, hold x hxas, hready⟩
    have hsub' := (h.alive_sublist hI hold hsub a).2
    have hnodup := h.nodup (h.inv a hI)
    exact (sublist_of_subset hnodup hsub' ahead_sublist hge).antisymm
      (sublist_of_subset hnodup ahead_sublist hsub' hle)

/-- In terms of indices: the call at index `i` leaves what is alive behind it. -/
theorem behind_iff (hI : I s) (hold : ∀ x ∈ as, old x)
    (halive : alive items ready as s = ahead items ready old (i + 1) s) (hi : (items s)[i]? = some a) :
    (∀ b ∈ as, ready b → b ∈ items (act a s) → (items s).idxOf a < (items (act a s)).idxOf b) ↔
      alive items ready as (act a s) = ahead items ready old (i + 1) (act a s) := by
  obtain ⟨hlt, rfl⟩ := List.getElem?_eq_some_iff.mp hi
  have hnodup := h.nodup (h.inv (items s)[i] hI)
  rw [h.alive_eq_ahead_iff hI hold halive, (h.nodup hI).idxOf_getElem i hlt]
  constructor
  · intro hbehind x hx
    obtain ⟨hxas, hxready, hmem⟩ := mem_alive.mp hx
    exact (mem_drop_iff_idxOf hnodup hmem).mpr (hbehind x hxas hxready hmem)
  · intro hsub x hxas hxready hmem
    exact (mem_drop_iff_idxOf hnodup hmem).mp (hsub (mem_alive.mpr ⟨hxas, hxready, hmem⟩))

/-- If the entries that are called are those whose turn it is, none of them has been passed. -/
theorem alive_subset_drop (hI : I s) (hsub : (alive items ready as s).Sublist (items s))
    (hserve : (serveByIndex items act ready n i s).2.filter old = serveInTurn items act ready as s) :
    alive items ready as s ⊆ (items s).drop i := by
  intro x hx
  cases halive : alive items ready as s with
  | nil =>
    rw [halive] at hx
    exact absurd hx List.not_mem_nil
  | cons a rest =>
    obtain ⟨as', -, -, hfirst, -⟩ := serveInTurn_cons act halive
    have ha : a ∈ (serveByIndex items act ready n i s).2.filter old := by
      rw [hserve, hfirst]
      exact List.mem_cons_self ..
    obtain ⟨hcalled, holda⟩ := List.mem_filter.mp ha
    have hdrop := (mem_ahead.mp (h.mem_ahead_of_called hI hcalled holda)).1
    rw [halive] at hx hsub
    rcases List.mem_cons.mp hx with rfl | hrest
    · exact hdrop
    · exact mem_drop_of_sublist (h.nodup hI) hsub hdrop hrest

/-- If a call is followed by those whose turn it is, it has moved none of them to an index that is passed. -/
theorem alive_eq_ahead_of_served (hI : I s) (hold : ∀ x ∈ as, old x)
    (halive : alive items ready as s = ahead items ready old i s)
    (hserve : (serveByIndex items act ready n i (act a s)).2.filter old = serveInTurn items act ready as (act a s)) :
    alive items ready as (act a s) = ahead items ready old i (act a s) := by
  have hsublist := (h.alive_sublist hI hold (halive ▸ ahead_sublist) a).2
  exact (h.alive_eq_ahead_iff hI hold halive a).mpr (h.alive_subset_drop (h.inv a hI) hsublist hserve)

/-- From an index from which the entries that are alive are ahead: serving by index calls the old entries that serving
in turn calls if and only if the turns are kept. -/
theorem serveByIndex_iff_of_ahead (hlen : ∀ s, I s → (items s).length ≤ i + n) (hI : I s) (hold : ∀ x ∈ as, old x)
    (halive : alive items ready as s = ahead items ready old i s) :
    (serveByIndex items act ready n i s).2.filter old = serveInTurn items act ready as s ↔
      KeepsTurns items act ready as s := by
  induction n generalizing i s as with
  | zero =>
    have hnil : ahead items ready old i s = [] := by
      have hle : (items s).length ≤ i := hlen s hI
      rw [ahead, List.drop_eq_nil_of_le hle, List.filter_nil]
    obtain ⟨hserve, hkeeps⟩ := serveInTurn_nil act (halive.trans hnil)
    rw [hserve, h.serves_nothing hI hnil]
    exact iff_of_true rfl hkeeps
  | succ n ih =>
    cases hahead : ahead items ready old i s with
    | nil =>
      obtain ⟨hserve, hkeeps⟩ := serveInTurn_nil act (halive.trans hahead)
      rw [hserve, h.serves_nothing hI hahead]
      exact iff_of_true rfl hkeeps
    | cons b rest =>
      have hb : b ∈ ahead items ready old i s := hahead ▸ List.mem_cons_self ..
      have hlen' : ∀ s, I s → (items s).length ≤ i + 1 + n := by
        intro s hI
        have := hlen s hI
        omega
      cases hi : (items s)[i]? with
      | none =>
        have hbdrop := (mem_ahead.mp hb).1
        rw [List.drop_eq_nil_of_le (List.getElem?_eq_none_iff.mp hi)] at hbdrop
        exact absurd hbdrop List.not_mem_nil
      | some a =>
        by_cases hready : ready a
        · have hcons := h.ahead_ready hI hi hready hb
          have holda : old a := (mem_ahead.mp (hcons ▸ List.mem_cons_self ..)).2.1
          obtain ⟨as', halive', hsub, hserve, hkeeps⟩ := serveInTurn_cons act (halive.trans hcons)
          have hold' : ∀ x ∈ as', old x := fun x hx => hold x (hsub hx)
          rw [hserve, hkeeps, h.behind_iff hI hold' halive' hi, serveByIndex_ready hi hready,
            List.filter_cons_of_pos holda, List.cons.injEq]
          constructor
          · rintro ⟨-, hcalls⟩
            have heq := h.alive_eq_ahead_of_served hI hold' halive' hcalls
            exact ⟨heq, (ih hlen' (h.inv a hI) hold' heq).mp hcalls⟩
          · rintro ⟨heq, hturns⟩
            exact ⟨rfl, (ih hlen' (h.inv a hI) hold' heq).mpr hturns⟩
        · rw [serveByIndex_skip hi hready]
          exact ih hlen' hI hold (halive.trans (ahead_skip hi hready))

/-- Over the list of the beginning. -/
theorem serveByIndex_iff (hlen : ∀ s, I s → (items s).length ≤ n) (hI : I s) (hold : ∀ x ∈ items s, old x) :
    (serveByIndex items act ready n 0 s).2.filter old = serveInTurn items act ready (items s) s ↔
      KeepsTurns items act ready (items s) s := by
  refine h.serveByIndex_iff_of_ahead (fun s hI => (hlen s hI).trans (Nat.zero_add n).ge) hI hold ?_
  apply List.filter_congr
  intro x hx
  simp [hx, hold x hx]

end Served

end Serve

end RtosKernel.Lib
