import Mathlib.Tactic

/-!
# Scans for a largest element

The loop `if (ok(a) && key(a) > best_key) { best = a; best_key = key(a); }` over a list, and the same loop
with `>=`. The first finds the first of the largest elements among those that count (`FirstMax`), the second
the last of them (`LastMax`); which one it is decides who wins a tie. A key is compared by its rank, so that
the keys themselves may be machine words.
-/

namespace RtosKernel.Lib

variable {α K κ : Type*} [LinearOrder κ]

/-- `a` is the first element of `l` that counts and has the largest key. -/
structure FirstMax (ok : α → Prop) (key : α → κ) (l : List α) (a : α) : Prop where
  counts : ok a
  max : ∀ x ∈ l, ok x → key x ≤ key a
  first : ∃ before after, l = before ++ a :: after ∧ ∀ x ∈ before, ok x → key x < key a

/-- `a` is the last element of `l` that counts and has the largest key. -/
structure LastMax (ok : α → Prop) (key : α → κ) (l : List α) (a : α) : Prop where
  counts : ok a
  max : ∀ x ∈ l, ok x → key x ≤ key a
  last : ∃ before after, l = before ++ a :: after ∧ ∀ x ∈ after, ok x → key x < key a

section Scans

variable (ok : α → Prop) [DecidablePred ok] (key : α → K) (rank : K → κ)

/-- One pass of the loop with `>`. -/
def keepFirst (b : Option α × K) (a : α) : Option α × K :=
  if ok a ∧ rank b.2 < rank (key a) then (some a, key a) else b

/-- One pass of the loop with `>=`. -/
def keepLast (b : Option α × K) (a : α) : Option α × K :=
  if ok a ∧ rank b.2 ≤ rank (key a) then (some a, key a) else b

theorem forall_mem_concat {P : α → Prop} {l : List α} {a : α} (hl : ∀ x ∈ l, P x) (ha : P a) :
    ∀ x ∈ l ++ [a], P x := by
  intro x hx
  rcases List.mem_append.mp hx with hx | hx
  · exact hl x hx
  · rw [List.mem_singleton.mp hx]
    exact ha

/-- The loop with `>` finds the first of the largest elements above its start value. -/
theorem foldl_keepFirst (k₀ : K) (l : List α) :
    (∃ a, l.foldl (keepFirst ok key rank) (none, k₀) = (some a, key a) ∧
      FirstMax (fun x => ok x ∧ rank k₀ < rank (key x)) (fun x => rank (key x)) l a) ∨
    (l.foldl (keepFirst ok key rank) (none, k₀) = (none, k₀) ∧ ∀ x ∈ l, ¬ (ok x ∧ rank k₀ < rank (key x))) := by
  induction l using List.reverseRecOn with
  | nil => exact .inr ⟨rfl, by simp⟩
  | append_singleton l a ih =>
    rw [List.foldl_append]
    simp only [List.foldl_cons, List.foldl_nil]
    rcases ih with ⟨b, hb, hmax⟩ | ⟨hnone, hno⟩
    · rw [hb]
      by_cases ha : ok a ∧ rank (key b) < rank (key a)
      · -- the new element is larger than all before
        have hbelow : ∀ x ∈ l, ok x ∧ rank k₀ < rank (key x) → rank (key x) < rank (key a) :=
          fun x hx hok => (hmax.max x hx hok).trans_lt ha.2
        refine .inl ⟨a, by rw [keepFirst, if_pos ha], ⟨ha.1, hmax.counts.2.trans ha.2⟩, ?_, l, [], rfl, hbelow⟩
        exact forall_mem_concat (fun x hx hok => (hbelow x hx hok).le) fun _ => le_rfl
      · obtain ⟨before, after, hl, hfirst⟩ := hmax.first
        refine .inl ⟨b, by rw [keepFirst, if_neg ha], hmax.counts, ?_, before, after ++ [a], by simp [hl], hfirst⟩
        exact forall_mem_concat hmax.max fun hok => not_lt.mp fun hlt => ha ⟨hok.1, hlt⟩
    · rw [hnone]
      by_cases ha : ok a ∧ rank k₀ < rank (key a)
      · refine .inl ⟨a, by rw [keepFirst, if_pos ha], ha, ?_, l, [], rfl, fun x hx hok => absurd hok (hno x hx)⟩
        exact forall_mem_concat (fun x hx hok => absurd hok (hno x hx)) fun _ => le_rfl
      · exact .inr ⟨by rw [keepFirst, if_neg ha], forall_mem_concat hno ha⟩

/-- The loop with `>=` finds the last of the largest elements from its start value on. -/
theorem foldl_keepLast (k₀ : K) (l : List α) :
    (∃ a, l.foldl (keepLast ok key rank) (none, k₀) = (some a, key a) ∧
      LastMax (fun x => ok x ∧ rank k₀ ≤ rank (key x)) (fun x => rank (key x)) l a) ∨
    (l.foldl (keepLast ok key rank) (none, k₀) = (none, k₀) ∧ ∀ x ∈ l, ¬ (ok x ∧ rank k₀ ≤ rank (key x))) := by
  induction l using List.reverseRecOn with
  | nil => exact .inr ⟨rfl, by simp⟩
  | append_singleton l a ih =>
    rw [List.foldl_append]
    simp only [List.foldl_cons, List.foldl_nil]
    rcases ih with ⟨b, hb, hmax⟩ | ⟨hnone, hno⟩
    · rw [hb]
      by_cases ha : ok a ∧ rank (key b) ≤ rank (key a)
      · refine .inl ⟨a, by rw [keepLast, if_pos ha], ⟨ha.1, hmax.counts.2.trans ha.2⟩, ?_, l, [], rfl, by simp⟩
        exact forall_mem_concat (fun x hx hok => (hmax.max x hx hok).trans ha.2) fun _ => le_rfl
      · -- the new element does not count, or is smaller
        have hbelow : ok a ∧ rank k₀ ≤ rank (key a) → rank (key a) < rank (key b) :=
          fun hok => not_le.mp fun hle => ha ⟨hok.1, hle⟩
        obtain ⟨before, after, hl, hlast⟩ := hmax.last
        refine .inl ⟨b, by rw [keepLast, if_neg ha], hmax.counts, ?_, before, after ++ [a], by simp [hl], ?_⟩
        · exact forall_mem_concat hmax.max fun hok => (hbelow hok).le
        · exact forall_mem_concat hlast hbelow
    · rw [hnone]
      by_cases ha : ok a ∧ rank k₀ ≤ rank (key a)
      · refine .inl ⟨a, by rw [keepLast, if_pos ha], ha, ?_, l, [], rfl, by simp⟩
        exact forall_mem_concat (fun x hx hok => absurd hok (hno x hx)) fun _ => le_rfl
      · exact .inr ⟨by rw [keepLast, if_neg ha], forall_mem_concat hno ha⟩

end Scans

section Largest

variable {ok : α → Prop} {key : α → κ} {l : List α} {a : α}

theorem FirstMax.mem (h : FirstMax ok key l a) : a ∈ l := by
  obtain ⟨before, after, rfl, -⟩ := h.first
  simp

theorem LastMax.mem (h : LastMax ok key l a) : a ∈ l := by
  obtain ⟨before, after, rfl, -⟩ := h.last
  simp

/-- If the scan with `>` ends with the last element of the list, all others that count are smaller. -/
theorem FirstMax.lt_last {x y : α} (h : FirstMax ok key (l ++ [x]) x) (hx : x ∉ l) (hy : y ∈ l) (hok : ok y) :
    key y < key x := by
  obtain ⟨before, after, hl, hfirst⟩ := h.first
  rcases List.eq_nil_or_concat after with rfl | ⟨after', z, rfl⟩
  · obtain rfl : l = before := (List.append_inj' hl rfl).1
    exact hfirst y hy hok
  · have hend : l ++ [x] = (before ++ x :: after') ++ [z] := by simpa using hl
    refine absurd ?_ hx
    rw [(List.append_inj' hend rfl).1]
    simp

/-- If the last element of the list is one of the largest, the scan with `>=` ends with it. -/
theorem LastMax.eq_last {x : α} (h : LastMax ok key (l ++ [x]) a) (hx : ok x) (hmax : key a ≤ key x) : a = x := by
  obtain ⟨before, after, hl, hlast⟩ := h.last
  rcases List.eq_nil_or_concat after with rfl | ⟨after', y, rfl⟩
  · have hend := (List.append_inj' hl rfl).2
    simpa using hend.symm
  · have hend : l ++ [x] = (before ++ a :: after') ++ [y] := by simpa using hl
    obtain rfl : x = y := by simpa using (List.append_inj' hend rfl).2
    exact absurd (hlast x (by simp) hx) (not_lt.mpr hmax)

end Largest

/-- The list entered behind one of its elements, which then comes last. -/
theorem rotate_perm (before after : List α) (b : α) : (after ++ before ++ [b]).Perm (before ++ b :: after) := by
  rw [List.append_assoc]
  exact List.perm_append_comm.trans (by simp)

/-- A list whose first element with `P` is `b`, and the same list entered behind `b`: the elements with `P`
are met in turn, with `b` at first in front and then at the end. -/
theorem filter_rotate {P : α → Prop} [DecidablePred P] {before : List α} {b : α} (after : List α)
    (hbefore : ∀ x ∈ before, ¬ P x) (hb : P b) :
    (before ++ b :: after).filter (fun x => P x) = b :: after.filter (fun x => P x) ∧
      (after ++ before ++ [b]).filter (fun x => P x) = after.filter (fun x => P x) ++ [b] := by
  have hnone : before.filter (fun x => P x) = [] := by
    rw [List.filter_eq_nil_iff]
    intro x hx hP
    exact hbefore x hx (of_decide_eq_true hP)
  constructor
  · simp [hnone, hb]
  · simp [hnone, hb]

end RtosKernel.Lib
