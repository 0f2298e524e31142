import Mathlib.Data.List.TakeWhile
import Mathlib.Tactic

/-!
# Words of a text

The words of a list, for a predicate that holds of the separators, are its maximal runs of elements that are
not separators (`words`). A scanner that copies each word into a cell of `n` elements and goes on where it
stopped cuts a longer word into `pieces`; one that skipped the rest would keep the first `n` elements. The two
give the same first `N` cells exactly if `CutsWords`.
-/

namespace RtosKernel.Lib

variable {α : Type*} {p : α → Bool} {c : α} {cs w : List α} {n : ℕ}

/-- The maximal runs of elements that are not separators, in order. -/
def words (p : α → Bool) (l : List α) : List (List α) := (l.splitOnP p).filter fun w => !w.isEmpty

/-- A list in pieces of `n` elements; the last one may be shorter. -/
def pieces (n : ℕ) (w : List α) : List (List α) :=
  (List.range ((w.length + n - 1) / n)).map fun k => (w.drop (n * k)).take n

/-- At the first word that is longer than `n`, if a cell is left after it: the rest of the word and the
words behind it, in pieces, fill these cells as the words behind it alone do, each with its end cut off. -/
def CutsWords (n N : ℕ) (ws : List (List α)) : Prop :=
  ∀ pre w post, ws = pre ++ w :: post → (∀ v ∈ pre, v.length ≤ n) → n < w.length → pre.length + 1 < N →
    ((w.drop n :: post).flatMap (pieces n)).take (N - (pre.length + 1)) =
      (post.map (·.take n)).take (N - (pre.length + 1))

/-! ## Words -/

theorem words_nil : words p ([] : List α) = [] := rfl

theorem words_cons_of_sep (hc : p c = true) : words p (c :: cs) = words p cs := by
  rw [words, words, List.splitOnP_cons_eq_if_modifyHead, if_pos hc, List.filter_cons_of_neg (by simp)]

theorem words_dropWhile (p : α → Bool) (l : List α) : words p (l.dropWhile p) = words p l := by
  induction l with
  | nil => rfl
  | cons c cs ih =>
    by_cases hc : p c = true
    · rw [List.dropWhile_cons_of_pos hc, ih, words_cons_of_sep hc]
    · rw [List.dropWhile_cons_of_neg hc]

/-- A run that goes up to a separator, or to the end, is a word. -/
theorem words_run_append {rest : List α} (hw : ∀ x ∈ w, p x = false) (hne : w ≠ [])
    (hrest : ∀ d ∈ rest.head?, p d = true) : words p (w ++ rest) = w :: words p rest := by
  cases rest with
  | nil =>
    rw [List.append_nil, words, List.splitOnP_eq_singleton hw, List.filter_cons_of_pos (by simpa using hne),
      List.filter_nil, words_nil]
  | cons d rest =>
    have hd : p d = true := hrest d rfl
    rw [words_cons_of_sep hd, words, List.splitOnP_append_cons_of_forall_mem hw d hd,
      List.filter_cons_of_pos (by simpa using hne), words]

theorem not_of_mem_head?_dropWhile {d : α} (p : α → Bool) {l : List α} (hd : d ∈ (l.dropWhile p).head?) :
    p d = false := by
  have hnot := List.head?_dropWhile_not p l
  rw [hd] at hnot
  simpa using hnot

theorem mem_run {x : α} (hx : x ∈ cs.takeWhile fun x => !p x) : p x = false := by
  simpa using List.mem_takeWhile_imp hx

theorem ne_nil_of_mem_words {l : List α} (hw : w ∈ words p l) : w ≠ [] := by
  simpa using (List.mem_filter.mp hw).2

theorem mem_of_mem_splitOnP {l : List α} (hw : w ∈ l.splitOnP p) (hc : c ∈ w) : c ∈ l := by
  induction l generalizing w with
  | nil =>
    obtain rfl : w = [] := by simpa using hw
    exact hc
  | cons d ds ih =>
    rw [List.splitOnP_cons_eq_if_modifyHead] at hw
    split_ifs at hw
    · rcases List.mem_cons.mp hw with rfl | hw
      · exact absurd hc List.not_mem_nil
      · exact List.mem_cons_of_mem d (ih hw hc)
    · cases hds : ds.splitOnP p with
      | nil => exact absurd hds (List.splitOnP_ne_nil p ds)
      | cons v vs =>
        rw [hds] at hw ih
        rcases List.mem_cons.mp hw with rfl | hw
        · rcases List.mem_cons.mp hc with rfl | hc
          · exact List.mem_cons_self
          · exact List.mem_cons_of_mem d (ih List.mem_cons_self hc)
        · exact List.mem_cons_of_mem d (ih (List.mem_cons_of_mem v hw) hc)

theorem mem_of_mem_words {l : List α} (hw : w ∈ words p l) (hc : c ∈ w) : c ∈ l :=
  mem_of_mem_splitOnP (List.mem_filter.mp hw).1 hc

/-! ## Pieces -/

theorem length_le_of_mem_pieces {v : List α} (hv : v ∈ pieces n w) : v.length ≤ n := by
  obtain ⟨k, -, rfl⟩ := List.mem_map.mp hv
  exact List.length_take_le _ _

theorem mem_of_mem_pieces {v : List α} (hv : v ∈ pieces n w) (hc : c ∈ v) : c ∈ w := by
  obtain ⟨k, -, rfl⟩ := List.mem_map.mp hv
  exact List.mem_of_mem_drop (List.mem_of_mem_take hc)

theorem pieces_nil : pieces n ([] : List α) = [] := by
  cases n with
  | zero => simp [pieces]
  | succ n => simp [pieces]

theorem pieces_of_le (hne : w ≠ []) (hlen : w.length ≤ n) : pieces n w = [w] := by
  have hpos : 0 < w.length := List.length_pos_of_ne_nil hne
  have hone : (w.length + n - 1) / n = 1 := by
    refine Nat.div_eq_of_lt_le ?_ ?_ <;> omega
  simp [pieces, hone, List.take_of_length_le hlen]

theorem pieces_eq_cons (hn : 0 < n) (hlen : n < w.length) : pieces n w = w.take n :: pieces n (w.drop n) := by
  have hcount : (w.length + n - 1) / n = ((w.drop n).length + n - 1) / n + 1 := by
    rw [List.length_drop, ← Nat.add_div_right _ hn]
    congr 1
    omega
  rw [pieces, hcount, List.range_succ_eq_map, List.map_cons, List.map_map, pieces]
  simp only [Nat.mul_zero, List.drop_zero, List.cons.injEq, true_and]
  refine List.map_congr_left fun k _ => ?_
  simp only [Function.comp_apply, List.drop_drop, Nat.succ_eq_add_one]
  congr 2
  ring

theorem pieces_take_cons (hn : 0 < n) (hne : w ≠ []) : pieces n w = w.take n :: pieces n (w.drop n) := by
  rcases Nat.lt_or_ge n w.length with hlt | hge
  · exact pieces_eq_cons hn hlt
  · rw [pieces_of_le hne hge, List.take_of_length_le hge, List.drop_of_length_le hge, pieces_nil]

/-- One pass of the scanner: the first piece of the first word, and then what follows it in the text. -/
theorem pieces_words_cons (hn : 0 < n) (hc : p c = false) :
    (words p (c :: cs)).flatMap (pieces n) =
      ((c :: cs).takeWhile fun x => !p x).take n ::
        (words p ((c :: cs).drop (((c :: cs).takeWhile fun x => !p x).take n).length)).flatMap (pieces n) := by
  have hne : (c :: cs).takeWhile (fun x => !p x) ≠ [] := by simp [hc]
  obtain ⟨run, hrun⟩ : ∃ run, (c :: cs).takeWhile (fun x => !p x) = run := ⟨_, rfl⟩
  obtain ⟨rest, hrest⟩ : ∃ rest, (c :: cs).dropWhile (fun x => !p x) = rest := ⟨_, rfl⟩
  have hsplit : c :: cs = run ++ rest := by rw [← hrun, ← hrest, List.takeWhile_append_dropWhile]
  have hsep : ∀ d ∈ rest.head?, p d = true := by
    intro d hd
    rw [← hrest] at hd
    simpa using not_of_mem_head?_dropWhile (fun x => !p x) hd
  have hw : ∀ x ∈ run, p x = false := fun x hx => mem_run (hrun ▸ hx)
  rw [hrun] at hne ⊢
  rw [hsplit, words_run_append hw hne hsep, List.flatMap_cons, pieces_take_cons hn hne, List.cons_append]
  congr 1
  rcases Nat.lt_or_ge n run.length with hlt | hge
  · have hw' : ∀ x ∈ run.drop n, p x = false := fun x hx => hw x (List.mem_of_mem_drop hx)
    have hne' : run.drop n ≠ [] := by
      intro hnil
      exact absurd (List.drop_eq_nil_iff.mp hnil) (Nat.not_le.mpr hlt)
    rw [List.length_take_of_le hlt.le, List.drop_append_of_le_length hlt.le, words_run_append hw' hne' hsep,
      List.flatMap_cons]
  · rw [List.take_of_length_le hge, List.drop_of_length_le hge, pieces_nil, List.nil_append, List.drop_left]

theorem cutsWords_cons_of_le {N : ℕ} {ws : List (List α)} (hw : w.length ≤ n) :
    CutsWords n (N + 1) (w :: ws) ↔ CutsWords n N ws := by
  constructor
  · rintro h pre v post rfl hpre hv hN
    have hall : ∀ u ∈ w :: pre, u.length ≤ n := by
      intro u hu
      rcases List.mem_cons.mp hu with rfl | hu
      · exact hw
      · exact hpre u hu
    have hcut := h (w :: pre) v post rfl hall hv (Nat.succ_lt_succ hN)
    rwa [List.length_cons, Nat.succ_sub_succ] at hcut
  · intro h pre v post hsplit hpre hv hN
    cases pre with
    | nil =>
      obtain ⟨rfl, rfl⟩ := List.cons.inj hsplit
      exact absurd hv (Nat.not_lt.mpr hw)
    | cons u pre =>
      obtain ⟨rfl, rfl⟩ := List.cons.inj hsplit
      have hcut := h pre v post rfl (fun x hx => hpre x (List.mem_cons_of_mem _ hx)) hv
        (Nat.lt_of_succ_lt_succ hN)
      rwa [List.length_cons, Nat.succ_sub_succ]

theorem cutsWords_cons_of_lt {N : ℕ} {ws : List (List α)} (hw : n < w.length) :
    CutsWords n (N + 1) (w :: ws) ↔
      ((w.drop n :: ws).flatMap (pieces n)).take N = (ws.map (·.take n)).take N := by
  constructor
  · intro h
    rcases Nat.eq_zero_or_pos N with rfl | hN
    · simp
    · exact h [] w ws rfl (fun v hv => absurd hv List.not_mem_nil) hw (Nat.succ_lt_succ hN)
  · intro h pre v post hsplit hpre hv hN
    cases pre with
    | nil =>
      obtain ⟨rfl, rfl⟩ := List.cons.inj hsplit
      exact h
    | cons u pre =>
      obtain ⟨rfl, rfl⟩ := List.cons.inj hsplit
      exact absurd (hpre w List.mem_cons_self) (Nat.not_le.mpr hw)

/-- A scanner that goes on with the rest of a long word agrees with one that skips it only if `CutsWords`. -/
theorem pieces_eq_cut_iff {N : ℕ} (hn : 0 < n) {ws : List (List α)} (hws : ∀ w ∈ ws, w ≠ []) :
    (ws.flatMap (pieces n)).take N = (ws.map (·.take n)).take N ↔ CutsWords n N ws := by
  induction ws generalizing N with
  | nil =>
    refine iff_of_true (by simp) fun pre w post hsplit => ?_
    exact absurd hsplit (by simp)
  | cons w ws ih =>
    cases N with
    | zero => exact iff_of_true (by simp) fun pre v post _ _ _ hN => absurd hN (by omega)
    | succ N =>
      rw [List.flatMap_cons, List.map_cons, pieces_take_cons hn (hws w List.mem_cons_self), List.cons_append,
        List.take_succ_cons, List.take_succ_cons, List.cons.injEq, and_iff_right rfl]
      rcases Nat.lt_or_ge n w.length with hlong | hshort
      · rw [cutsWords_cons_of_lt hlong, List.flatMap_cons]
      · rw [cutsWords_cons_of_le hshort, List.drop_of_length_le hshort, pieces_nil, List.nil_append]
        exact ih fun v hv => hws v (List.mem_cons_of_mem _ hv)

end RtosKernel.Lib
