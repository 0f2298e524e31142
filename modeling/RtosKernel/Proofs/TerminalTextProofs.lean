import RtosKernel.Proofs.TerminalProofs
import Mathlib.Data.List.GetD

/-!
# Proofs: what the terminal shows

The ring holds the last 200 lines of the text, the unfinished one at `scrollback_head` (`HoldsText`). But
`scrollback_count` counts the finished lines only, and both the index computation and the largest offset
take it for the number of lines: as long as the ring is not full, the oldest line is never shown.
-/

namespace RtosKernel

open Lib

/-! ## The ring of lines -/

/-- The ring holds the finished lines, as far as they are retained, and the current one. -/
structure HoldsText (s : Terminal) (finished : List (List UInt8)) (current : List UInt8) : Prop where
  head_eq : s.head = (finished.length : ℤ) % 200
  count_eq : s.count = min 200 (finished.length : ℤ)
  col_eq : s.termCol = current.length
  current_le : current.length ≤ 80
  current_no_nul : 0 ∉ current
  current_line : ∀ j : ℕ, j ≤ 80 → s.buffer s.head j = current.getD j 0
  finished_le : ∀ line ∈ finished, line.length ≤ 80
  finished_line : ∀ m : ℕ, m < finished.length → finished.length < m + 200 →
    lineText s ((m : ℤ) % 200) = finished.getD m []

section Lines

variable {s s' : Terminal} {finished : List (List UInt8)} {current : List UInt8}

/-- Only the ring and the position in it matter. -/
theorem HoldsText.of_eq (h : HoldsText s finished current) (hb : s'.buffer = s.buffer) (hh : s'.head = s.head)
    (hn : s'.count = s.count) (hc : s'.termCol = s.termCol) : HoldsText s' finished current where
  head_eq := by rw [hh, h.head_eq]
  count_eq := by rw [hn, h.count_eq]
  col_eq := by rw [hc, h.col_eq]
  current_le := h.current_le
  current_no_nul := h.current_no_nul
  current_line := by rw [hb, hh]; exact h.current_line
  finished_le := h.finished_le
  finished_line := by
    intro m hm hm'
    rw [← h.finished_line m hm hm', lineText, lineText, hb]

theorem Drawn.holdsText (hd : Drawn s s') (h : HoldsText s finished current) :
    HoldsText s' finished current :=
  h.of_eq hd.buffer hd.head hd.count hd.termCol

theorem lineText_congr {i : ℤ} (h : s'.buffer i = s.buffer i) : lineText s' i = lineText s i := by
  rw [lineText, lineText, h]

/-- The current line is the one at `scrollback_head`. -/
theorem HoldsText.current_text (h : HoldsText s finished current) : lineText s s.head = current := by
  have hheld : HoldsString (fun j : ℕ => s.buffer s.head j) current :=
    fun i hi => h.current_line i (hi.trans h.current_le)
  exact hheld.read h.current_no_nul h.current_le

/-- A retained finished line is not the current one. -/
theorem HoldsText.index_ne (h : HoldsText s finished current) {m : ℕ} (hm : m < finished.length)
    (hm' : finished.length < m + 200) : (m : ℤ) % 200 ≠ s.head := by
  rw [h.head_eq]
  omega

/-- A change of the current line. -/
theorem HoldsText.edit (h : HoldsText s finished current) {line : List UInt8} {row : ℤ → UInt8}
    (hb : s'.buffer = Function.update s.buffer s.head row) (hh : s'.head = s.head) (hn : s'.count = s.count)
    (hc : s'.termCol = line.length) (hle : line.length ≤ 80) (h0 : 0 ∉ line)
    (hrow : ∀ j : ℕ, j ≤ 80 → row j = line.getD j 0) : HoldsText s' finished line where
  head_eq := by rw [hh, h.head_eq]
  count_eq := by rw [hn, h.count_eq]
  col_eq := hc
  current_le := hle
  current_no_nul := h0
  current_line := by
    intro j hj
    rw [hb, hh, Function.update_self, hrow j hj]
  finished_le := h.finished_le
  finished_line := by
    intro m hm hm'
    rw [← h.finished_line m hm hm']
    refine lineText_congr ?_
    rw [hb, Function.update_of_ne (h.index_ne hm hm')]

theorem HoldsText.store (h : HoldsText s finished current) (hlt : current.length < 80) {c : UInt8}
    (hc : c ≠ 0) :
    HoldsText (storedChar c s) finished (current ++ [c]) := by
  refine h.edit rfl rfl rfl ?_ ?_ ?_ fun j hj => ?_
  · simp [storedChar, h.col_eq]
  · rw [List.length_append, List.length_singleton]
    exact hlt
  · simp [h.current_no_nul, hc.symm]
  · rw [h.col_eq]
    by_cases he : j = current.length
    · rw [he, Function.update_self]
      simp
    · rw [Function.update_of_ne (by omega), h.current_line j hj]
      rcases Nat.lt_or_gt_of_ne he with hlt' | hgt
      · rw [List.getD_append _ _ _ _ hlt']
      · rw [List.getD_eq_default _ _ hgt.le, List.getD_eq_default _ _ (by simp; omega)]

theorem HoldsText.erase (h : HoldsText s finished current) (hpos : 0 < s.termCol) :
    HoldsText (erasedChar s) finished current.dropLast := by
  have hcol := h.col_eq
  refine h.edit rfl rfl rfl ?_ ?_ ?_ fun j hj => ?_
  · simp only [erasedChar, List.length_dropLast]
    omega
  · have := h.current_le
    rw [List.length_dropLast]
    omega
  · exact fun hm => h.current_no_nul (List.mem_of_mem_dropLast hm)
  · by_cases he : (j : ℤ) = s.termCol - 1
    · rw [he, Function.update_self, List.getD_eq_default _ _ (by rw [List.length_dropLast]; omega)]
    · rw [Function.update_of_ne he, h.current_line j hj, List.getD_eq_getElem?_getD, List.getD_eq_getElem?_getD,
        List.getElem?_dropLast]
      split_ifs with hlt
      · rfl
      · rw [List.getElem?_eq_none (by omega)]

/-- The current line is finished: it stays where it is, and the next one is empty. -/
theorem HoldsText.addLine (h : HoldsText s finished current) :
    HoldsText (addedLine s) (finished ++ [current]) [] where
  head_eq := by
    simp only [addedLine, h.head_eq, List.length_append, List.length_singleton]
    push_cast
    omega
  count_eq := by
    simp only [addedLine, h.count_eq, List.length_append, List.length_singleton]
    push_cast
    omega
  col_eq := rfl
  current_le := Nat.zero_le _
  current_no_nul := List.not_mem_nil
  current_line := by
    intro j hj
    simp only [addedLine, Function.update_self, blankLine, List.getD_nil]
    exact if_pos (by omega)
  finished_le := by
    intro line hline
    rcases List.mem_append.mp hline with hold | hnew
    · exact h.finished_le line hold
    · rw [List.mem_singleton.mp hnew]
      exact h.current_le
  finished_line := by
    intro m hm hm'
    rw [List.length_append, List.length_singleton] at hm hm'
    have hhead := h.head_eq
    have hne : (m : ℤ) % 200 ≠ (s.head + 1) % 200 := by omega
    have hkept : lineText (addedLine s) ((m : ℤ) % 200) = lineText s ((m : ℤ) % 200) := by
      refine lineText_congr ?_
      simp only [addedLine, Function.update_of_ne hne]
      by_cases hcur : (m : ℤ) % 200 = s.head
      · -- the NUL that ends the current line is there already
        rw [hcur, Function.update_self, h.col_eq, Function.update_eq_self_iff, h.current_line _ h.current_le]
        simp
      · rw [Function.update_of_ne hcur]
    rw [hkept]
    by_cases hlast : m = finished.length
    · have hidx : (m : ℤ) % 200 = s.head := by rw [hlast, hhead]
      rw [hidx, h.current_text, hlast]
      simp
    · rw [h.finished_line m (by omega) (by omega), List.getD_append _ _ _ _ (by omega)]

end Lines

/-! ## The text after a call -/

/-- The ring holds the text, whose last line is not full. -/
structure TextInv (s : Terminal) (t : Text) : Prop where
  holds : HoldsText s t.finished t.current
  current_lt : t.current.length < 80

/-- A call that writes no NUL, and scrolls by no negative number of lines. -/
def TermOp.Writes (op : TermOp) : Prop := op.Forward ∧ op ≠ .putchar 0

theorem putEffect_text {s : Terminal} {t : Text} (h : TextInv s t) {c : UInt8} (hc : c ≠ 0) :
    TextInv (putEffect c s) (t.put c) := by
  obtain ⟨hh, hlt⟩ := h
  have hcol := hh.col_eq
  unfold putEffect Text.put
  by_cases hnl : c = 10
  · rw [if_pos hnl, if_pos hnl]
    exact ⟨hh.addLine, by simp⟩
  by_cases hbs : c = 8
  · rw [if_neg hnl, if_neg hnl, if_pos hbs, if_pos hbs]
    by_cases hpos : 0 < s.termCol
    · rw [if_pos hpos]
      exact ⟨hh.erase hpos, by rw [List.length_dropLast]; omega⟩
    · have hnil : t.current = [] := List.length_eq_zero_iff.mp (by omega)
      rw [if_neg hpos, hnil, List.dropLast_nil]
      rw [hnil] at hh
      exact ⟨hh, by simp⟩
  · rw [if_neg hnl, if_neg hnl, if_neg hbs, if_neg hbs]
    have hstored := hh.store hlt hc
    by_cases hfull : t.current.length + 1 = 80
    · rw [if_pos hfull, if_neg (by omega)]
      exact ⟨hstored.addLine, by simp⟩
    · rw [if_neg hfull, if_pos (by omega)]
      exact ⟨hstored, by rw [List.length_append, List.length_singleton]; omega⟩

theorem cleared_text (s : Terminal) : TextInv (cleared s) { finished := [], current := [] } where
  holds :=
    { head_eq := rfl
      count_eq := rfl
      col_eq := rfl
      current_le := Nat.zero_le _
      current_no_nul := List.not_mem_nil
      current_line := fun j hj => if_pos (by omega)
      finished_le := fun _ hl => absurd hl List.not_mem_nil
      finished_line := fun m hm => absurd hm (Nat.not_lt_zero m) }
  current_lt := by decide

theorem termEffect_text {s : Terminal} {t : Text} (h : TextInv s t) {op : TermOp} (hop : op.Writes) :
    TextInv (termEffect s op) (textStep t op) := by
  cases op with
  | clear => exact cleared_text s
  | putchar c => exact putEffect_text h fun h0 => hop.2 (by rw [h0])
  | scrollUp lines => exact ⟨h.holds.of_eq rfl rfl rfl rfl, h.current_lt⟩
  | scrollDown lines => exact ⟨h.holds.of_eq rfl rfl rfl rfl, h.current_lt⟩
  | scrollToTop => exact ⟨h.holds.of_eq rfl rfl rfl rfl, h.current_lt⟩
  | scrollToBottom => exact ⟨h.holds.of_eq rfl rfl rfl rfl, h.current_lt⟩

/-- The state of the terminal, with the text that was written. -/
structure Showing (s : Terminal) (t : Text) : Prop where
  inv : TermInv s
  text : TextInv s t
  refreshed : Refreshed s

theorem termStep_showing {s : Terminal} {t : Text} (h : Showing s t) {op : TermOp} (hop : op.Writes) :
    ∃ s', termStep s op = .ok s' ∧ Showing s' (textStep t op) := by
  obtain ⟨s', he, hd, hr⟩ := termStep_spec h.inv hop.1
  have htext := termEffect_text h.text hop
  exact ⟨s', he, hd.termInv (termEffect_inv h.inv hop.1),
    ⟨hd.holdsText htext.holds, htext.current_lt⟩, hr h.refreshed⟩

theorem terminalClear_showing (s : Terminal) :
    ∃ s', terminalClear s = .ok s' ∧ Showing s' { finished := [], current := [] } := by
  obtain ⟨s', he, hd, hr⟩ := terminalClear_spec s
  have htext := cleared_text s
  exact ⟨s', he, hd.termInv (cleared_inv s), ⟨hd.holdsText htext.holds, htext.current_lt⟩, hr⟩

/-! ## The lines that are shown -/

section Shown

variable {s : Terminal} {t : Text}

theorem Text.lines_length (t : Text) : t.lines.length = t.finished.length + 1 := by
  simp [Text.lines]

/-- The line that is `k` lines before the last one. -/
theorem Text.before_getD (t : Text) (k : ℕ) :
    (t.before k).getD [] =
      if k < 200 ∧ k ≤ t.finished.length then t.lines.getD (t.finished.length - k) [] else [] := by
  unfold Text.before
  by_cases hk : k < 200
  · by_cases hle : k ≤ t.finished.length
    · rw [if_pos hk, if_pos ⟨hk, hle⟩, List.getElem?_reverse (by rw [t.lines_length]; omega), t.lines_length,
        List.getD_eq_getElem?_getD, show t.finished.length + 1 - 1 - k = t.finished.length - k by omega]
    · rw [if_pos hk, if_neg (fun h => hle h.2), List.getElem?_eq_none]
      · rfl
      · rw [List.length_reverse, t.lines_length]
        omega
  · rw [if_neg hk, if_neg (fun h => hk h.1)]
    rfl

/-- The ring holds every retained line at its index. -/
theorem TextInv.line (h : TextInv s t) {m : ℕ} (hm : m ≤ t.finished.length)
    (hm' : t.finished.length < m + 200) :
    lineText s ((m : ℤ) % 200) = t.lines.getD m [] := by
  rcases Nat.lt_or_eq_of_le hm with hlt | heq
  · rw [h.holds.finished_line m hlt hm', Text.lines, List.getD_append _ _ _ _ hlt]
  · have hidx : (m : ℤ) % 200 = s.head := by rw [heq, h.holds.head_eq]
    rw [hidx, h.holds.current_text, heq, Text.lines, List.getD_append_right _ _ _ _ le_rfl]
    simp

/-- A visible row gets its line of the text, except that the oldest line is taken for missing until the
ring is full. -/
theorem Showing.rowText_eq (h : Showing s t) {r : ℕ} (hr : r < 20) :
    rowText s r = if 19 - r + s.viewOffset.toNat < min 200 t.finished.length then
      (t.before (19 - r + s.viewOffset.toNat)).getD [] else [] := by
  have hview := h.inv.view_range
  have hcount := h.text.holds.count_eq
  have hhead := h.text.holds.head_eq
  have hvisible : ((visibleLines : ℕ) : ℤ) = 20 := rfl
  obtain ⟨k, hk⟩ : ∃ k, k = 19 - r + s.viewOffset.toNat := ⟨_, rfl⟩
  have hkz : (20 - 1 - (r : ℤ)) + s.viewOffset = k := by omega
  rw [← hk]
  by_cases hin : k < min 200 t.finished.length
  · have hidx : scrollbackGetLineIndex r s = ((t.finished.length - k : ℕ) : ℤ) % 200 := by
      have h0 : s.count ≠ 0 := by omega
      have hlt : ¬ (k : ℤ) ≥ s.count := by omega
      simp only [scrollbackGetLineIndex, hvisible, hkz, h0, hlt, if_false]
      split_ifs with hneg <;> push_cast at * <;> omega
    rw [if_pos hin, rowText, hidx, if_pos (by omega), h.text.line (by omega) (by omega), t.before_getD,
      if_pos ⟨by omega, by omega⟩]
  · have hidx : scrollbackGetLineIndex r s = -1 := by
      have hge : (k : ℤ) ≥ s.count := by omega
      simp only [scrollbackGetLineIndex, hvisible, hkz, hge, if_true, ite_self]
    rw [if_neg hin, rowText, hidx, if_neg (by decide)]

/-- The line that is shown is the right one, unless the oldest line should be there and the ring is not
full. -/
theorem Showing.row (h : Showing s t) {r : ℕ} (hr : r < 20)
    (hne : 19 - r + s.viewOffset.toNat ≠ t.finished.length ∨ 200 ≤ t.finished.length) :
    RowShows s r ((t.before (19 - r + s.viewOffset.toNat)).getD []) := by
  have hrow := h.refreshed r hr
  rw [h.rowText_eq hr] at hrow
  split_ifs at hrow with hin
  · exact hrow
  · rw [t.before_getD, if_neg (by omega)]
    exact hrow

/-- The oldest line, and the one after it. -/
theorem Text.oldest (hn : t.finished.length < 200) :
    (t.before t.finished.length).getD [] = t.lines.getD 0 [] := by
  rw [t.before_getD, if_pos ⟨hn, le_rfl⟩, Nat.sub_self]

theorem Text.second (h1 : 1 ≤ t.finished.length) (hn : t.finished.length < 200) :
    (t.before (t.finished.length - 1)).getD [] = t.lines.getD 1 [] := by
  rw [t.before_getD, if_pos ⟨by omega, by omega⟩,
    show t.finished.length - (t.finished.length - 1) = 1 by omega]

theorem HoldsText.oldest_le (h : HoldsText s t.finished t.current) : (t.lines.getD 0 []).length ≤ 80 := by
  have hmem : t.lines.getD 0 [] ∈ t.lines := by
    rw [List.getD_eq_getElem _ _ (by rw [t.lines_length]; omega)]
    exact List.getElem_mem _
  rcases List.mem_append.mp hmem with hfin | hcur
  · exact h.finished_le _ hfin
  · rw [List.mem_singleton.mp hcur]
    exact h.current_le

/-- A line looks empty when it has blanks only. -/
theorem blank_iff {line : List UInt8} (h : line.length ≤ 80) :
    (∀ col : ℕ, col < 80 → line.getD col 32 = 32) ↔ ∀ c ∈ line, c = 32 := by
  constructor
  · intro hall c hc
    obtain ⟨i, hi, rfl⟩ := List.mem_iff_getElem.mp hc
    rw [← hall i (by omega), List.getD_eq_getElem _ _ hi]
  · intro hall col _
    by_cases hlt : col < line.length
    · rw [List.getD_eq_getElem _ _ hlt]
      exact hall _ (List.getElem_mem hlt)
    · exact List.getD_eq_default _ _ (not_lt.mp hlt)

/-- The screen shows the text exactly when the oldest line need not be seen: it has left the screen, or
it is blank. -/
theorem Showing.showsText_iff (h : Showing s t) :
    ShowsText s t ↔ (t.finished.length < 20 → ∀ c ∈ t.lines.getD 0 [], c = 32) := by
  have hview := h.inv.view_range
  have hcount := h.text.holds.count_eq
  have hcol := h.text.holds.col_eq
  rw [← blank_iff h.text.holds.oldest_le]
  constructor
  · intro hshow hn col hc
    -- the row of the oldest line is blank, and only the cursor may stand on it, behind the line
    have hr : 19 - t.finished.length < 20 := by omega
    have hk : 19 - (19 - t.finished.length) + s.viewOffset.toNat = t.finished.length := by omega
    have hrow := h.refreshed _ hr
    have htext := hshow _ hr
    rw [h.rowText_eq hr, hk, if_neg (by omega)] at hrow
    rw [hk, Text.oldest (by omega)] at htext
    by_cases hm : Marked s (5 + (19 - t.finished.length : ℕ)) col
    · rcases hm with ⟨-, hlast, hcur⟩ | ⟨hv, -⟩ | ⟨hmore, -⟩
      · have h0 : t.finished = [] := List.length_eq_zero_iff.mp (by omega)
        have hline : t.lines.getD 0 [] = t.current := by simp [Text.lines, h0]
        rw [hline]
        exact List.getD_eq_default _ _ (by omega)
      · omega
      · omega
    · rw [← htext col hc hm, hrow col hc hm, List.getD_nil]
  · intro hblank r hr
    by_cases hne : 19 - r + s.viewOffset.toNat ≠ t.finished.length ∨ 200 ≤ t.finished.length
    · exact h.row hr hne
    · have hk : 19 - r + s.viewOffset.toNat = t.finished.length := by omega
      have hrow := h.refreshed r hr
      rw [h.rowText_eq hr, hk, if_neg (by omega)] at hrow
      rw [hk, Text.oldest (by omega)]
      intro col hc hm
      rw [hrow col hc hm, List.getD_nil, hblank (by omega) col hc]

/-- In the first row only the upper indicator stands over the text. -/
theorem marked_first_row (s : Terminal) (col : ℕ) :
    Marked s (5 + (0 : ℕ)) col ↔ 0 < s.viewOffset ∧ 74 ≤ col ∧ col < 79 := by
  unfold Marked
  constructor
  · rintro (⟨-, hrow, -⟩ | ⟨hv, -, hcols⟩ | ⟨-, hrow, -⟩)
    · exact absurd hrow (by decide)
    · exact ⟨hv, by omega⟩
    · exact absurd hrow (by decide)
  · rintro ⟨hv, hcols⟩
    exact .inr (.inl ⟨hv, rfl, by omega⟩)

/-- At the top of the view stands the line after the oldest one until the ring is full, and then the
oldest. -/
theorem Showing.scrollsToOldest_iff (h : Showing s t) :
    ScrollsToOldest s t ↔ (20 ≤ t.finished.length → t.finished.length < 200 → ∀ col : ℕ, col < 80 →
      (20 < t.finished.length → ¬ (74 ≤ col ∧ col < 79)) →
        (t.lines.getD 0 []).getD col 32 = (t.lines.getD 1 []).getD col 32) := by
  have hop : TermOp.scrollToTop.Writes := ⟨trivial, TermOp.noConfusion⟩
  obtain ⟨s', he, hd, hr⟩ := termStep_spec h.inv hop.1
  have htext := termEffect_text h.text hop
  have h' : Showing s' t :=
    ⟨hd.termInv (termEffect_inv h.inv hop.1), ⟨hd.holdsText htext.holds, htext.current_lt⟩, hr h.refreshed⟩
  have hcount := h.text.holds.count_eq
  have hview : s'.viewOffset = max 0 (s.count - 20) := hd.viewOffset
  have hstep : terminalScrollToTop s = .ok s' := he
  have hiff : ScrollsToOldest s t ↔ (20 ≤ t.finished.length →
      RowShows s' 0 ((t.before (min (t.finished.length + 1) 200 - 1)).getD [])) := by
    unfold ScrollsToOldest
    rw [t.lines_length, hstep]
    constructor
    · intro htop hn
      obtain ⟨u, hu, hrow⟩ := htop (by omega)
      rwa [Except.ok.inj hu]
    · intro htop hn
      exact ⟨s', rfl, htop (by omega)⟩
  rw [hiff]
  by_cases hfull : 200 ≤ t.finished.length
  · have hk : 19 - 0 + s'.viewOffset.toNat = min (t.finished.length + 1) 200 - 1 := by omega
    refine iff_of_true (fun _ => ?_) (fun _ hlt => absurd hlt (not_lt.mpr hfull))
    rw [← hk]
    exact h'.row (by decide) (.inr hfull)
  · refine forall_congr' fun hn => ?_
    have hk : 19 - 0 + s'.viewOffset.toNat = t.finished.length - 1 := by omega
    have hold : min (t.finished.length + 1) 200 - 1 = t.finished.length := by omega
    have hrow := h'.row (r := 0) (by decide) (.inl (by omega))
    rw [hk, Text.second (by omega) (by omega)] at hrow
    rw [hold, Text.oldest (by omega)]
    have hscrolled : 0 < s'.viewOffset ↔ 20 < t.finished.length := by omega
    have hmarked (col : ℕ) :
        Marked s' (5 + (0 : ℕ)) col ↔ 20 < t.finished.length ∧ 74 ≤ col ∧ col < 79 := by
      rw [marked_first_row, hscrolled]
    constructor
    · intro hshow _ col hc hm
      have hnot : ¬ Marked s' (5 + (0 : ℕ)) col := by
        rw [hmarked]
        tauto
      rw [← hshow col hc hnot, hrow col hc hnot]
    · intro hsame col hc hm
      rw [hmarked] at hm
      rw [hsame (by omega) col hc (by tauto)]
      exact hrow col hc (by rwa [hmarked])

end Shown

/-! ## Runs -/

/-- The defect cannot be seen: the oldest line is blank while it is on the screen, and looks like the
next one while it should be at the top of the view. -/
structure OldestUnseen (t : Text) : Prop where
  on_screen : t.finished.length < 20 → ∀ c ∈ t.lines.getD 0 [], c = 32
  at_top : 20 ≤ t.finished.length → t.finished.length < 200 → ∀ col : ℕ, col < 80 →
    (20 < t.finished.length → ¬ (74 ≤ col ∧ col < 79)) →
      (t.lines.getD 0 []).getD col 32 = (t.lines.getD 1 []).getD col 32

theorem Showing.shows_iff {s : Terminal} {t : Text} (h : Showing s t) :
    (ShowsText s t ∧ ScrollsToOldest s t) ↔ OldestUnseen t := by
  rw [h.showsText_iff, h.scrollsToOldest_iff]
  exact ⟨fun hb => ⟨hb.1, hb.2⟩, fun hu => ⟨hu.on_screen, hu.at_top⟩⟩

/-- The text of the calls after a `terminal_clear`. -/
def textOf (ops : List TermOp) : Text := ops.foldl textStep { finished := [], current := [] }

/-- After `terminal_clear` every run of characters and scrolls returns, with its text in the ring. -/
theorem terminal_run (s₀ : Terminal) {ops : List TermOp} (hops : ∀ op ∈ ops, op.Writes) :
    ∃ s, run termStep s₀ (.clear :: ops) = .ok s ∧ Showing s (textOf ops) := by
  obtain ⟨s₁, h₁, hs₁⟩ := terminalClear_showing s₀
  have hstep : ∀ s t op, TermOp.Writes op → Showing s t →
      ∃ s', termStep s op = .ok s' ∧ Showing s' (textStep t op) :=
    fun s t op hop h => termStep_showing h hop
  obtain ⟨s, hr, hs⟩ := run_refines_on hs₁ hstep hops
  have hclear : run termStep s₀ [.clear] = .ok s₁ := run_singleton.trans h₁
  exact ⟨s, (run_append hclear).trans hr, hs⟩

/-- **After `terminal_clear` and any characters and scrolls, the screen shows the text and
`terminal_scroll_to_top` reaches its oldest retained line, exactly when the oldest line cannot be
missed.** -/
theorem terminal_shows_text_iff (s₀ : Terminal) {ops : List TermOp} (hops : ∀ op ∈ ops, op.Writes) :
    ∃ s, run termStep s₀ (.clear :: ops) = .ok s ∧
      ((ShowsText s (textOf ops) ∧ ScrollsToOldest s (textOf ops)) ↔ OldestUnseen (textOf ops)) := by
  obtain ⟨s, hr, hs⟩ := terminal_run s₀ hops
  exact ⟨s, hr, hs.shows_iff⟩

theorem terminal_shows_text_blank_first :
    (∀ op ∈ [TermOp.putchar 32, .putchar 10, .putchar 65, .scrollUp 10], op.Writes) ∧
      ∃ s, run termStep (bootTerminal fun _ => 0)
          [.clear, .putchar 32, .putchar 10, .putchar 65, .scrollUp 10] = .ok s ∧
        ShowsText s (textOf [.putchar 32, .putchar 10, .putchar 65, .scrollUp 10]) ∧
          ScrollsToOldest s (textOf [.putchar 32, .putchar 10, .putchar 65, .scrollUp 10]) := by
  have hops : ∀ op ∈ [TermOp.putchar 32, .putchar 10, .putchar 65, .scrollUp 10], op.Writes := by
    simp [TermOp.Writes, TermOp.Forward]
  have htext : textOf [.putchar 32, .putchar 10, .putchar 65, .scrollUp 10] =
      { finished := [[32]], current := [65] } :=
    rfl
  have hunseen : OldestUnseen (textOf [.putchar 32, .putchar 10, .putchar 65, .scrollUp 10]) := by
    rw [htext]
    exact ⟨fun _ => by simp [Text.lines], fun hn => absurd hn (by simp)⟩
  obtain ⟨s, hr, hiff⟩ := terminal_shows_text_iff (bootTerminal fun _ => 0) hops
  exact ⟨hops, s, hr, hiff.mpr hunseen⟩

/-- A single character after `terminal_clear` is not shown: there is no finished line yet. -/
theorem terminal_first_line_missing :
    ∃ s, run termStep (bootTerminal fun _ => 0) [.clear, .putchar 65] = .ok s ∧
      ¬ (ShowsText s (textOf [.putchar 65]) ∧ ScrollsToOldest s (textOf [.putchar 65])) := by
  have hops : ∀ op ∈ [TermOp.putchar 65], op.Writes := by
    simp [TermOp.Writes, TermOp.Forward]
  obtain ⟨s, hr, hs⟩ := terminal_run (bootTerminal fun _ => 0) hops
  refine ⟨s, hr, fun hshow => ?_⟩
  have htext : textOf [.putchar 65] = { finished := [], current := [65] } := rfl
  have hunseen := hs.shows_iff.mp hshow
  rw [htext] at hunseen
  exact absurd (hunseen.on_screen (by simp) 65 (by simp [Text.lines])) (by decide)

end RtosKernel
