import RtosKernel.Terminal

/-!
# Proofs: the terminal

Drawing changes the VGA buffer only (`Drawn`). The four indices stay in their ranges (`TermInv`), so every
access to the ring of lines is in bounds, and after every call the screen shows the lines that
`scrollback_get_line_index` names (`Refreshed`).
-/

namespace RtosKernel

open Lib

/-! ## Cells -/

theorem vgaEntry_char (c color : UInt8) : (vgaEntry c color).toUInt8 = c := by
  have hchar : c.toInt8.toInt16.toUInt16.toUInt8 = c := by
    apply UInt8.toBitVec_inj.mp
    ext i hi
    have h16 : i < 16 := by omega
    simp [BitVec.getElem_signExtend, hi, h16]
  have hcolor : (color.toUInt16 <<< 8).toUInt8 = 0 := by
    apply UInt8.toBitVec_inj.mp
    ext i hi
    simp
  rw [vgaEntry, UInt16.toUInt8_or, hchar, hcolor, UInt8.or_zero]

/-- Only the VGA buffer differs. -/
structure Drawn (s s' : Terminal) : Prop where
  buffer : s'.buffer = s.buffer
  colors : s'.colors = s.colors
  head : s'.head = s.head
  count : s'.count = s.count
  viewOffset : s'.viewOffset = s.viewOffset
  termCol : s'.termCol = s.termCol

theorem Drawn.refl (s : Terminal) : Drawn s s := ⟨rfl, rfl, rfl, rfl, rfl, rfl⟩

theorem Drawn.trans {s t u : Terminal} (h : Drawn s t) (h' : Drawn t u) : Drawn s u :=
  ⟨h'.buffer.trans h.buffer, h'.colors.trans h.colors, h'.head.trans h.head, h'.count.trans h.count,
    h'.viewOffset.trans h.viewOffset, h'.termCol.trans h.termCol⟩

theorem vgaPutAt_drawn (row col : ℤ) (c color : UInt8) (s : Terminal) :
    Drawn s (vgaPutAt row col c color s) := by
  unfold vgaPutAt
  split_ifs
  · exact ⟨rfl, rfl, rfl, rfl, rfl, rfl⟩
  · exact Drawn.refl s

/-- A cell on the screen. -/
def OnScreen (row col : ℤ) : Prop := (0 ≤ row ∧ row < 25) ∧ 0 ≤ col ∧ col < 80

/-- A store into the cell of one row and column. -/
theorem charAt_store {row col row' col' : ℤ} (hc : 0 ≤ col ∧ col < 80) (hc' : 0 ≤ col' ∧ col' < 80)
    (c color : UInt8) (s : Terminal) :
    charAt { s with vga := Function.update s.vga (row * vgaWidth + col) (vgaEntry c color) } row' col' =
      if row' = row ∧ col' = col then c else charAt s row' col' := by
  unfold charAt
  by_cases he : row' = row ∧ col' = col
  · obtain ⟨rfl, rfl⟩ := he
    simp [vgaEntry_char]
  · have hne : row' * (vgaWidth : ℤ) + col' ≠ row * vgaWidth + col := by
      intro hidx
      push_cast at hidx
      omega
    simp only [Function.update_of_ne hne, if_neg he]

theorem vgaPutAt_charAt {row col row' col' : ℤ} (h : OnScreen row col) (hc' : 0 ≤ col' ∧ col' < 80)
    (c color : UInt8) (s : Terminal) :
    charAt (vgaPutAt row col c color s) row' col' =
      if row' = row ∧ col' = col then c else charAt s row' col' := by
  obtain ⟨⟨hr0, hr⟩, hc0, hc⟩ := h
  have hin : row ≥ 0 ∧ row < (vgaHeight : ℤ) ∧ col ≥ 0 ∧ col < (vgaWidth : ℤ) := ⟨hr0, hr, hc0, hc⟩
  rw [vgaPutAt, if_pos hin]
  exact charAt_store ⟨hc0, hc⟩ hc' c color s

theorem vgaClearRow_drawn (row : ℤ) (color : UInt8) (s : Terminal) : Drawn s (vgaClearRow row color s) := by
  unfold vgaClearRow
  refine List.foldlRecOn (motive := fun t => Drawn s t) _ _ (Drawn.refl s) fun t ht x _ => ?_
  exact ht.trans ⟨rfl, rfl, rfl, rfl, rfl, rfl⟩

/-- A loop that fills a row with one character. -/
theorem charAt_fill {row row' col' : ℤ} (hc' : 0 ≤ col' ∧ col' < 80) (c color : UInt8) (s : Terminal) :
    charAt ((List.range vgaWidth).foldl (fun s (x : ℕ) =>
      { s with vga := Function.update s.vga (row * vgaWidth + x) (vgaEntry c color) }) s) row' col' =
        if row' = row then c else charAt s row' col' := by
  have hall : col' < (vgaWidth : ℤ) := hc'.2
  suffices charAt ((List.range vgaWidth).foldl (fun s (x : ℕ) =>
      { s with vga := Function.update s.vga (row * vgaWidth + x) (vgaEntry c color) }) s) row' col' =
        if row' = row ∧ col' < (vgaWidth : ℤ) then c else charAt s row' col' by
    rw [this]
    simp only [hall, and_true]
  -- the first `n` columns of the row are filled
  refine foldl_range (P := fun n t => charAt t row' col' =
    if row' = row ∧ col' < (n : ℤ) then c else charAt s row' col') ?_ fun n hn t ht => ?_
  · have hnone : ¬ (row' = row ∧ col' < ((0 : ℕ) : ℤ)) := by omega
    rw [if_neg hnone]
  · have hn' : n < 80 := hn
    rw [charAt_store (by omega) hc', ht]
    by_cases hrow : row' = row
    · by_cases hcol : col' = n
      · have hlt : col' < ((n + 1 : ℕ) : ℤ) := by omega
        simp [hrow, hcol]
      · have hiff : col' < (n : ℤ) ↔ col' < ((n + 1 : ℕ) : ℤ) := by omega
        simp only [hrow, hcol, and_false, if_false, hiff]
    · simp [hrow]

theorem vgaClearRow_charAt {row row' col' : ℤ} (hc' : 0 ≤ col' ∧ col' < 80) (color : UInt8) (s : Terminal) :
    charAt (vgaClearRow row color s) row' col' = if row' = row then 32 else charAt s row' col' :=
  charAt_fill hc' 32 color s

/-! ## A line on the screen -/

/-- The text of a line of the ring, as far as it is drawn. -/
def lineText (s : Terminal) (i : ℤ) : List UInt8 := readString vgaWidth fun j => s.buffer i j

theorem buffer_bounds {i j : ℤ} (hi : 0 ≤ i ∧ i < 200) (hj : 0 ≤ j ∧ j ≤ 80) :
    (0 ≤ i ∧ i < (scrollbackLines : ℤ)) ∧ 0 ≤ j ∧ j < (vgaWidth : ℤ) + 1 :=
  ⟨hi, hj.1, by push_cast; omega⟩

theorem getBuf_ok {i j : ℤ} (hi : 0 ≤ i ∧ i < 200) (hj : 0 ≤ j ∧ j ≤ 80) (s : Terminal) :
    getBuf i j s = .ok (s.buffer i j) := by
  rw [getBuf, if_pos (buffer_bounds hi hj)]

/-- The rest of a line, from column `col` on, is drawn over what is there. -/
theorem drawLine_spec {line row : ℤ} (hl : 0 ≤ line ∧ line < 200) (hr : 0 ≤ row ∧ row < 25)
    (color : UInt8) {n col : ℕ} (hn : col + n = 80) (s : Terminal) :
    ∃ s', drawLine line row color n col s = .ok s' ∧ Drawn s s' ∧
      ∀ row' (col' : ℕ), col' < 80 → charAt s' row' col' =
        if row' = row ∧ col ≤ col' then
          (readString n fun j => s.buffer line (col + j)).getD (col' - col) (charAt s row' col')
        else charAt s row' col' := by
  induction n generalizing col s with
  | zero =>
    refine ⟨s, rfl, Drawn.refl s, fun row' col' hc' => ?_⟩
    have hnone : ¬ (row' = row ∧ col ≤ col') := by omega
    rw [if_neg hnone]
  | succ n ih =>
    rw [drawLine, getBuf_ok hl (by omega), ok_bind, readString_succ]
    simp only [Nat.cast_zero, add_zero]
    by_cases h0 : s.buffer line col ≠ 0
    · rw [if_pos h0, if_pos h0]
      have hput := fun row' (col' : ℕ) (hc' : col' < 80) =>
        @vgaPutAt_charAt row col row' col' ⟨hr, by omega⟩ (by omega) (s.buffer line col) color s
      have hnext : col + 1 + n = 80 := by omega
      obtain ⟨s', he, hd, hcells⟩ := ih hnext (vgaPutAt row col (s.buffer line col) color s)
      have hd0 := vgaPutAt_drawn row col (s.buffer line col) color s
      push_cast at he
      refine ⟨s', he, hd0.trans hd, fun row' col' hc' => ?_⟩
      rw [hcells row' col' hc', hput row' col' hc', hd0.buffer]
      by_cases hrow : row' = row
      · rcases lt_trichotomy col col' with hlt | heq | hgt
        · obtain ⟨d, rfl⟩ : ∃ d, col' = col + 1 + d := ⟨col' - (col + 1), by omega⟩
          have hd1 : col + 1 + d - (col + 1) = d := by omega
          have hd2 : col + 1 + d - col = d + 1 := by omega
          have hne : ((col + 1 + d : ℕ) : ℤ) ≠ col := by push_cast; omega
          have hassoc (j : ℕ) : ((col + 1 : ℕ) : ℤ) + j = col + ((j + 1 : ℕ) : ℤ) := by push_cast; omega
          simp only [hrow, hd1, hd2, hne, and_false, if_false, hassoc, List.getD_cons_succ]
          rw [if_pos ⟨trivial, by omega⟩, if_pos ⟨trivial, by omega⟩]
        · subst heq
          simp [hrow]
        · have hne : (col' : ℤ) ≠ col := by omega
          have h1 : ¬ col + 1 ≤ col' := by omega
          have h2 : ¬ col ≤ col' := by omega
          simp [h1, h2, hne]
      · simp [hrow]
    · rw [if_neg h0, if_neg h0]
      refine ⟨s, rfl, Drawn.refl s, fun row' col' _ => ?_⟩
      rw [List.getD_nil, ite_self]

/-- The text that a visible row gets. -/
def rowText (s : Terminal) (r : ℕ) : List UInt8 :=
  if 0 ≤ scrollbackGetLineIndex r s then lineText s (scrollbackGetLineIndex r s) else []

theorem Drawn.lineIndex {s s' : Terminal} (h : Drawn s s') (r : ℤ) :
    scrollbackGetLineIndex r s' = scrollbackGetLineIndex r s := by
  unfold scrollbackGetLineIndex
  rw [h.count, h.viewOffset, h.head]

theorem Drawn.rowText {s s' : Terminal} (h : Drawn s s') (r : ℕ) : rowText s' r = rowText s r := by
  unfold RtosKernel.rowText lineText
  rw [h.lineIndex, h.buffer]

theorem Drawn.marked {s s' : Terminal} (h : Drawn s s') (row col : ℤ) :
    Marked s' row col ↔ Marked s row col := by
  unfold Marked
  rw [h.viewOffset, h.termCol, h.count]

theorem refreshRow_spec {s : Terminal} {r : ℕ} (hr : r < 20) (hidx : scrollbackGetLineIndex r s < 200) :
    ∃ s', refreshRow s r = .ok s' ∧ Drawn s s' ∧
      ∀ row' (col' : ℕ), col' < 80 → charAt s' row' col' =
        if row' = 5 + r then (rowText s r).getD col' 32 else charAt s row' col' := by
  have hd := vgaClearRow_drawn (headerLines + r) vgaColorDefault s
  have hclear := fun row' (col' : ℕ) (hc' : col' < 80) =>
    @vgaClearRow_charAt (headerLines + r) row' col' (by omega) vgaColorDefault s
  unfold refreshRow rowText
  by_cases hline : 0 ≤ scrollbackGetLineIndex r s
  · simp only [ge_iff_le, if_pos hline]
    obtain ⟨s', he, hd', hcells⟩ := @drawLine_spec (scrollbackGetLineIndex r s) (headerLines + r) ⟨hline, hidx⟩
      (by push_cast; omega) ((vgaClearRow (headerLines + r) vgaColorDefault s).colors (scrollbackGetLineIndex r s))
      vgaWidth 0 rfl (vgaClearRow (headerLines + r) vgaColorDefault s)
    refine ⟨s', he, hd.trans hd', fun row' col' hc' => ?_⟩
    rw [hcells row' col' hc', hclear row' col' hc', hd.buffer]
    by_cases hrow : row' = 5 + r
    · simp [hrow, lineText]
    · have hrow' : ¬ row' = (headerLines : ℤ) + r := hrow
      simp only [hrow, hrow', false_and, if_false]
  · simp only [ge_iff_le, if_neg hline]
    refine ⟨_, rfl, hd, fun row' col' hc' => ?_⟩
    rw [hclear row' col' hc', List.getD_nil]
    rfl

/-- The visible rows, after all of them are drawn. -/
theorem refreshRows_spec {s : Terminal} (hidx : ∀ r : ℕ, r < 20 → scrollbackGetLineIndex r s < 200) :
    ∃ s', (List.range visibleLines).foldlM refreshRow s = .ok s' ∧ Drawn s s' ∧
      ∀ r col : ℕ, r < visibleLines → col < 80 → charAt s' (5 + r) col = (rowText s r).getD col 32 := by
  -- the first `n` rows are drawn
  refine foldlM_range (P := fun n t => Drawn s t ∧ ∀ r col : ℕ, r < n → col < 80 →
    charAt t (5 + r) col = (rowText s r).getD col 32) ?_ ?_
  · exact ⟨Drawn.refl s, fun r col hr => absurd hr (Nat.not_lt_zero r)⟩
  rintro n hn t ⟨hd, hcells⟩
  obtain ⟨s', hs', hd', hcells'⟩ := refreshRow_spec hn (by rw [hd.lineIndex]; exact hidx n hn)
  refine ⟨s', hs', hd.trans hd', fun r col hr hc => ?_⟩
  rw [hcells' _ _ hc]
  by_cases hlast : r = n
  · rw [if_pos (by rw [hlast]), hlast, hd.rowText]
  · rw [if_neg (by omega), hcells r col (by omega) hc]

/-! ## The cursor and the indicators -/

/-- A character leaves the other cells as they are. -/
theorem vgaPutAt_other {row col row' col' : ℤ} (hc' : 0 ≤ col' ∧ col' < 80) (hne : ¬ (row' = row ∧ col' = col))
    (c color : UInt8) (s : Terminal) : charAt (vgaPutAt row col c color s) row' col' = charAt s row' col' := by
  by_cases hon : OnScreen row col
  · rw [vgaPutAt_charAt hon hc', if_neg hne]
  · have hout : ¬ (row ≥ 0 ∧ row < (vgaHeight : ℤ) ∧ col ≥ 0 ∧ col < (vgaWidth : ℤ)) :=
      fun h => hon ⟨⟨h.1, h.2.1⟩, h.2.2⟩
    rw [vgaPutAt, if_neg hout]

theorem drawIndicator_spec (row : ℤ) (indicator : CString) (s : Terminal) :
    Drawn s (drawIndicator row indicator s) ∧ ∀ row' (col' : ℕ), col' < 80 →
      ¬ (row' = row ∧ 74 ≤ (col' : ℤ) ∧ (col' : ℤ) < 79) →
        charAt (drawIndicator row indicator s) row' col' = charAt s row' col' := by
  unfold drawIndicator
  refine List.foldlRecOn (motive := fun t => Drawn s t ∧ ∀ row' (col' : ℕ), col' < 80 →
      ¬ (row' = row ∧ 74 ≤ (col' : ℤ) ∧ (col' : ℤ) < 79) → charAt t row' col' = charAt s row' col')
    _ _ ⟨Drawn.refl s, fun _ _ _ _ => rfl⟩ ?_
  rintro t ⟨hd, hcells⟩ i hi
  have hi' := List.mem_range.mp hi
  refine ⟨hd.trans (vgaPutAt_drawn ..), fun row' col' hc' hne => ?_⟩
  rw [vgaPutAt_other (by omega) ?_, hcells row' col' hc' hne]
  rintro ⟨hrow, hcol⟩
  exact hne ⟨hrow, by push_cast at hcol; omega⟩

/-- Only marked cells differ. -/
structure Overlaid (s s' : Terminal) : Prop where
  drawn : Drawn s s'
  cells : ∀ (row : ℤ) (col : ℕ), col < 80 → ¬ Marked s row col → charAt s' row col = charAt s row col

theorem Overlaid.refl (s : Terminal) : Overlaid s s := ⟨Drawn.refl s, fun _ _ _ _ => rfl⟩

theorem Overlaid.trans {s t u : Terminal} (h : Overlaid s t) (h' : Overlaid t u) : Overlaid s u where
  drawn := h.drawn.trans h'.drawn
  cells row col hc hm := by
    rw [h'.cells row col hc (by rwa [h.drawn.marked]), h.cells row col hc hm]

theorem overlaid_cursor (s : Terminal) :
    Overlaid s
      (if s.viewOffset = 0 then vgaPutAt (headerLines + visibleLines - 1) s.termCol 95 0x0F s else s) := by
  split_ifs with hv
  · refine ⟨vgaPutAt_drawn .., fun row col hc hm => vgaPutAt_other (by omega) ?_ _ _ s⟩
    rintro ⟨hrow, hcol⟩
    exact hm (.inl ⟨hv, hrow, hcol⟩)
  · exact Overlaid.refl s

theorem overlaid_upper (s : Terminal) :
    Overlaid s (if s.viewOffset > 0 then drawIndicator headerLines (.ofString "^MORE") s else s) := by
  split_ifs with hv
  · obtain ⟨hd, hcells⟩ := drawIndicator_spec headerLines (.ofString "^MORE") s
    exact ⟨hd, fun row col hc hm => hcells row col hc fun hin => hm (.inr (.inl ⟨hv, hin⟩))⟩
  · exact Overlaid.refl s

theorem overlaid_lower (s : Terminal) :
    Overlaid s (if s.count > visibleLines ∧ s.viewOffset < s.count - visibleLines then
      drawIndicator (vgaHeight - 1) (.ofString "vMORE") s else s) := by
  split_ifs with hv
  · obtain ⟨hd, hcells⟩ := drawIndicator_spec (vgaHeight - 1) (.ofString "vMORE") s
    exact ⟨hd, fun row col hc hm => hcells row col hc fun hin => hm (.inr (.inr ⟨hv, hin⟩))⟩
  · exact Overlaid.refl s

/-- The screen shows the lines that `scrollback_get_line_index` names, the markers aside. -/
def Refreshed (s : Terminal) : Prop := ∀ r : ℕ, r < 20 → RowShows s r (rowText s r)

/-- A refresh whose lines are in the ring returns, and changes the screen only. -/
theorem terminalRefreshView_spec {s : Terminal} (hidx : ∀ r : ℕ, r < 20 → scrollbackGetLineIndex r s < 200) :
    ∃ s', terminalRefreshView s = .ok s' ∧ Drawn s s' ∧ Refreshed s' := by
  obtain ⟨t, ht, hd, hcells⟩ := refreshRows_spec hidx
  have hover := ((overlaid_cursor t).trans (overlaid_upper _)).trans (overlaid_lower _)
  refine ⟨_, by rw [terminalRefreshView, ht, ok_bind]; rfl, hd.trans hover.drawn, fun r hr col hc hm => ?_⟩
  rw [hover.drawn.marked] at hm
  rw [hover.cells _ col hc hm, hcells r col hr hc, (hd.trans hover.drawn).rowText]

/-! ## The ranges -/

/-- The indices are in their ranges, and every line ends with a NUL. -/
structure TermInv (s : Terminal) : Prop where
  head_range : 0 ≤ s.head ∧ s.head < 200
  count_range : 0 ≤ s.count ∧ s.count ≤ 200
  col_range : 0 ≤ s.termCol ∧ s.termCol < 80
  view_range : 0 ≤ s.viewOffset ∧ s.viewOffset ≤ max 0 (s.count - 20)
  ended : ∀ i, 0 ≤ i ∧ i < 200 → s.buffer i 80 = 0

/-- The index of a visible row is in the ring, or negative. -/
theorem TermInv.lineIndex {s : Terminal} (h : TermInv s) {r : ℕ} (hr : r < 20) :
    scrollbackGetLineIndex r s < 200 := by
  have hh := h.head_range
  have hv := h.view_range
  have hvisible : ((visibleLines : ℕ) : ℤ) = 20 := rfl
  simp only [scrollbackGetLineIndex, hvisible]
  split_ifs with h0 h1 h2 <;> push_cast at * <;> omega

theorem Drawn.termInv {s s' : Terminal} (h : Drawn s s') (hs : TermInv s) : TermInv s' where
  head_range := by rw [h.head]; exact hs.head_range
  count_range := by rw [h.count]; exact hs.count_range
  col_range := by rw [h.termCol]; exact hs.col_range
  view_range := by rw [h.viewOffset, h.count]; exact hs.view_range
  ended := by rw [h.buffer]; exact hs.ended

theorem TermInv.refresh {s : Terminal} (h : TermInv s) :
    ∃ s', terminalRefreshView s = .ok s' ∧ Drawn s s' ∧ Refreshed s' :=
  terminalRefreshView_spec fun _ hr => h.lineIndex hr

theorem setBuf_ok {i j : ℤ} (hi : 0 ≤ i ∧ i < 200) (hj : 0 ≤ j ∧ j ≤ 80) (c : UInt8) (s : Terminal) :
    setBuf i j c s =
      .ok { s with buffer := Function.update s.buffer i (Function.update (s.buffer i) j c) } := by
  rw [setBuf, if_pos (buffer_bounds hi hj)]

/-- A line with all its characters NUL. -/
def blankLine (line : ℤ → UInt8) : ℤ → UInt8 := fun j => if 0 ≤ j ∧ j ≤ 80 then 0 else line j

theorem clearLine_ok {i : ℤ} (hi : 0 ≤ i ∧ i < 200) (s : Terminal) :
    clearLine i s = .ok { s with
      buffer := Function.update s.buffer i (blankLine (s.buffer i))
      colors := Function.update s.colors i vgaColorDefault } := by
  -- the first `n` columns are cleared
  have hloop : ∃ t, (List.range (vgaWidth + 1)).foldlM (fun s (j : ℕ) => setBuf i j 0 s) s = .ok t ∧
      t = { s with
        buffer := Function.update s.buffer i
          (fun j => if 0 ≤ j ∧ j < ((vgaWidth + 1 : ℕ) : ℤ) then 0 else s.buffer i j) } := by
    refine foldlM_range (P := fun n t => t = { s with
      buffer := Function.update s.buffer i
        (fun j => if 0 ≤ j ∧ j < (n : ℤ) then 0 else s.buffer i j) }) ?_ fun n hn t ht => ?_
    · have hnone : (fun j : ℤ => if 0 ≤ j ∧ j < ((0 : ℕ) : ℤ) then 0 else s.buffer i j) = s.buffer i := by
        funext j
        exact if_neg (by omega)
      rw [hnone, Function.update_eq_self]
    · have hn' : n < 81 := hn
      refine ⟨_, setBuf_ok hi (by omega) 0 t, ?_⟩
      simp only [ht, Function.update_idem, Function.update_self]
      congr 2
      funext j
      by_cases hj : j = n
      · have hlt : 0 ≤ j ∧ j < ((n + 1 : ℕ) : ℤ) := by omega
        rw [if_pos hlt, hj, Function.update_self]
      · have hiff : (0 ≤ j ∧ j < (n : ℤ)) ↔ (0 ≤ j ∧ j < ((n + 1 : ℕ) : ℤ)) := by omega
        simp only [Function.update_of_ne hj, hiff]
  obtain ⟨t, ht, rfl⟩ := hloop
  have hblank :
      (fun j => if 0 ≤ j ∧ j < ((vgaWidth + 1 : ℕ) : ℤ) then 0 else s.buffer i j) =
        blankLine (s.buffer i) := by
    funext j
    have hiff : (0 ≤ j ∧ j < ((vgaWidth + 1 : ℕ) : ℤ)) ↔ (0 ≤ j ∧ j ≤ 80) := by push_cast; omega
    simp only [blankLine, hiff]
  rw [clearLine, ht, ok_bind, hblank]
  rfl

/-! ## What the calls do before they draw -/

/-- The terminal after `scrollback_init`. -/
def cleared (s : Terminal) : Terminal :=
  { s with
    buffer := fun i => if 0 ≤ i ∧ i < 200 then blankLine (s.buffer i) else s.buffer i
    colors := fun i => if 0 ≤ i ∧ i < 200 then vgaColorDefault else s.colors i
    head := 0, count := 0, viewOffset := 0, termCol := 0 }

theorem scrollbackInit_ok (s : Terminal) : scrollbackInit s = .ok (cleared s) := by
  -- the first `n` lines are cleared
  have hloop : ∃ t, (List.range scrollbackLines).foldlM (fun s (i : ℕ) => clearLine i s) s = .ok t ∧
      t = { s with
        buffer := fun i => if 0 ≤ i ∧ i < (scrollbackLines : ℤ) then blankLine (s.buffer i) else s.buffer i
        colors := fun i => if 0 ≤ i ∧ i < (scrollbackLines : ℤ) then vgaColorDefault else s.colors i } := by
    refine foldlM_range (P := fun n t => t = { s with
      buffer := fun i => if 0 ≤ i ∧ i < (n : ℤ) then blankLine (s.buffer i) else s.buffer i
      colors := fun i => if 0 ≤ i ∧ i < (n : ℤ) then vgaColorDefault else s.colors i }) ?_ fun n hn t ht => ?_
    · have hnone (i : ℤ) : ¬ (0 ≤ i ∧ i < ((0 : ℕ) : ℤ)) := by omega
      simp only [hnone, if_false]
    · have hn' : n < 200 := hn
      have hnot : ¬ (0 ≤ (n : ℤ) ∧ (n : ℤ) < n) := by omega
      have hstep (i : ℤ) : (0 ≤ i ∧ i < ((n + 1 : ℕ) : ℤ)) ↔ i = n ∨ (0 ≤ i ∧ i < (n : ℤ)) := by omega
      refine ⟨_, clearLine_ok (by omega) t, ?_⟩
      simp only [ht, hnot, if_false]
      congr 1
      · funext i
        by_cases hi : i = n
        · rw [if_pos ((hstep i).mpr (.inl hi)), hi, Function.update_self]
        · simp only [Function.update_of_ne hi, hstep, hi, false_or]
      · funext i
        by_cases hi : i = n
        · rw [if_pos ((hstep i).mpr (.inl hi)), hi, Function.update_self]
        · simp only [Function.update_of_ne hi, hstep, hi, false_or]
  obtain ⟨t, ht, rfl⟩ := hloop
  rw [scrollbackInit, ht, ok_bind]
  rfl

/-- The terminal after `scrollback_add_line`. -/
def addedLine (s : Terminal) : Terminal :=
  let ended := Function.update s.buffer s.head (Function.update (s.buffer s.head) s.termCol 0)
  let i := (s.head + 1) % 200
  { s with
    buffer := Function.update ended i (blankLine (ended i))
    colors := Function.update s.colors i vgaColorDefault
    head := i, count := min 200 (s.count + 1), viewOffset := 0, termCol := 0 }

theorem scrollbackAddLine_ok {s : Terminal} (hh : 0 ≤ s.head ∧ s.head < 200) (hn : s.count ≤ 200)
    (hc : 0 ≤ s.termCol ∧ s.termCol ≤ 80) : scrollbackAddLine s = .ok (addedLine s) := by
  have hmod : (s.head + 1).tmod scrollbackLines = (s.head + 1) % 200 := Int.tmod_eq_emod_of_nonneg (by omega)
  have hcount : (if s.count < scrollbackLines then s.count + 1 else s.count) = min 200 (s.count + 1) := by
    split_ifs with h <;> push_cast at h <;> omega
  rw [scrollbackAddLine, setBuf_ok hh hc, ok_bind]
  simp only [hmod, hcount]
  rw [clearLine_ok (by omega), ok_bind]
  rfl

/-- The terminal after a character is stored in the current line. -/
def storedChar (c : UInt8) (s : Terminal) : Terminal :=
  { s with
    buffer := Function.update s.buffer s.head (Function.update (s.buffer s.head) s.termCol c)
    colors := Function.update s.colors s.head vgaColorDefault
    termCol := s.termCol + 1 }

/-- The terminal after the last character of the current line is erased. -/
def erasedChar (s : Terminal) : Terminal :=
  { s with
    buffer := Function.update s.buffer s.head (Function.update (s.buffer s.head) (s.termCol - 1) 0)
    termCol := s.termCol - 1 }

/-- What `terminal_putchar` does before it draws. -/
def putEffect (c : UInt8) (s : Terminal) : Terminal :=
  if c = 10 then addedLine s
  else if c = 8 then (if 0 < s.termCol then erasedChar s else s)
  else if s.termCol + 1 < 80 then storedChar c s
  else addedLine (storedChar c s)

/-- What a call does before it draws. -/
def termEffect (s : Terminal) : TermOp → Terminal
  | .clear => cleared s
  | .putchar c => putEffect c s
  | .scrollUp lines => { s with viewOffset := min (s.viewOffset + lines) (max 0 (s.count - 20)) }
  | .scrollDown lines => { s with viewOffset := max (s.viewOffset - lines) 0 }
  | .scrollToTop => { s with viewOffset := max 0 (s.count - 20) }
  | .scrollToBottom => { s with viewOffset := 0 }

section Effects

variable {s : Terminal}

theorem cleared_inv (s : Terminal) : TermInv (cleared s) where
  head_range := by simp [cleared]
  count_range := by simp [cleared]
  col_range := by simp [cleared]
  view_range := by simp [cleared]
  ended i hi := by
    simp only [cleared, if_pos hi]
    rfl

theorem addedLine_inv (hh : 0 ≤ s.head ∧ s.head < 200) (hn : 0 ≤ s.count ∧ s.count ≤ 200)
    (he : ∀ i, 0 ≤ i ∧ i < 200 → s.buffer i 80 = 0) : TermInv (addedLine s) where
  head_range := by simp only [addedLine]; omega
  count_range := by simp only [addedLine]; omega
  col_range := by simp [addedLine]
  view_range := by simp [addedLine]
  ended i hi := by
    simp only [addedLine]
    by_cases hnew : i = (s.head + 1) % 200
    · rw [hnew, Function.update_self]
      rfl
    · rw [Function.update_of_ne hnew]
      by_cases hold : i = s.head
      · rw [hold, Function.update_self]
        by_cases hc : (80 : ℤ) = s.termCol
        · rw [hc, Function.update_self]
        · rw [Function.update_of_ne hc, he _ hh]
      · rw [Function.update_of_ne hold, he i hi]

theorem storedChar_ended (h : TermInv s) (c : UInt8) {i : ℤ} (hi : 0 ≤ i ∧ i < 200) :
    (storedChar c s).buffer i 80 = 0 := by
  have hc := h.col_range
  simp only [storedChar]
  by_cases hhead : i = s.head
  · rw [hhead, Function.update_self, Function.update_of_ne (by omega), h.ended _ h.head_range]
  · rw [Function.update_of_ne hhead, h.ended i hi]

theorem putEffect_inv (h : TermInv s) (c : UInt8) : TermInv (putEffect c s) := by
  have hc := h.col_range
  unfold putEffect
  split_ifs with hnl hbs hpos hroom
  · exact addedLine_inv h.head_range h.count_range h.ended
  · refine ⟨h.head_range, h.count_range, ⟨?_, ?_⟩, h.view_range, fun i hi => ?_⟩
    · simp only [erasedChar]; omega
    · simp only [erasedChar]; omega
    · simp only [erasedChar]
      by_cases hhead : i = s.head
      · rw [hhead, Function.update_self, Function.update_of_ne (by omega), h.ended _ h.head_range]
      · rw [Function.update_of_ne hhead, h.ended i hi]
  · exact h
  · refine ⟨h.head_range, h.count_range, ⟨?_, hroom⟩, h.view_range, fun i hi => storedChar_ended h c hi⟩
    simp only [storedChar]; omega
  · exact addedLine_inv h.head_range h.count_range fun i hi => storedChar_ended h c hi

theorem termEffect_inv (h : TermInv s) {op : TermOp} (hop : op.Forward) : TermInv (termEffect s op) := by
  have hv := h.view_range
  cases op with
  | clear => exact cleared_inv s
  | putchar c => exact putEffect_inv h c
  | scrollUp lines =>
    have hn : 0 ≤ lines := hop
    exact ⟨h.head_range, h.count_range, h.col_range, by simp only [termEffect]; omega, h.ended⟩
  | scrollDown lines =>
    have hn : 0 ≤ lines := hop
    exact ⟨h.head_range, h.count_range, h.col_range, by simp only [termEffect]; omega, h.ended⟩
  | scrollToTop => exact ⟨h.head_range, h.count_range, h.col_range, by simp only [termEffect]; omega, h.ended⟩
  | scrollToBottom => exact ⟨h.head_range, h.count_range, h.col_range, by simp only [termEffect]; omega, h.ended⟩

end Effects

/-! ## The calls -/

section Calls

variable {s : Terminal}

theorem vgaClearRows_spec (s : Terminal) (n : ℕ) :
    Drawn s ((List.range n).foldl (fun s (y : ℕ) => vgaClearRow y vgaColorDefault s) s) ∧
      ∀ row col : ℕ, row < n → col < 80 →
        charAt ((List.range n).foldl (fun s (y : ℕ) => vgaClearRow y vgaColorDefault s) s) row col = 32 := by
  refine foldl_range (P := fun n t => Drawn s t ∧ ∀ row col : ℕ, row < n → col < 80 → charAt t row col = 32)
    ⟨Drawn.refl s, fun row col hr => absurd hr (Nat.not_lt_zero row)⟩ ?_
  rintro n - t ⟨hd, hcells⟩
  refine ⟨hd.trans (vgaClearRow_drawn ..), fun row col hr hc => ?_⟩
  rw [vgaClearRow_charAt (by omega)]
  by_cases hlast : row = n
  · rw [if_pos (by rw [hlast])]
  · rw [if_neg (by omega), hcells row col (by omega) hc]

theorem terminalClear_spec (s : Terminal) :
    ∃ s', terminalClear s = .ok s' ∧ Drawn (cleared s) s' ∧ Refreshed s' := by
  obtain ⟨hd, hcells⟩ := vgaClearRows_spec (cleared s) vgaHeight
  refine ⟨_, by rw [terminalClear, scrollbackInit_ok, ok_bind]; rfl, hd, fun r hr col hc _ => ?_⟩
  have hrow : rowText (cleared s) r = [] := rfl
  rw [hd.rowText, hrow, List.getD_nil]
  exact_mod_cast hcells (5 + r) col (by simp only [vgaHeight]; omega) hc

/-- A backspace at the start of a line does nothing; every other character ends with a refresh. -/
theorem terminalPutchar_eq (h : TermInv s) (c : UInt8) :
    terminalPutchar c s =
      if c = 8 ∧ s.termCol = 0 then .ok s else terminalRefreshView (putEffect c s) := by
  have hc := h.col_range
  unfold terminalPutchar putEffect
  by_cases hnl : c = 10
  · have hne : ¬ (c = 8 ∧ s.termCol = 0) := by
      rintro ⟨hbs, -⟩
      exact absurd (hnl.symm.trans hbs) (by decide)
    rw [if_pos hnl, if_neg hne, if_pos hnl, scrollbackAddLine_ok h.head_range h.count_range.2 (by omega), ok_bind]
  by_cases hbs : c = 8
  · rw [if_neg hnl, if_neg hnl, if_pos hbs, if_pos hbs]
    by_cases hpos : 0 < s.termCol
    · rw [if_pos hpos, if_neg (fun hz => hpos.ne' hz.2), if_pos hpos, setBuf_ok h.head_range (by omega), ok_bind]
      rfl
    · rw [if_neg hpos, if_pos ⟨hbs, by omega⟩, pure_eq_ok]
  · have hstore : scrollbackPutchar c vgaColorDefault s = .ok (storedChar c s) := by
      have hlt : s.termCol < (vgaWidth : ℤ) := hc.2
      rw [scrollbackPutchar, if_pos hlt, setBuf_ok h.head_range (by omega), ok_bind]
      rfl
    have hne : ¬ (c = 8 ∧ s.termCol = 0) := fun hstart => hbs hstart.1
    rw [if_neg hnl, if_neg hnl, if_neg hbs, if_neg hbs, if_neg hne, hstore, ok_bind]
    by_cases hroom : s.termCol + 1 < 80
    · have hnot : ¬ (storedChar c s).termCol ≥ (vgaWidth : ℤ) := not_le.mpr hroom
      rw [if_neg hnot, pure_eq_ok, ok_bind, if_pos hroom]
    · have hfull : (storedChar c s).termCol ≥ (vgaWidth : ℤ) := not_lt.mp hroom
      have hcol : 0 ≤ (storedChar c s).termCol ∧ (storedChar c s).termCol ≤ 80 := by
        simp only [storedChar]; omega
      have hadd := scrollbackAddLine_ok (s := storedChar c s) h.head_range h.count_range.2 hcol
      rw [if_pos hfull, hadd, ok_bind, if_neg hroom]

theorem maxOffset_eq (s : Terminal) : maxOffset s = max 0 (s.count - 20) := by
  have hvisible : ((visibleLines : ℕ) : ℤ) = 20 := rfl
  simp only [maxOffset, hvisible]
  split_ifs with h <;> omega

/-- Every call but `terminal_clear` changes nothing, or changes the terminal as `termEffect` says and refreshes the
screen. -/
theorem termStep_cases (h : TermInv s) (op : TermOp) :
    op = .clear ∨ (termEffect s op = s ∧ termStep s op = .ok s) ∨
      termStep s op = terminalRefreshView (termEffect s op) := by
  cases op with
  | clear => exact .inl rfl
  | putchar c =>
    have heq := terminalPutchar_eq h c
    split_ifs at heq with hstart
    · refine .inr (.inl ⟨?_, heq⟩)
      have hne : ¬ c = 10 := by
        rw [hstart.1]
        decide
      rw [termEffect, putEffect, if_neg hne, if_pos hstart.1, if_neg (by omega)]
    · exact .inr (.inr heq)
  | scrollUp lines =>
    refine .inr (.inr ?_)
    rw [termStep, terminalScrollUp, termEffect, maxOffset_eq]
    congr 2
    split_ifs with hlt <;> omega
  | scrollDown lines =>
    refine .inr (.inr ?_)
    rw [termStep, terminalScrollDown, termEffect]
    congr 2
    split_ifs with hlt <;> omega
  | scrollToTop =>
    refine .inr (.inr ?_)
    rw [termStep, terminalScrollToTop, termEffect, maxOffset_eq]
  | scrollToBottom => exact .inr (.inr rfl)

/-- Every call returns, changes the terminal as `termEffect` says, and leaves the screen refreshed. -/
theorem termStep_spec (h : TermInv s) {op : TermOp} (hop : op.Forward) :
    ∃ s', termStep s op = .ok s' ∧ Drawn (termEffect s op) s' ∧ (Refreshed s → Refreshed s') := by
  rcases termStep_cases h op with rfl | ⟨heffect, hs⟩ | hs
  · obtain ⟨s', he, hd, hr⟩ := terminalClear_spec s
    exact ⟨s', he, hd, fun _ => hr⟩
  · rw [heffect]
    exact ⟨s, hs, Drawn.refl s, id⟩
  · obtain ⟨s', he, hd, hr⟩ := (termEffect_inv h hop).refresh
    exact ⟨s', by rw [hs, he], hd, fun _ => hr⟩

theorem terminalPutchar_spec (h : TermInv s) (c : UInt8) :
    ∃ s', terminalPutchar c s = .ok s' ∧ Drawn (putEffect c s) s' ∧ (Refreshed s → Refreshed s') :=
  termStep_spec h (show (TermOp.putchar c).Forward from trivial)

theorem termStep_inv (h : TermInv s) {op : TermOp} (hop : op.Forward) :
    ∃ s', termStep s op = .ok s' ∧ TermInv s' := by
  obtain ⟨s', he, hd, -⟩ := termStep_spec h hop
  exact ⟨s', he, hd.termInv (termEffect_inv h hop)⟩

end Calls

/-- What is promised of the state of the terminal. -/
structure TermInRange (s : Terminal) : Prop where
  head_range : 0 ≤ s.head ∧ s.head < 200
  count_range : 0 ≤ s.count ∧ s.count ≤ 200
  col_range : 0 ≤ s.termCol ∧ s.termCol < 80
  view_range : 0 ≤ s.viewOffset ∧ s.viewOffset ≤ max 0 (s.count - 20)
  terminated : ∀ i, 0 ≤ i ∧ i < 200 → ∃ j, (0 ≤ j ∧ j < 81) ∧ s.buffer i j = 0

theorem TermInv.inRange {s : Terminal} (h : TermInv s) : TermInRange s :=
  ⟨h.head_range, h.count_range, h.col_range, h.view_range, fun i hi => ⟨80, by decide, h.ended i hi⟩⟩

theorem bootTerminal_inv (vga : ℤ → UInt16) : TermInv (bootTerminal vga) where
  head_range := by simp [bootTerminal]
  count_range := by simp [bootTerminal]
  col_range := by simp [bootTerminal]
  view_range := by simp [bootTerminal]
  ended _ _ := rfl

/-- **In every run of terminal calls in which no scroll has a negative argument, no access to
`scrollback_buffer` is out of bounds, and the state of the terminal is in range after every call.** -/
theorem terminal_stays_in_range (vga : ℤ → UInt16) {ops : List TermOp} (hops : ∀ op ∈ ops, op.Forward) :
    Along termStep (bootTerminal vga) TermInRange ops := by
  refine along_of_allSteps (bootTerminal_inv vga) (fun _ => TermInv.inRange) ?_ (allSteps_of_forall hops)
  exact fun s op h hop => termStep_inv h hop

theorem terminal_stays_in_range_scroll :
    (∀ op ∈ [TermOp.putchar 65, .putchar 10, .scrollUp 10, .scrollDown 3, .clear], op.Forward) ∧
      Along termStep (bootTerminal fun _ => 0) TermInRange
        [.putchar 65, .putchar 10, .scrollUp 10, .scrollDown 3, .clear] :=
  ⟨by decide, terminal_stays_in_range _ (by decide)⟩

end RtosKernel
