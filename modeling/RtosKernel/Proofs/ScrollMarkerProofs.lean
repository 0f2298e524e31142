import RtosKernel.Proofs.TerminalTextProofs

/-!
# The scroll markers

`view_offset` counts how far the view is above the last line, so lines lie below the view exactly if it is positive;
`terminal_refresh_view` draws `^MORE` then. It draws `vMORE` if the offset is not the largest one, that is if lines
lie above. So each marker is drawn where the other one belongs, and they tell the truth only where both are right,
or none (`MarkersFit`).
-/

namespace RtosKernel

open Lib

/-- The text at the place of a marker. -/
def ReadsAt (line : List UInt8) (marker : CString) : Prop :=
  ∀ i : ℕ, i < 5 → line.getD (74 + i) 32 = marker.chars.getD i 0

/-- The row of the screen reads as the marker at its place. -/
def Reads (s : Terminal) (row : ℤ) (marker : CString) : Prop :=
  ∀ i : ℕ, i < 5 → charAt s row ((74 + i : ℕ) : ℤ) = marker.chars.getD i 0

/-- `^MORE` is on the screen exactly if a retained line lies above the view, and `vMORE` exactly if a line lies below
it. -/
structure MarkersTrue (s : Terminal) (t : Text) : Prop where
  upper : Reads s 5 (.ofString "^MORE") ↔ ∃ k, 19 + s.viewOffset.toNat < k ∧ (t.before k).isSome
  lower : Reads s 24 (.ofString "vMORE") ↔ ∃ k, k < s.viewOffset.toNat ∧ (t.before k).isSome

/-- The markers are right. At the bottom of the view: there are too few lines for a marker, or one line is above and
the text of the first row reads as `^MORE`; and the text of the last row does not read as `vMORE`. Above: the view is
not at its top; or it is, the ring is not full, and the text of the last row reads as `vMORE`. -/
def MarkersFit (s : Terminal) (t : Text) : Prop :=
  if s.viewOffset = 0 then
    (t.finished.length < 20 ∨ t.finished.length = 20 ∧ ReadsAt (rowText s 0) (.ofString "^MORE")) ∧
      ¬ ReadsAt (rowText s 19) (.ofString "vMORE")
  else 20 + s.viewOffset < s.count ∨ t.finished.length < 200 ∧ ReadsAt (rowText s 19) (.ofString "vMORE")

/-! ## The lines -/

/-- The numbers of lines and characters of the text, which may have NULs, with nothing behind the cursor. -/
structure LineInv (s : Terminal) (t : Text) : Prop where
  count_eq : s.count = min 200 (t.finished.length : ℤ)
  col_eq : s.termCol = t.current.length
  blank_behind : ∀ j, s.termCol ≤ j → j ≤ 80 → s.buffer s.head j = 0

section Lines

variable {s s' : Terminal} {t : Text}

theorem Drawn.lineInv (hd : Drawn s s') (h : LineInv s t) : LineInv s' t where
  count_eq := by rw [hd.count, h.count_eq]
  col_eq := by rw [hd.termCol, h.col_eq]
  blank_behind := by rw [hd.termCol, hd.buffer, hd.head]; exact h.blank_behind

/-- The next line is empty. -/
theorem addedLine_lineInv {line : List UInt8} (hcount : s.count = min 200 (t.finished.length : ℤ)) :
    LineInv (addedLine s) { finished := t.finished ++ [line], current := [] } where
  count_eq := by
    simp only [addedLine, hcount, List.length_append, List.length_singleton]
    push_cast
    omega
  col_eq := rfl
  blank_behind := by
    intro j hlo hhi
    simp only [addedLine, Function.update_self, blankLine]
    exact if_pos ⟨hlo, hhi⟩

theorem LineInv.store (h : LineInv s t) (c : UInt8) :
    LineInv (storedChar c s) { t with current := t.current ++ [c] } where
  count_eq := h.count_eq
  col_eq := by
    rw [List.length_append, List.length_singleton]
    show s.termCol + 1 = _
    rw [h.col_eq]
    rfl
  blank_behind := by
    intro j hlo hhi
    have hlo' : s.termCol + 1 ≤ j := hlo
    simp only [storedChar, Function.update_self]
    rw [Function.update_of_ne (by omega)]
    exact h.blank_behind j (by omega) hhi

theorem LineInv.erase (h : LineInv s t) (hpos : 0 < s.termCol) :
    LineInv (erasedChar s) { t with current := t.current.dropLast } where
  count_eq := h.count_eq
  col_eq := by
    have hcol := h.col_eq
    rw [List.length_dropLast]
    show s.termCol - 1 = _
    omega
  blank_behind := by
    intro j hlo hhi
    have hlo' : s.termCol - 1 ≤ j := hlo
    simp only [erasedChar, Function.update_self]
    by_cases hj : j = s.termCol - 1
    · rw [hj, Function.update_self]
    · rw [Function.update_of_ne hj]
      exact h.blank_behind j (by omega) hhi

theorem putEffect_lineInv (h : LineInv s t) (hlt : s.termCol < 80) (c : UInt8) :
    LineInv (putEffect c s) (t.put c) := by
  have hcol := h.col_eq
  unfold putEffect Text.put
  by_cases hnl : c = 10
  · rw [if_pos hnl, if_pos hnl]
    exact addedLine_lineInv h.count_eq
  by_cases hbs : c = 8
  · rw [if_neg hnl, if_neg hnl, if_pos hbs, if_pos hbs]
    by_cases hpos : 0 < s.termCol
    · rw [if_pos hpos]
      exact h.erase hpos
    · have hnil : t.current = [] := List.length_eq_zero_iff.mp (by omega)
      have hsame : ({ t with current := t.current.dropLast } : Text) = t := by
        rw [hnil, List.dropLast_nil, ← hnil]
      rw [if_neg hpos, hsame]
      exact h
  · rw [if_neg hnl, if_neg hnl, if_neg hbs, if_neg hbs]
    by_cases hfull : t.current.length + 1 = 80
    · rw [if_pos hfull, if_neg (by omega)]
      exact addedLine_lineInv (s := storedChar c s) (t := t) h.count_eq
    · rw [if_neg hfull, if_pos (by omega)]
      exact h.store c

theorem termEffect_lineInv (h : LineInv s t) (hlt : s.termCol < 80) (op : TermOp) :
    LineInv (termEffect s op) (textStep t op) := by
  cases op with
  | clear => exact ⟨rfl, rfl, fun j hlo hhi => if_pos ⟨hlo, hhi⟩⟩
  | putchar c => exact putEffect_lineInv h hlt c
  | scrollUp lines => exact ⟨h.count_eq, h.col_eq, h.blank_behind⟩
  | scrollDown lines => exact ⟨h.count_eq, h.col_eq, h.blank_behind⟩
  | scrollToTop => exact ⟨h.count_eq, h.col_eq, h.blank_behind⟩
  | scrollToBottom => exact ⟨h.count_eq, h.col_eq, h.blank_behind⟩

/-- A retained line, counted from the last one. -/
theorem Text.before_isSome (t : Text) (k : ℕ) : (t.before k).isSome ↔ k < 200 ∧ k ≤ t.finished.length := by
  rw [Text.before]
  split_ifs with hk
  · rw [Option.isSome_iff_ne_none, ne_eq, List.getElem?_eq_none_iff, List.length_reverse, t.lines_length]
    omega
  · exact iff_of_false (by simp) fun h => hk h.1

/-- Lines lie above the view if it does not reach the oldest one. -/
theorem exists_above_iff (t : Text) (v : ℕ) :
    (∃ k, 19 + v < k ∧ (t.before k).isSome) ↔ 20 + v ≤ t.finished.length ∧ 20 + v < 200 := by
  constructor
  · rintro ⟨k, hk, hsome⟩
    obtain ⟨hlt, hle⟩ := (t.before_isSome k).mp hsome
    omega
  · rintro ⟨hle, hlt⟩
    exact ⟨20 + v, by omega, (t.before_isSome _).mpr ⟨hlt, hle⟩⟩

/-- Lines lie below the view if it is not at the bottom. -/
theorem exists_below_iff (t : Text) (v : ℕ) : (∃ k, k < v ∧ (t.before k).isSome) ↔ 0 < v := by
  constructor
  · rintro ⟨k, hk, -⟩
    exact Nat.zero_lt_of_lt hk
  · intro hv
    exact ⟨0, hv, (t.before_isSome 0).mpr ⟨by decide, Nat.zero_le _⟩⟩

end Lines

/-! ## What is drawn -/

/-- `terminal_refresh_view` draws `vMORE`. -/
def DrawsLower (s : Terminal) : Prop := 20 < s.count ∧ s.viewOffset < s.count - 20

/-- The markers, and the cursor where it could stand in one. -/
structure MarkersDrawn (s : Terminal) : Prop where
  cursor : s.viewOffset = 0 → ¬ DrawsLower s → 74 ≤ s.termCol → charAt s 24 s.termCol = 95
  upper : 0 < s.viewOffset → Reads s 5 (.ofString "^MORE")
  lower : DrawsLower s → Reads s 24 (.ofString "vMORE")

section Drawing

variable {s s' t : Terminal}

theorem drawIndicator_reads {row : ℤ} (hrow : 0 ≤ row ∧ row < 25) (indicator : CString) (s : Terminal) :
    Reads (drawIndicator row indicator s) row indicator := by
  -- the first `n` characters are drawn
  apply foldl_range (P := fun n t => ∀ i : ℕ, i < n → charAt t row ((74 + i : ℕ) : ℤ) = indicator.chars.getD i 0)
  · exact fun i hi => absurd hi (Nat.not_lt_zero i)
  · intro n hn t ht i hi
    have hcol : ((vgaWidth : ℕ) : ℤ) - 6 + n = ((74 + n : ℕ) : ℤ) := by
      push_cast
      omega
    rw [hcol, vgaPutAt_charAt ⟨hrow, by omega⟩ (by omega)]
    split_ifs with he
    · have : i = n := by omega
      rw [this]
    · exact ht i (by omega)

theorem Drawn.drawsLower (h : Drawn s s') : DrawsLower s' ↔ DrawsLower s := by
  rw [DrawsLower, DrawsLower, h.count, h.viewOffset]

/-- The cursor and the markers are drawn last. -/
theorem overlay_draws (t : Terminal) (hcol : 0 ≤ t.termCol ∧ t.termCol < 80) :
    let a := if t.viewOffset = 0 then vgaPutAt (headerLines + visibleLines - 1) t.termCol 95 0x0F t else t
    let b := if a.viewOffset > 0 then drawIndicator headerLines (.ofString "^MORE") a else a
    MarkersDrawn (if b.count > visibleLines ∧ b.viewOffset < b.count - visibleLines then
      drawIndicator (vgaHeight - 1) (.ofString "vMORE") b else b) := by
  intro a b
  have hta : Drawn t a := (overlaid_cursor t).drawn
  have hab : Drawn a b := (overlaid_upper a).drawn
  have hbs := (overlaid_lower b).drawn
  have hcond : (b.count > visibleLines ∧ b.viewOffset < b.count - visibleLines) ↔ DrawsLower b := Iff.rfl
  refine ⟨?_, ?_, ?_⟩
  · intro hv hlow _
    rw [hbs.drawsLower, ← hcond] at hlow
    rw [hbs.termCol, hab.termCol, hta.termCol, if_neg hlow]
    rw [hbs.viewOffset, hab.viewOffset] at hv
    have hb : b = a := if_neg (by omega)
    have ha : a = vgaPutAt (headerLines + visibleLines - 1) t.termCol 95 0x0F t := if_pos (hta.viewOffset ▸ hv)
    rw [hb, ha, vgaPutAt_charAt ⟨by decide, hcol⟩ hcol, if_pos ⟨rfl, rfl⟩]
  · intro hv
    rw [hbs.viewOffset, hab.viewOffset] at hv
    have hb : b = drawIndicator headerLines (.ofString "^MORE") a := if_pos hv
    have hreads : Reads b 5 (.ofString "^MORE") := by
      rw [hb]
      exact drawIndicator_reads (by decide) _ a
    split_ifs
    · intro i hi
      rw [(drawIndicator_spec (vgaHeight - 1) (.ofString "vMORE") b).2 5 (74 + i) (by omega)]
      · exact hreads i hi
      · exact fun hrow => absurd hrow.1 (by decide)
    · exact hreads
  · intro hlow
    rw [hbs.drawsLower, ← hcond] at hlow
    rw [if_pos hlow]
    exact drawIndicator_reads (by decide) _ b

theorem terminalRefreshView_draws {u : Terminal} (h : terminalRefreshView u = .ok s') (hu : TermInv u) :
    MarkersDrawn s' := by
  obtain ⟨t, ht, he⟩ := bind_eq_ok.mp h
  obtain ⟨t', ht', hd, -⟩ := refreshRows_spec fun r hr => hu.lineIndex hr
  obtain rfl : t' = t := Except.ok.inj (ht'.symm.trans ht)
  have hcol := hd.termCol ▸ hu.col_range
  rw [← Except.ok.inj he]
  exact overlay_draws t' hcol

end Drawing

/-! ## Runs -/

/-- The state of the terminal after a call, with the text that was written. -/
structure Marking (s : Terminal) (t : Text) : Prop where
  inv : TermInv s
  lines : LineInv s t
  refreshed : Refreshed s
  drawn : MarkersDrawn s

theorem terminalClear_marking (s : Terminal) :
    ∃ s', terminalClear s = .ok s' ∧ Marking s' { finished := [], current := [] } := by
  obtain ⟨s', he, hd, hr⟩ := terminalClear_spec s
  have hv : s'.viewOffset = 0 := hd.viewOffset
  have hn : s'.count = 0 := hd.count
  have hcol : s'.termCol = 0 := hd.termCol
  have hlow : ¬ DrawsLower s' := by
    rw [DrawsLower, hn]
    omega
  refine ⟨s', he, hd.termInv (cleared_inv s), hd.lineInv ⟨rfl, rfl, fun j hlo hhi => if_pos ⟨hlo, hhi⟩⟩, hr, ?_⟩
  exact ⟨fun _ _ h74 => by omega, fun hpos => by omega, fun h => absurd h hlow⟩

theorem termStep_marking {s : Terminal} {t : Text} (h : Marking s t) {op : TermOp} (hop : op.Forward) :
    ∃ s', termStep s op = .ok s' ∧ Marking s' (textStep t op) := by
  have hinv := termEffect_inv h.inv hop
  have hlines := termEffect_lineInv h.lines h.inv.col_range.2 op
  rcases termStep_cases h.inv op with rfl | ⟨heffect, hs⟩ | hs
  · exact terminalClear_marking s
  · rw [heffect] at hlines
    exact ⟨s, hs, h.inv, hlines, h.refreshed, h.drawn⟩
  · obtain ⟨s', he, hd, hr⟩ := hinv.refresh
    exact ⟨s', hs.trans he, hd.termInv hinv, hd.lineInv hlines, hr, terminalRefreshView_draws he hinv⟩

/-- After `terminal_clear` every run of characters and scrolls returns, in such a state. -/
theorem marking_run (s₀ : Terminal) {ops : List TermOp} (hops : ∀ op ∈ ops, op.Forward) :
    ∃ s, run termStep s₀ (.clear :: ops) = .ok s ∧ Marking s (textOf ops) := by
  obtain ⟨s₁, h₁, hs₁⟩ := terminalClear_marking s₀
  have hstep : ∀ s t op, TermOp.Forward op → Marking s t →
      ∃ s', termStep s op = .ok s' ∧ Marking s' (textStep t op) :=
    fun s t op hop h => termStep_marking h hop
  obtain ⟨s, hr, hs⟩ := run_refines_on hs₁ hstep hops
  have hclear : run termStep s₀ [.clear] = .ok s₁ := run_singleton.trans h₁
  exact ⟨s, (run_append hclear).trans hr, hs⟩

/-! ## What the screen reads -/

section Screen

variable {s : Terminal} {t : Text}

/-- A text reads as a marker only if it is long enough. -/
theorem ReadsAt.length_gt {line : List UInt8} {marker : CString} (h : ReadsAt line marker)
    (hlast : marker.chars.getD 4 0 ≠ 32) : 78 < line.length := by
  by_contra hle
  have h4 := h 4 (by decide)
  rw [List.getD_eq_default _ _ (not_lt.mp hle)] at h4
  exact hlast h4.symm

/-- Cells that no marker and no cursor covers read as their row does. -/
theorem Marking.reads_iff (h : Marking s t) {r : ℕ} (hr : r < 20) (marker : CString)
    (hclear : ∀ i : ℕ, i < 5 → ¬ Marked s (5 + r) ((74 + i : ℕ) : ℤ)) :
    Reads s (5 + r) marker ↔ ReadsAt (rowText s r) marker := by
  have hcells (i : ℕ) (hi : i < 5) : charAt s (5 + r) ((74 + i : ℕ) : ℤ) = (rowText s r).getD (74 + i) 32 :=
    h.refreshed r hr (74 + i) (by omega) (hclear i hi)
  constructor
  · intro hreads i hi
    rw [← hcells i hi, hreads i hi]
  · intro hreads i hi
    rw [hcells i hi, hreads i hi]

/-- At the bottom of the view, the last row has no text behind the cursor. -/
theorem Marking.last_row_length (h : Marking s t) (hv : s.viewOffset = 0) :
    (rowText s 19).length ≤ t.current.length := by
  have hhead := h.inv.head_range
  have hcol := h.inv.col_range
  have hcoleq := h.lines.col_eq
  have hvisible : ((visibleLines : ℕ) : ℤ) = 20 := rfl
  by_cases h0 : s.count = 0
  · have hidx : scrollbackGetLineIndex (19 : ℕ) s = -1 := if_pos h0
    rw [rowText, hidx, if_neg (by decide)]
    exact Nat.zero_le _
  · have hcount := h.inv.count_range
    have hidx : scrollbackGetLineIndex (19 : ℕ) s = s.head := by
      rw [scrollbackGetLineIndex, if_neg h0, hvisible, hv]
      simp only
      rw [if_neg (by push_cast; omega), if_neg (by push_cast; omega)]
      push_cast
      omega
    rw [rowText, hidx, if_pos hhead.1, lineText]
    apply readString_length_le
    · exact h.lines.blank_behind _ (by omega) (by omega)
    · show t.current.length < 80
      omega

theorem Marking.lower_iff (h : Marking s t) :
    Reads s 24 (.ofString "vMORE") ↔ DrawsLower s ∨ ReadsAt (rowText s 19) (.ofString "vMORE") := by
  by_cases hlow : DrawsLower s
  · exact iff_of_true (h.drawn.lower hlow) (Or.inl hlow)
  rw [or_iff_right hlow]
  by_cases hcursor : s.viewOffset = 0 ∧ 74 ≤ s.termCol ∧ s.termCol < 79
  · -- the cursor stands in the place of the marker, and no text reaches beyond it
    obtain ⟨hv, hlo, hhi⟩ := hcursor
    apply iff_of_false
    · intro hreads
      obtain ⟨i, hi⟩ := Int.eq_ofNat_of_zero_le (show 0 ≤ s.termCol - 74 by omega)
      have hcell := h.drawn.cursor hv hlow hlo
      have hcol : s.termCol = ((74 + i : ℕ) : ℤ) := by
        push_cast
        omega
      have hi5 : i < 5 := by omega
      rw [hcol, hreads i hi5] at hcell
      interval_cases i
      all_goals exact absurd hcell (by decide)
    · intro hreads
      have hlong := hreads.length_gt (by decide)
      have hshort := h.last_row_length hv
      have hcoleq := h.lines.col_eq
      omega
  · have hrow : (24 : ℤ) = 5 + (19 : ℕ) := by decide
    rw [hrow]
    apply h.reads_iff (by decide)
    rintro i hi (⟨hv, -, hcol⟩ | ⟨-, hfirst, -⟩ | ⟨hmore, -⟩)
    · exact hcursor ⟨hv, by omega, by omega⟩
    · exact absurd hfirst (by decide)
    · exact hlow hmore

theorem Marking.upper_iff (h : Marking s t) :
    Reads s 5 (.ofString "^MORE") ↔ 0 < s.viewOffset ∨ ReadsAt (rowText s 0) (.ofString "^MORE") := by
  by_cases hv : 0 < s.viewOffset
  · exact iff_of_true (h.drawn.upper hv) (Or.inl hv)
  rw [or_iff_right hv]
  have hrow : (5 : ℤ) = 5 + (0 : ℕ) := by decide
  rw [hrow]
  apply h.reads_iff (by decide)
  intro i hi hm
  exact hv ((marked_first_row s (74 + i)).mp hm).1

/-- Before the screen is full, the first row is blank. -/
theorem Marking.first_row_blank (h : Marking s t) (hv : s.viewOffset = 0) (hn : t.finished.length < 20) :
    ¬ ReadsAt (rowText s 0) (.ofString "^MORE") := by
  intro hreads
  have hcount := h.lines.count_eq
  have hvisible : ((visibleLines : ℕ) : ℤ) = 20 := rfl
  have hidx : scrollbackGetLineIndex (0 : ℕ) s = -1 := by
    have hge : ((visibleLines : ℕ) : ℤ) - 1 - ((0 : ℕ) : ℤ) + s.viewOffset ≥ s.count := by
      rw [hvisible, hv]
      omega
    simp only [scrollbackGetLineIndex, hge, if_true, ite_self]
  have hlong := hreads.length_gt (by decide)
  rw [rowText, hidx, if_neg (by decide)] at hlong
  exact absurd hlong (by decide)

/-- The markers, in terms of the numbers of lines and of what the rows read. -/
theorem Marking.markersTrue_iff_counts (h : Marking s t) :
    MarkersTrue s t ↔
      ((0 < s.viewOffset ∨ ReadsAt (rowText s 0) (.ofString "^MORE")) ↔
        20 + s.viewOffset.toNat ≤ t.finished.length ∧ 20 + s.viewOffset.toNat < 200) ∧
      ((DrawsLower s ∨ ReadsAt (rowText s 19) (.ofString "vMORE")) ↔ 0 < s.viewOffset.toNat) := by
  rw [← exists_above_iff, ← exists_below_iff t, ← h.upper_iff, ← h.lower_iff]
  exact ⟨fun hm => ⟨hm.upper, hm.lower⟩, fun hm => ⟨hm.1, hm.2⟩⟩

/-- At the bottom of the view no marker is due below, and `^MORE` is due from 20 finished lines on. -/
theorem Marking.markersTrue_bottom (h : Marking s t) (hv : s.viewOffset = 0) :
    MarkersTrue s t ↔
      (t.finished.length < 20 ∨ t.finished.length = 20 ∧ ReadsAt (rowText s 0) (.ofString "^MORE")) ∧
        ¬ ReadsAt (rowText s 19) (.ofString "vMORE") := by
  have hcount := h.lines.count_eq
  have hlow : DrawsLower s ↔ 20 < t.finished.length := by
    rw [DrawsLower]
    omega
  rw [h.markersTrue_iff_counts, hlow, hv, Int.toNat_zero]
  constructor
  · rintro ⟨hupper, hlower⟩
    have hnone := not_or.mp (hlower.not.mpr (lt_irrefl 0))
    refine ⟨?_, hnone.2⟩
    by_cases hn : t.finished.length < 20
    · exact Or.inl hn
    · rcases hupper.mpr ⟨by omega, by decide⟩ with hpos | hreads
      · exact absurd hpos (lt_irrefl 0)
      · exact Or.inr ⟨by omega, hreads⟩
  · rintro ⟨hfew | ⟨heq, hreads⟩, hlower⟩
    · refine ⟨iff_of_false ?_ (by omega), iff_of_false ?_ (lt_irrefl 0)⟩
      · exact not_or.mpr ⟨lt_irrefl 0, h.first_row_blank hv hfew⟩
      · exact not_or.mpr ⟨by omega, hlower⟩
    · refine ⟨iff_of_true (Or.inr hreads) (by omega), iff_of_false ?_ (lt_irrefl 0)⟩
      exact not_or.mpr ⟨by omega, hlower⟩

/-- Above, both markers are due, but at the top of a full ring only the lower one. -/
theorem Marking.markersTrue_scrolled (h : Marking s t) (hv : 0 < s.viewOffset) :
    MarkersTrue s t ↔
      20 + s.viewOffset < s.count ∨ t.finished.length < 200 ∧ ReadsAt (rowText s 19) (.ofString "vMORE") := by
  have hview := h.inv.view_range
  have hcount := h.lines.count_eq
  have hlow : DrawsLower s ↔ 20 + s.viewOffset < s.count := by
    rw [DrawsLower]
    omega
  rw [h.markersTrue_iff_counts, hlow]
  constructor
  · rintro ⟨hupper, hlower⟩
    obtain ⟨hle, hlt⟩ := hupper.mp (Or.inl hv)
    rcases hlower.mpr (by omega) with hdrawn | hreads
    · exact Or.inl hdrawn
    · by_cases hfull : t.finished.length < 200
      · exact Or.inr ⟨hfull, hreads⟩
      · exact Or.inl (by omega)
  · rintro (hin | ⟨hroom, hreads⟩)
    · exact ⟨iff_of_true (Or.inl hv) (by omega), iff_of_true (Or.inl hin) (by omega)⟩
    · exact ⟨iff_of_true (Or.inl hv) (by omega), iff_of_true (Or.inr hreads) (by omega)⟩

theorem Marking.markersTrue_iff (h : Marking s t) : MarkersTrue s t ↔ MarkersFit s t := by
  have hview := h.inv.view_range
  rw [MarkersFit]
  split_ifs with hv
  · exact h.markersTrue_bottom hv
  · exact h.markersTrue_scrolled (by omega)

end Screen

/-- **After `terminal_clear` and any characters and scrolls, the markers tell the truth if and only if they fit.** -/
theorem scroll_markers_true_iff (s₀ : Terminal) {ops : List TermOp} (hops : ∀ op ∈ ops, op.Forward) :
    ∃ s, run termStep s₀ (.clear :: ops) = .ok s ∧ (MarkersTrue s (textOf ops) ↔ MarkersFit s (textOf ops)) := by
  obtain ⟨s, hr, hs⟩ := marking_run s₀ hops
  exact ⟨s, hr, hs.markersTrue_iff⟩

theorem scroll_markers_true_iff_one_char :
    (∀ op ∈ [TermOp.putchar 65, .scrollUp 10], op.Forward) ∧
      ∃ s, run termStep (bootTerminal fun _ => 0) [.clear, .putchar 65, .scrollUp 10] = .ok s ∧
        (MarkersTrue s (textOf [.putchar 65, .scrollUp 10]) ↔ MarkersFit s (textOf [.putchar 65, .scrollUp 10])) :=
  ⟨by decide, scroll_markers_true_iff _ (by decide)⟩

/-- After 21 line breaks two lines are above the view and none below, and `vMORE` is on the screen. -/
theorem more_marker_swapped :
    ∃ s, run termStep (bootTerminal fun _ => 0) (.clear :: List.replicate 21 (.putchar 10)) = .ok s ∧
      ¬ MarkersTrue s (textOf (List.replicate 21 (.putchar 10))) := by
  have hbreak : (TermOp.putchar 10).Forward := trivial
  have hops : ∀ op ∈ List.replicate 20 (TermOp.putchar 10), op.Forward := by
    intro op hop
    rw [List.eq_of_mem_replicate hop]
    exact hbreak
  obtain ⟨u, hu, hum⟩ := marking_run (bootTerminal fun _ => 0) hops
  obtain ⟨s, hs, hd, -⟩ := termStep_spec hum.inv hbreak
  obtain ⟨s', hs', hsm⟩ := termStep_marking hum hbreak
  obtain rfl : s' = s := Except.ok.inj (hs'.symm.trans hs)
  have hlast : List.replicate 21 (TermOp.putchar 10) = List.replicate 20 (.putchar 10) ++ [.putchar 10] :=
    List.replicate_succ'
  have htext : textOf (List.replicate 21 (.putchar 10)) =
      textStep (textOf (List.replicate 20 (.putchar 10))) (.putchar 10) := by
    rw [hlast, textOf, List.foldl_append]
    rfl
  have hcount : (textOf (List.replicate 21 (.putchar 10))).finished.length = 21 := by decide
  have hv : s'.viewOffset = 0 := hd.viewOffset
  refine ⟨s', ?_, ?_⟩
  · rw [hlast, ← List.cons_append, run_snoc hu, hs]
  · rw [htext, hsm.markersTrue_iff, ← htext, MarkersFit, if_pos hv, hcount]
    rintro ⟨hfew | ⟨heq, -⟩, -⟩
    · exact absurd hfew (by decide)
    · exact absurd heq (by decide)

end RtosKernel
