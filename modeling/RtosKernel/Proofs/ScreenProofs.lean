import RtosKernel.Proofs.TerminalProofs
import RtosKernel.Screen
import Mathlib.Data.List.GetD

/-!
# Proofs: the colours of the screen

All drawing goes through `vga_entry`, which is called with the colour 0x0F everywhere. It combines the
character with the colour before the sign of the character is cut off: from 0x80 on the ones of the sign
cover the colour. So the screen is monochrome as long as every character that reaches it is below 0x80
(`PlainText`).
-/

namespace RtosKernel

open Lib

/-! ## The stores of the drawing functions -/

/-- Only the VGA buffer differs, by the stores. -/
structure Paints (s s' : Terminal) (stores : List VgaStore) : Prop where
  drawn : Drawn s s'
  vga : s'.vga = paint stores s.vga

theorem paint_append (stores stores' : List VgaStore) (vga : ℤ → UInt16) :
    paint (stores ++ stores') vga = paint stores' (paint stores vga) := List.foldl_append

theorem Paints.refl (s : Terminal) : Paints s s [] := ⟨Drawn.refl s, rfl⟩

theorem Paints.trans {s t u : Terminal} {stores stores' : List VgaStore} (h : Paints s t stores)
    (h' : Paints t u stores') : Paints s u (stores ++ stores') :=
  ⟨h.drawn.trans h'.drawn, by rw [h'.vga, h.vga, paint_append]⟩

/-- One store. -/
theorem paints_store (cell : ℤ) (c color : UInt8) (s : Terminal) :
    Paints s { s with vga := Function.update s.vga cell (vgaEntry c color) } [⟨cell, c, color⟩] :=
  ⟨⟨rfl, rfl, rfl, rfl, rfl, rfl⟩, rfl⟩

/-- A loop of drawing calls. -/
theorem Paints.foldl {f : Terminal → ℕ → Terminal} {stores : ℕ → List VgaStore}
    (h : ∀ s i, Paints s (f s i) (stores i)) (l : List ℕ) (s : Terminal) :
    Paints s (l.foldl f s) (l.flatMap stores) := by
  induction l generalizing s with
  | nil => exact Paints.refl s
  | cons i l ih => exact (h s i).trans (ih (f s i))

theorem vgaPutAt_paints (row col : ℤ) (c color : UInt8) (s : Terminal) :
    Paints s (vgaPutAt row col c color s) (putAtStores row col c color) := by
  unfold vgaPutAt putAtStores
  split_ifs
  · exact paints_store ..
  · exact Paints.refl s

theorem fillRow_paints (row : ℤ) (c color : UInt8) (s : Terminal) :
    Paints s (fillRow row c color s) (fillRowStores row c color) := by
  unfold fillRow fillRowStores
  rw [List.map_eq_flatMap]
  refine Paints.foldl (fun s x => ?_) _ s
  exact paints_store ..

theorem vgaClearRow_paints (row : ℤ) (color : UInt8) (s : Terminal) :
    Paints s (vgaClearRow row color s) (fillRowStores row 32 color) := fillRow_paints row 32 color s

theorem drawIndicator_paints (row : ℤ) (indicator : CString) (s : Terminal) :
    Paints s (drawIndicator row indicator s) (indicatorStores row indicator) := by
  unfold drawIndicator indicatorStores
  refine Paints.foldl (fun s i => ?_) _ s
  exact vgaPutAt_paints ..

theorem terminalWriteAtCol_paints (str : CString) (row col : Int32) (color : UInt8) (s : Terminal) :
    Paints s (terminalWriteAtCol str row col color s) (writeAtColStores str row col color) := by
  unfold terminalWriteAtCol writeAtColStores
  refine Paints.foldl (fun s i => ?_) _ s
  exact vgaPutAt_paints ..

theorem drawUptime_paints (buf : List UInt8) (s : Terminal) :
    Paints s (drawUptime buf s) (uptimeStores buf) := by
  unfold drawUptime uptimeStores
  rw [List.map_eq_flatMap]
  refine Paints.foldl (fun s j => ?_) _ s
  exact paints_store ..

theorem drawHeader_paints (s : Terminal) : Paints s (drawHeader s) headerStores := by
  have h1 := fillRow_paints 0 32 vgaColorHeader s
  have h2 := h1.trans (terminalWriteAtCol_paints (.ofString "  RTOS x86 v3.1  ") 0 0 vgaColorHeader _)
  have h3 := h2.trans (fillRow_paints 1 45 vgaColorDefault _)
  have h4 := h3.trans
    (terminalWriteAtCol_paints (.ofString "Task A (Producer Sent) : ") 2 0 vgaColorTaskbar _)
  have h5 := h4.trans
    (terminalWriteAtCol_paints (.ofString "Task B (Consumer Recv) : ") 3 0 vgaColorTaskbar _)
  exact h5.trans (fillRow_paints 4 45 vgaColorDefault _)

section Refresh

variable {s s' : Terminal}

theorem Drawn.drawLineStores (h : Drawn s s') (line row : ℤ) (color : UInt8) (n : ℕ) (col : ℤ) :
    drawLineStores line row color s' n col = drawLineStores line row color s n col := by
  induction n generalizing col with
  | zero => rfl
  | succ n ih =>
    unfold RtosKernel.drawLineStores
    rw [h.buffer, ih]

theorem drawLine_paints {line row col : ℤ} {color : UInt8} {n : ℕ}
    (h : drawLine line row color n col s = .ok s') : Paints s s' (drawLineStores line row color s n col) := by
  induction n generalizing s col with
  | zero =>
    obtain rfl := Except.ok.inj h
    exact Paints.refl s
  | succ n ih =>
    rw [drawLine] at h
    obtain ⟨c, hc, h⟩ := bind_eq_ok.mp h
    have hread : s.buffer line col = c := by
      unfold getBuf at hc
      split_ifs at hc
      exact Except.ok.inj hc
    subst hread
    rw [drawLineStores]
    split_ifs at h ⊢ with h0
    · have hput := vgaPutAt_paints row col (s.buffer line col) color s
      have hrest := ih h
      rw [hput.drawn.drawLineStores] at hrest
      exact hput.trans hrest
    · obtain rfl := Except.ok.inj h
      exact Paints.refl s

theorem Drawn.refreshRowStores (h : Drawn s s') (row : ℕ) :
    refreshRowStores s' row = refreshRowStores s row := by
  unfold RtosKernel.refreshRowStores
  simp only [h.lineIndex, h.colors, h.drawLineStores]

theorem refreshRow_paints {row : ℕ} (h : refreshRow s row = .ok s') :
    Paints s s' (refreshRowStores s row) := by
  have hclear := vgaClearRow_paints (headerLines + row) vgaColorDefault s
  unfold refreshRow at h
  unfold refreshRowStores
  refine hclear.trans ?_
  simp only at h ⊢
  split_ifs at h ⊢ with hidx
  · have hline := drawLine_paints h
    rwa [hclear.drawn.drawLineStores, hclear.drawn.colors] at hline
  · obtain rfl := Except.ok.inj h
    exact Paints.refl _

theorem refreshRows_paints {rows : List ℕ} (h : rows.foldlM refreshRow s = .ok s') :
    Paints s s' (rows.flatMap (refreshRowStores s)) := by
  induction rows generalizing s with
  | nil =>
    obtain rfl := Except.ok.inj h
    exact Paints.refl s
  | cons row rows ih =>
    rw [List.foldlM_cons] at h
    obtain ⟨t, ht, h⟩ := bind_eq_ok.mp h
    have hrow := refreshRow_paints ht
    have hrest := ih h
    have hsame : refreshRowStores t = refreshRowStores s := funext hrow.drawn.refreshRowStores
    rw [hsame] at hrest
    exact hrow.trans hrest

/-- A conditional drawing call. -/
theorem Paints.ite {p : Prop} [Decidable p] {stores : List VgaStore} (h : Paints s s' stores) :
    Paints s (if p then s' else s) (if p then stores else []) := by
  split_ifs
  · exact h
  · exact Paints.refl s

theorem terminalRefreshView_paints (h : terminalRefreshView s = .ok s') : Paints s s' (refreshStores s) := by
  rw [terminalRefreshView] at h
  obtain ⟨t, ht, h⟩ := bind_eq_ok.mp h
  obtain rfl := Except.ok.inj h
  have hrows := refreshRows_paints ht
  have hcursor := (vgaPutAt_paints (headerLines + visibleLines - 1) t.termCol 95 0x0F t).ite
    (p := t.viewOffset = 0)
  obtain ⟨t₁, ht₁⟩ : ∃ u, u = if t.viewOffset = 0 then
      vgaPutAt (headerLines + visibleLines - 1) t.termCol 95 0x0F t else t := ⟨_, rfl⟩
  rw [← ht₁] at hcursor ⊢
  have hupper := (drawIndicator_paints headerLines (.ofString "^MORE") t₁).ite (p := t₁.viewOffset > 0)
  obtain ⟨t₂, ht₂⟩ : ∃ u, u = if t₁.viewOffset > 0 then
      drawIndicator headerLines (.ofString "^MORE") t₁ else t₁ := ⟨_, rfl⟩
  rw [← ht₂] at hupper ⊢
  have hlower := (drawIndicator_paints (vgaHeight - 1) (.ofString "vMORE") t₂).ite
    (p := t₂.count > visibleLines ∧ t₂.viewOffset < t₂.count - visibleLines)
  have hd₁ := hrows.drawn.trans hcursor.drawn
  have hd₂ := hd₁.trans hupper.drawn
  rw [hrows.drawn.viewOffset, hrows.drawn.termCol] at hcursor
  rw [hd₁.viewOffset] at hupper
  rw [hd₂.count, hd₂.viewOffset] at hlower
  have hall := ((hrows.trans hcursor).trans hupper).trans hlower
  rw [hd₂.count, hd₂.viewOffset]
  exact hall

theorem Drawn.refreshStores (h : Drawn s s') : refreshStores s' = refreshStores s := by
  have hrows : RtosKernel.refreshRowStores s' = RtosKernel.refreshRowStores s := funext h.refreshRowStores
  unfold RtosKernel.refreshStores
  rw [hrows, h.viewOffset, h.termCol, h.count]

end Refresh

/-! ## The text -/

/-- The characters of the text are below 0x80, and every line with a character in it has the colour 0x0F. -/
structure PlainText (s : Terminal) : Prop where
  chars : ∀ i j, s.buffer i j < 0x80
  color : ∀ i, s.colors i = vgaColorDefault ∨ ∀ j, s.buffer i j = 0

/-- The text is changed, and stays plain; the screen is not. -/
structure EditsPlain (s s' : Terminal) : Prop where
  vga : s'.vga = s.vga
  plain : PlainText s → PlainText s'

theorem EditsPlain.refl (s : Terminal) : EditsPlain s s := ⟨rfl, id⟩

theorem EditsPlain.trans {s t u : Terminal} (h : EditsPlain s t) (h' : EditsPlain t u) : EditsPlain s u :=
  ⟨h'.vga.trans h.vga, fun hs => h'.plain (h.plain hs)⟩

section Text

variable {s s' : Terminal} {i j : ℤ} {c : UInt8}

theorem setBuf_eq (h : setBuf i j c s = .ok s') :
    s' = { s with buffer := Function.update s.buffer i (Function.update (s.buffer i) j c) } := by
  unfold setBuf at h
  split_ifs at h
  exact (Except.ok.inj h).symm

theorem store_chars (hs : PlainText s) (hc : c < 0x80) (i j i' j' : ℤ) :
    Function.update s.buffer i (Function.update (s.buffer i) j c) i' j' < 0x80 := by
  by_cases hi : i' = i
  · subst hi
    rw [Function.update_self]
    by_cases hj : j' = j
    · rwa [hj, Function.update_self]
    · rw [Function.update_of_ne hj]
      exact hs.chars i' j'
  · rw [Function.update_of_ne hi]
    exact hs.chars i' j'

theorem setBuf_nul_plain (h : setBuf i j 0 s = .ok s') : EditsPlain s s' := by
  obtain rfl := setBuf_eq h
  refine ⟨rfl, fun hs => ⟨store_chars hs (by decide) i j, fun i' => ?_⟩⟩
  rcases hs.color i' with hdefault | hnul
  · exact Or.inl hdefault
  · refine Or.inr fun j' => ?_
    show Function.update s.buffer i (Function.update (s.buffer i) j 0) i' j' = 0
    by_cases hi : i' = i
    · subst hi
      rw [Function.update_self]
      by_cases hj : j' = j
      · rw [hj, Function.update_self]
      · rw [Function.update_of_ne hj, hnul j']
    · rw [Function.update_of_ne hi, hnul j']

theorem colors_plain (i : ℤ) (s : Terminal) :
    EditsPlain s { s with colors := Function.update s.colors i vgaColorDefault } := by
  refine ⟨rfl, fun hs => ⟨hs.chars, fun i' => ?_⟩⟩
  show Function.update s.colors i vgaColorDefault i' = vgaColorDefault ∨ ∀ j, s.buffer i' j = 0
  by_cases hi : i' = i
  · rw [hi, Function.update_self]
    exact Or.inl rfl
  · rw [Function.update_of_ne hi]
    exact hs.color i'

theorem clearLine_plain (h : clearLine i s = .ok s') : EditsPlain s s' := by
  rw [clearLine] at h
  obtain ⟨t, ht, h⟩ := bind_eq_ok.mp h
  obtain rfl := Except.ok.inj h
  have hloop : EditsPlain s t :=
    foldlM_inv (I := EditsPlain s) (fun _ _ _ ha h' => ha.trans (setBuf_nul_plain h')) (EditsPlain.refl s) ht
  exact hloop.trans (colors_plain i t)

theorem scrollbackInit_plain (h : scrollbackInit s = .ok s') : EditsPlain s s' := by
  rw [scrollbackInit] at h
  obtain ⟨t, ht, h⟩ := bind_eq_ok.mp h
  obtain rfl := Except.ok.inj h
  have hloop : EditsPlain s t :=
    foldlM_inv (I := EditsPlain s) (fun _ _ _ ha h' => ha.trans (clearLine_plain h')) (EditsPlain.refl s) ht
  exact hloop.trans ⟨rfl, fun hs => ⟨hs.chars, hs.color⟩⟩

theorem scrollbackAddLine_plain (h : scrollbackAddLine s = .ok s') : EditsPlain s s' := by
  rw [scrollbackAddLine] at h
  obtain ⟨t, ht, h⟩ := bind_eq_ok.mp h
  obtain ⟨u, hu, h⟩ := bind_eq_ok.mp h
  obtain rfl := Except.ok.inj h
  have hmoved := clearLine_plain hu
  refine (setBuf_nul_plain ht).trans ⟨hmoved.vga, fun hs => ?_⟩
  have hplain := hmoved.plain ⟨hs.chars, hs.color⟩
  exact ⟨hplain.chars, hplain.color⟩

theorem scrollbackPutchar_plain (hc : c < 0x80) (h : scrollbackPutchar c vgaColorDefault s = .ok s') :
    EditsPlain s s' := by
  unfold scrollbackPutchar at h
  split_ifs at h with hroom
  · obtain ⟨t, ht, h⟩ := bind_eq_ok.mp h
    obtain rfl := Except.ok.inj h
    obtain rfl := setBuf_eq ht
    refine ⟨rfl, fun hs => ⟨store_chars hs hc s.head s.termCol, fun i' => ?_⟩⟩
    show Function.update s.colors s.head vgaColorDefault i' = vgaColorDefault ∨
      ∀ j, Function.update s.buffer s.head (Function.update (s.buffer s.head) s.termCol c) i' j = 0
    by_cases hi : i' = s.head
    · rw [hi, Function.update_self]
      exact Or.inl rfl
    · rw [Function.update_of_ne hi, Function.update_of_ne hi]
      exact hs.color i'
  · obtain rfl := Except.ok.inj h
    exact EditsPlain.refl s

end Text

/-! ## The calls of the terminal -/

section Calls

variable {s s' : Terminal}

/-- A call of the terminal makes its stores, and keeps the text plain if its character is. -/
structure DrawsPlain (s s' : Terminal) (stores : List VgaStore) : Prop where
  vga : s'.vga = paint stores s.vga
  plain : PlainText s → PlainText s'

theorem Drawn.plain (h : Drawn s s') (hs : PlainText s) : PlainText s' :=
  ⟨by rw [h.buffer]; exact hs.chars, by rw [h.buffer, h.colors]; exact hs.color⟩

theorem Paints.drawsPlain {stores : List VgaStore} (h : Paints s s' stores) : DrawsPlain s s' stores :=
  ⟨h.vga, h.drawn.plain⟩

/-- An edit of the text, and then a refresh. -/
theorem EditsPlain.refresh {t : Terminal} (h : EditsPlain s t) (hr : terminalRefreshView t = .ok s') :
    DrawsPlain s s' (refreshStores s') := by
  have hp := terminalRefreshView_paints hr
  refine ⟨?_, fun hs => hp.drawn.plain (h.plain hs)⟩
  rw [hp.vga, hp.drawn.refreshStores, h.vga]

theorem terminalClear_drawsPlain (h : terminalClear s = .ok s') :
    DrawsPlain s s' (termStores s s' .clear) := by
  rw [terminalClear] at h
  obtain ⟨t, ht, h⟩ := bind_eq_ok.mp h
  obtain rfl := Except.ok.inj h
  have hinit := scrollbackInit_plain ht
  have hrows :=
    Paints.foldl (fun s y => vgaClearRow_paints (y : ℤ) vgaColorDefault s) (List.range vgaHeight) t
  refine ⟨?_, fun hs => hrows.drawn.plain (hinit.plain hs)⟩
  rw [hrows.vga, hinit.vga]
  rfl

theorem terminalPutchar_drawsPlain {c : UInt8} (hc : c < 0x80) (h : terminalPutchar c s = .ok s') :
    DrawsPlain s s' (termStores s s' (.putchar c)) := by
  unfold terminalPutchar at h
  show DrawsPlain s s' (if c = 8 ∧ s.termCol ≤ 0 then [] else refreshStores s')
  by_cases hnl : c = 10
  · rw [if_pos hnl] at h
    obtain ⟨t, ht, h⟩ := bind_eq_ok.mp h
    have hnot : ¬ (c = 8 ∧ s.termCol ≤ 0) := fun hbs => absurd (hnl.symm.trans hbs.1) (by decide)
    rw [if_neg hnot]
    exact (scrollbackAddLine_plain ht).refresh h
  rw [if_neg hnl] at h
  by_cases hbs : c = 8
  · rw [if_pos hbs] at h
    by_cases hpos : s.termCol > 0
    · rw [if_pos hpos] at h
      obtain ⟨t, ht, h⟩ := bind_eq_ok.mp h
      have hnot : ¬ (c = 8 ∧ s.termCol ≤ 0) := fun hcol => absurd hcol.2 (not_le.mpr hpos)
      rw [if_neg hnot]
      have herase := setBuf_nul_plain ht
      have hedit : EditsPlain s t := ⟨herase.vga, fun hs => herase.plain ⟨hs.chars, hs.color⟩⟩
      exact hedit.refresh h
    · rw [if_neg hpos] at h
      obtain rfl := Except.ok.inj h
      rw [if_pos ⟨hbs, not_lt.mp hpos⟩]
      exact (Paints.refl s).drawsPlain
  · rw [if_neg hbs] at h
    obtain ⟨t, ht, h⟩ := bind_eq_ok.mp h
    have hnot : ¬ (c = 8 ∧ s.termCol ≤ 0) := fun hcol => hbs hcol.1
    rw [if_neg hnot]
    have hstore := scrollbackPutchar_plain hc ht
    simp only at h
    split_ifs at h with hfull
    · obtain ⟨u, hu, h⟩ := bind_eq_ok.mp h
      exact (hstore.trans (scrollbackAddLine_plain hu)).refresh h
    · exact hstore.refresh h

theorem termStep_drawsPlain {op : TermOp} (hop : op.IsAscii) (h : termStep s op = .ok s') :
    DrawsPlain s s' (termStores s s' op) := by
  have hscroll (offset : ℤ) : EditsPlain s { s with viewOffset := offset } :=
    ⟨rfl, fun hs => ⟨hs.chars, hs.color⟩⟩
  cases op with
  | clear => exact terminalClear_drawsPlain h
  | putchar c => exact terminalPutchar_drawsPlain hop h
  | scrollUp lines => exact (hscroll _).refresh h
  | scrollDown lines => exact (hscroll _).refresh h
  | scrollToTop => exact (hscroll _).refresh h
  | scrollToBottom => exact (hscroll _).refresh h

end Calls

/-! ## Plain stores -/

/-- The stores have characters below 0x80 and the colour 0x0F. -/
def AllPlain (stores : List VgaStore) : Prop := ∀ st ∈ stores, st.char < 0x80 ∧ st.color = vgaColorDefault

section Plain

theorem allPlain_nil : AllPlain [] := fun _ hst => absurd hst List.not_mem_nil

theorem AllPlain.append {stores stores' : List VgaStore} (h : AllPlain stores) (h' : AllPlain stores') :
    AllPlain (stores ++ stores') := by
  intro st hst
  rcases List.mem_append.mp hst with hst | hst
  · exact h st hst
  · exact h' st hst

theorem allPlain_flatMap {l : List ℕ} {stores : ℕ → List VgaStore} (h : ∀ i ∈ l, AllPlain (stores i)) :
    AllPlain (l.flatMap stores) := by
  intro st hst
  obtain ⟨i, hi, hst⟩ := List.mem_flatMap.mp hst
  exact h i hi st hst

theorem AllPlain.ite {p : Prop} [Decidable p] {stores : List VgaStore} (h : AllPlain stores) :
    AllPlain (if p then stores else []) := by
  split_ifs
  · exact h
  · exact allPlain_nil

theorem putAtStores_plain {row col : ℤ} {c : UInt8}
    (h : (0 ≤ row ∧ row < 25) ∧ 0 ≤ col ∧ col < 80 → c < 0x80) :
    AllPlain (putAtStores row col c vgaColorDefault) := by
  unfold putAtStores
  split_ifs with hon
  · intro st hst
    obtain rfl := List.mem_singleton.mp hst
    exact ⟨h ⟨⟨hon.1, hon.2.1⟩, hon.2.2⟩, rfl⟩
  · exact allPlain_nil

theorem fillRowStores_plain (row : ℤ) {c : UInt8} (hc : c < 0x80) :
    AllPlain (fillRowStores row c vgaColorDefault) := by
  intro st hst
  obtain ⟨x, -, rfl⟩ := List.mem_map.mp hst
  exact ⟨hc, rfl⟩

theorem writeAtColStores_plain {str : CString} {row col : Int32}
    (h : ∀ i : ℕ, i < str.chars.length → (0 ≤ row.toInt ∧ row.toInt < 25) ∧
      0 ≤ (col + Int32.ofNat i).toInt ∧ (col + Int32.ofNat i).toInt < 80 → str.chars.getD i 0 < 0x80) :
    AllPlain (writeAtColStores str row col vgaColorDefault) :=
  allPlain_flatMap fun i hi => putAtStores_plain (h i (List.mem_range.mp hi))

theorem getD_ascii {cs : List UInt8} (h : ∀ c ∈ cs, c < 0x80) {i : ℕ} (hi : i < cs.length) :
    cs.getD i 0 < 0x80 := by
  rw [List.getD_eq_getElem _ _ hi]
  exact h _ (List.getElem_mem hi)

/-- A string of the source. -/
theorem writeAtColStores_ascii (str : CString) (h : (str.chars.all fun c => decide (c < 0x80)) = true)
    (row col : Int32) : AllPlain (writeAtColStores str row col vgaColorDefault) := by
  have hall : ∀ c ∈ str.chars, c < 0x80 := fun c hc => of_decide_eq_true (List.all_eq_true.mp h c hc)
  exact writeAtColStores_plain fun _ hi _ => getD_ascii hall hi

theorem headerStores_plain : AllPlain headerStores := by
  have htitle := writeAtColStores_ascii (.ofString "  RTOS x86 v3.1  ") (by decide) 0 0
  have htaskA := writeAtColStores_ascii (.ofString "Task A (Producer Sent) : ") (by decide) 2 0
  have htaskB := writeAtColStores_ascii (.ofString "Task B (Consumer Recv) : ") (by decide) 3 0
  have hline (row : ℤ) := fillRowStores_plain row (c := 45) (by decide)
  exact (((((fillRowStores_plain 0 (c := 32) (by decide)).append htitle).append (hline 1)).append htaskA).append
    htaskB).append (hline 4)

theorem indicatorStores_plain (row : ℤ) {indicator : CString} (h : ∀ i < 5, indicator.chars.getD i 0 < 0x80) :
    AllPlain (indicatorStores row indicator) :=
  allPlain_flatMap fun i hi => putAtStores_plain fun _ => h i (List.mem_range.mp hi)

theorem drawLineStores_plain {s : Terminal} (hs : PlainText s) (line row : ℤ) (n : ℕ) (col : ℤ) :
    AllPlain (drawLineStores line row (s.colors line) s n col) := by
  induction n generalizing col with
  | zero => exact allPlain_nil
  | succ n ih =>
    rw [drawLineStores]
    split_ifs with h0
    · have hcolor : s.colors line = vgaColorDefault := (hs.color line).resolve_right fun hnul => h0 (hnul col)
      refine AllPlain.append ?_ (ih (col + 1))
      rw [hcolor]
      exact putAtStores_plain fun _ => hs.chars line col
    · exact allPlain_nil

theorem refreshStores_plain {s : Terminal} (hs : PlainText s) : AllPlain (refreshStores s) := by
  have hrows : AllPlain ((List.range visibleLines).flatMap (refreshRowStores s)) := by
    refine allPlain_flatMap fun row _ => ?_
    exact (fillRowStores_plain _ (by decide)).append (drawLineStores_plain hs _ _ _ _).ite
  refine AllPlain.append (AllPlain.append (hrows.append ?_) ?_) ?_
  · exact (putAtStores_plain fun _ => by decide).ite
  · exact (indicatorStores_plain _ (by decide)).ite
  · exact (indicatorStores_plain _ (by decide)).ite

theorem termStores_plain {s s' : Terminal} (hs' : PlainText s') (op : TermOp) :
    AllPlain (termStores s s' op) := by
  have hrefresh := refreshStores_plain hs'
  cases op with
  | clear => exact allPlain_flatMap fun y _ => fillRowStores_plain y (by decide)
  | putchar c =>
    show AllPlain (if c = 8 ∧ s.termCol ≤ 0 then [] else refreshStores s')
    split_ifs
    · exact allPlain_nil
    · exact hrefresh
  | scrollUp lines => exact hrefresh
  | scrollDown lines => exact hrefresh
  | scrollToTop => exact hrefresh
  | scrollToBottom => exact hrefresh

/-- A digit in the second place of a field. -/
theorem uptimeDigit_plain (n : UInt32) : (48 + n % 10).toUInt8 < 0x80 := by
  rw [UInt8.lt_iff_toNat_lt, UInt32.toNat_toUInt8, UInt32.toNat_add, UInt32.toNat_mod]
  simp only [UInt32.reduceToNat, UInt8.reduceToNat]
  omega

theorem uptimeField_plain {n : UInt32} (h : 10 ≤ n.toNat → (48 + n.toNat / 10) % 256 < 128) :
    ∀ c ∈ uptimeField n, c < 0x80 := by
  intro c hc
  unfold uptimeField at hc
  rcases List.mem_append.mp hc with hc | hc
  · split_ifs at hc with hten
    · obtain rfl := List.mem_singleton.mp hc
      have hn := n.toNat_lt
      have hfirst := h (UInt32.le_iff_toNat_le.mp hten)
      rw [UInt8.lt_iff_toNat_lt, UInt32.toNat_toUInt8, UInt32.toNat_add, UInt32.toNat_div]
      simp only [UInt32.reduceToNat, UInt8.reduceToNat]
      omega
    · exact absurd hc List.not_mem_nil
  · obtain rfl := List.mem_singleton.mp hc
    exact uptimeDigit_plain n

theorem uptimeText_plain {sec : UInt32} (h : 36000 ≤ sec.toNat → (48 + sec.toNat / 36000) % 256 < 128) :
    ∀ c ∈ uptimeText sec, c < 0x80 := by
  have hmod (n : UInt32) : ∀ c ∈ uptimeField (n % 60), c < 0x80 := by
    refine uptimeField_plain fun _ => ?_
    rw [UInt32.toNat_mod]
    simp only [UInt32.reduceToNat]
    omega
  have hhours : ∀ c ∈ uptimeField (sec / 60 / 60), c < 0x80 := by
    refine uptimeField_plain ?_
    rw [UInt32.toNat_div, UInt32.toNat_div]
    simp only [UInt32.reduceToNat]
    omega
  intro c hc
  simp only [uptimeText, List.mem_append, List.mem_singleton] at hc
  rcases hc with (((hc | hc) | rfl) | hc) | rfl
  · split_ifs at hc
    · rcases List.mem_append.mp hc with hc | hc
      · exact hhours c hc
      · rw [List.mem_singleton.mp hc]
        decide
    · exact absurd hc List.not_mem_nil
  · exact hmod _ c hc
  · decide
  · exact hmod _ c hc
  · decide

theorem uptimeStores_plain {buf : List UInt8} (h : ∀ c ∈ buf, c < 0x80) : AllPlain (uptimeStores buf) := by
  intro st hst
  obtain ⟨j, hj, rfl⟩ := List.mem_map.mp hst
  exact ⟨getD_ascii h (List.mem_range.mp hj), rfl⟩

end Plain

/-! ## Runs -/

theorem vgaEntry_attribute {c : UInt8} (hc : c < 0x80) :
    (vgaEntry c vgaColorDefault >>> 8).toUInt8 = 0x0F := by
  have hall : ∀ n : Fin 128, (vgaEntry (UInt8.ofNat n) vgaColorDefault >>> 8).toUInt8 = 0x0F := by decide
  have hlt : c.toNat < 128 := UInt8.lt_iff_toNat_lt.mp hc
  rw [← UInt8.ofNat_toNat (x := c)]
  exact hall ⟨c.toNat, hlt⟩

/-- Plain stores keep the cells monochrome. -/
theorem paint_shows {vga₀ : ℤ → UInt16} {stores : List VgaStore} (hst : AllPlain stores) {vga : ℤ → UInt16}
    {written : ℤ → Option UInt8} (h : ∀ cell, CellShows (vga₀ cell) (vga cell) (written cell)) (cell : ℤ) :
    CellShows (vga₀ cell) (paint stores vga cell) (record stores written cell) := by
  induction stores generalizing vga written with
  | nil => exact h cell
  | cons st stores ih =>
    obtain ⟨hchar, hcolor⟩ := hst st List.mem_cons_self
    refine ih (fun st' hst' => hst st' (List.mem_cons_of_mem _ hst')) fun cell' => ?_
    show CellShows _ (Function.update vga st.cell (vgaEntry st.char st.color) cell')
      (Function.update written st.cell (some st.char) cell')
    by_cases he : cell' = st.cell
    · rw [he, Function.update_self, Function.update_self, hcolor]
      exact ⟨vgaEntry_attribute hchar, vgaEntry_char st.char vgaColorDefault⟩
    · rw [Function.update_of_ne he, Function.update_of_ne he]
      exact h cell'

/-- The invariant of the runs with plain characters. -/
structure ScreenInv (vga₀ : ℤ → UInt16) (s : Screen) : Prop where
  plain : PlainText s.term
  shows : Monochrome vga₀ s

theorem bootScreen_inv (vga : ℤ → UInt16) : ScreenInv vga (bootScreen vga) where
  plain := ⟨fun _ _ => show (0 : UInt8) < 0x80 by decide, fun _ => Or.inr fun _ => rfl⟩
  shows _ := rfl

/-- A drawing call that is not one of the terminal. -/
theorem ScreenInv.paints {vga₀ : ℤ → UInt16} {s s' : Screen} {stores : List VgaStore} (h : ScreenInv vga₀ s)
    (hp : Paints s.term s'.term stores) (hst : AllPlain stores) (hw : s'.written = record stores s.written) :
    ScreenInv vga₀ s' := by
  refine ⟨hp.drawn.plain h.plain, ?_⟩
  unfold Monochrome
  rw [hp.vga, hw]
  exact paint_shows hst h.shows

theorem screenStep_inv {vga₀ : ℤ → UInt16} {s s' : Screen} {op : ScreenOp} (h : ScreenInv vga₀ s)
    (hop : op.IsAscii s) (he : screenStep s op = .ok s') : ScreenInv vga₀ s' := by
  cases op with
  | term op =>
    obtain ⟨t, ht, he⟩ := bind_eq_ok.mp he
    obtain rfl := Except.ok.inj he
    have hd := termStep_drawsPlain hop ht
    have hplain := hd.plain h.plain
    refine ⟨hplain, ?_⟩
    unfold Monochrome
    rw [hd.vga]
    exact paint_shows (termStores_plain hplain op) h.shows
  | drawHeader =>
    obtain rfl := Except.ok.inj he
    refine h.paints (drawHeader_paints s.term) headerStores_plain ?_
    dsimp only
  | writeAt str row col =>
    obtain rfl := Except.ok.inj he
    exact h.paints (terminalWriteAtCol_paints str row col vgaColorDefault s.term)
      (writeAtColStores_plain hop) rfl
  | uptimeDisplayCb sec =>
    obtain rfl := Except.ok.inj he
    unfold uptimeDisplayCb
    split_ifs with hsame
    · exact h
    · exact h.paints (drawUptime_paints _ s.term) (uptimeStores_plain (uptimeText_plain (hop hsame))) rfl

/-- **In every run of drawing calls whose characters are all below 0x80, every cell that was written has the
attribute 0x0F and the character that was written, in every state reached.** -/
theorem screen_stays_monochrome (vga : ℤ → UInt16) {ops : List ScreenOp}
    (hops : AllSteps screenStep (bootScreen vga) (fun s op => op.IsAscii s) ops) :
    Whenever screenStep (bootScreen vga) (Monochrome vga) ops := by
  intro pre hpre s hr
  have hpre' : AllReturned screenStep (bootScreen vga) (fun s op => op.IsAscii s) pre :=
    allReturned_of_allSteps fun pre' op h' => hops pre' op (h'.trans hpre)
  exact (run_of_allReturned (bootScreen_inv vga) (fun _ _ _ h hop he => screenStep_inv h hop he) hpre' hr).shows

theorem screen_stays_monochrome_header :
    ∃ s, run screenStep (bootScreen fun _ => 0) [.term (.putchar 65), .drawHeader, .uptimeDisplayCb 61] = .ok s ∧
      Monochrome (fun _ => 0) s := by
  have hforward : TermOp.Forward (.putchar 65) := trivial
  obtain ⟨t, ht, -⟩ := termStep_inv (bootTerminal_inv fun _ => 0) hforward
  have hput : screenStep (bootScreen fun _ => 0) (.term (.putchar 65)) =
      .ok ⟨t, 0, record (termStores (bootTerminal fun _ => 0) t (.putchar 65)) fun _ => none⟩ := by
    show (termStep (bootTerminal fun _ => 0) (.putchar 65) >>= _) = _
    rw [ht]
    rfl
  have hops : AllSteps screenStep (bootScreen fun _ => 0) (fun s op => op.IsAscii s)
      [.term (.putchar 65), .drawHeader, .uptimeDisplayCb 61] := by
    refine allSteps_cons.mpr ⟨show (65 : UInt8) < 0x80 by decide, fun s₁ _ => ?_⟩
    refine allSteps_cons.mpr ⟨trivial, fun s₂ _ => allSteps_cons.mpr ⟨?_, fun _ _ => allSteps_nil⟩⟩
    exact fun _ hten => absurd hten (by decide)
  have hr : ∃ s, run screenStep (bootScreen fun _ => 0)
      [.term (.putchar 65), .drawHeader, .uptimeDisplayCb 61] = .ok s := by
    rw [run, hput]
    exact ⟨_, rfl⟩
  obtain ⟨s, hs⟩ := hr
  exact ⟨s, hs, screen_stays_monochrome (fun _ => 0) hops _ List.prefix_rfl s hs⟩

/-- The first byte of a UTF-8 "é" at the top left: the attribute becomes 0xFF. -/
theorem write_at_loses_attribute :
    ∃ s, run screenStep (bootScreen fun _ => 0) [.writeAt ⟨[0xC3], by decide⟩ 0 0] = .ok s ∧
      ¬ Monochrome (fun _ => 0) s := by
  refine ⟨_, rfl, fun h => ?_⟩
  have hattr := (h 0).1
  exact absurd hattr (by decide)

end RtosKernel
