import RtosKernel.Proofs.ShellProofs

/-!
# Proofs: the input line on the screen

From the prompt on, the lines of the terminal hold the prompt and the input line, eighty characters in each
(`RowsHold`). Typing keeps this. A backspace of the terminal works within a line only: it cannot take the last
character back over the break after the seventy-fourth one.
-/

namespace RtosKernel

open Lib

/-! ## Text in the lines of the terminal -/

/-- The lines from `m` on hold the text, eighty characters in each, and the next one goes behind it. -/
structure RowsHold (t : Terminal) (m : ℤ) (w : List UInt8) : Prop where
  start : 0 ≤ m ∧ m < 200
  few : w.length < 80 * 199
  no_nul : 0 ∉ w
  head_eq : t.head = (m + (w.length / 80 : ℕ)) % 200
  col_eq : t.termCol = (w.length % 80 : ℕ)
  rows : ∀ k j : ℕ, k ≤ w.length / 80 → j < 80 → t.buffer ((m + k) % 200) j = w.getD (80 * k + j) 0

section Rows

variable {t t' : Terminal} {m : ℤ} {w : List UInt8} {c : UInt8}

theorem Drawn.sameLines (h : Drawn t t') : SameLines t t' := ⟨h.buffer, h.head, h.termCol⟩

theorem RowsHold.of_same (h : RowsHold t m w) (hs : SameLines t t') : RowsHold t' m w where
  start := h.start
  few := h.few
  no_nul := h.no_nul
  head_eq := by rw [hs.head, h.head_eq]
  col_eq := by rw [hs.termCol, h.col_eq]
  rows := by rw [hs.buffer]; exact h.rows

theorem getD_concat (w : List UInt8) (c : UInt8) (i : ℕ) :
    (w ++ [c]).getD i 0 = if i = w.length then c else w.getD i 0 := by
  split_ifs with he
  · rw [he, List.getD_append_right _ _ _ _ le_rfl, Nat.sub_self]
    rfl
  · rcases Nat.lt_or_gt_of_ne he with hlt | hgt
    · rw [List.getD_append _ _ _ _ hlt]
    · rw [List.getD_eq_default _ _ hgt.le, List.getD_eq_default _ _ (by simp; omega)]

theorem getD_dropLast (w : List UInt8) (i : ℕ) :
    w.dropLast.getD i 0 = if i + 1 = w.length then 0 else w.getD i 0 := by
  split_ifs with he
  · exact List.getD_eq_default _ _ (by rw [List.length_dropLast]; omega)
  · by_cases hlt : i < w.length
    · rw [List.getD_eq_getElem _ _ hlt, List.getD_eq_getElem _ _ (by rw [List.length_dropLast]; omega),
        List.getElem_dropLast]
    · have hge : w.length ≤ i := not_lt.mp hlt
      rw [List.getD_eq_default w 0 hge, List.getD_eq_default _ _ (by rw [List.length_dropLast]; omega)]

/-- A new line is empty. -/
theorem addedLine_new (s : Terminal) {j : ℤ} (hj : 0 ≤ j ∧ j ≤ 80) :
    (addedLine s).buffer ((s.head + 1) % 200) j = 0 := by
  simp only [addedLine, Function.update_self]
  exact if_pos hj

/-- The other lines stay as they are, but for the NUL at the end. -/
theorem addedLine_old (s : Terminal) {i j : ℤ} (hi : i ≠ (s.head + 1) % 200) (hj : j ≠ s.termCol) :
    (addedLine s).buffer i j = s.buffer i j := by
  simp only [addedLine, Function.update_of_ne hi]
  by_cases hhead : i = s.head
  · rw [hhead, Function.update_self, Function.update_of_ne hj]
  · rw [Function.update_of_ne hhead]

/-- A character is stored in the current line. -/
theorem RowsHold.stored (h : RowsHold t m w) (c : UInt8) {k j : ℕ} (hk : k ≤ w.length / 80) (hj : j < 80) :
    (storedChar c t).buffer ((m + k) % 200) j = (w ++ [c]).getD (80 * k + j) 0 := by
  have hm := h.start
  have hfew := h.few
  have hhead := h.head_eq
  have hcol := h.col_eq
  rw [getD_concat]
  simp only [storedChar]
  by_cases hlast : k = w.length / 80
  · have hrow : (m + k) % 200 = t.head := by rw [hlast, hhead]
    rw [hrow, Function.update_self]
    by_cases hpos : j = w.length % 80
    · have hidx : 80 * k + j = w.length := by omega
      have hj' : (j : ℤ) = t.termCol := by rw [hcol, hpos]
      rw [if_pos hidx, hj', Function.update_self]
    · have hidx : 80 * k + j ≠ w.length := by omega
      have hj' : (j : ℤ) ≠ t.termCol := by omega
      rw [if_neg hidx, Function.update_of_ne hj', ← hrow, h.rows k j hk hj]
  · have hrow : (m + k) % 200 ≠ t.head := by omega
    have hidx : 80 * k + j ≠ w.length := by omega
    rw [Function.update_of_ne hrow, if_neg hidx, h.rows k j hk hj]

/-- A plain character goes behind the text, and the line breaks after its eightieth character. -/
theorem RowsHold.put (h : RowsHold t m w) (hc : IsPlain c) (hfew : w.length + 1 < 80 * 199) :
    RowsHold (putEffect c t) m (w ++ [c]) := by
  have hm := h.start
  have hhead := h.head_eq
  have hcol := h.col_eq
  have hlen : (w ++ [c]).length = w.length + 1 := by rw [List.length_append, List.length_singleton]
  have hnul : 0 ∉ w ++ [c] := by
    rw [List.mem_append, List.mem_singleton, not_or]
    exact ⟨h.no_nul, hc.1.symm⟩
  unfold putEffect
  rw [if_neg hc.2.2, if_neg hc.2.1]
  by_cases hroom : t.termCol + 1 < 80
  · rw [if_pos hroom]
    refine ⟨hm, by rw [hlen]; exact hfew, hnul, ?_, ?_, fun k j hk hj => ?_⟩
    · show t.head = _
      rw [hhead, hlen]
      omega
    · show t.termCol + 1 = _
      rw [hcol, hlen]
      omega
    · rw [hlen] at hk
      exact h.stored c (by omega) hj
  · rw [if_neg hroom]
    have hbreak : (w.length + 1) / 80 = w.length / 80 + 1 := by omega
    refine ⟨hm, by rw [hlen]; exact hfew, hnul, ?_, ?_, fun k j hk hj => ?_⟩
    · show (t.head + 1) % 200 = _
      rw [hhead, hlen]
      omega
    · show 0 = _
      rw [hlen]
      omega
    · rw [hlen, hbreak] at hk
      have hnext : (storedChar c t).head = t.head := rfl
      have hend : (storedChar c t).termCol = t.termCol + 1 := rfl
      by_cases hnew : k = w.length / 80 + 1
      · have hrow : (m + k) % 200 = ((storedChar c t).head + 1) % 200 := by omega
        rw [hrow, addedLine_new _ (by omega), List.getD_eq_default _ _ (by rw [hlen]; omega)]
      · have hrow : (m + k) % 200 ≠ ((storedChar c t).head + 1) % 200 := by omega
        have hj' : (j : ℤ) ≠ (storedChar c t).termCol := by omega
        rw [addedLine_old _ hrow hj']
        exact h.stored c (by omega) hj

/-- A backspace takes the last character of the line back. -/
theorem RowsHold.erase (h : RowsHold t m w) (hcol : w.length % 80 ≠ 0) :
    RowsHold (putEffect 8 t) m w.dropLast := by
  have hm := h.start
  have hfew := h.few
  have hhead := h.head_eq
  have hcol' := h.col_eq
  have hlen : w.dropLast.length = w.length - 1 := List.length_dropLast
  have hpos : 0 < t.termCol := by omega
  have heffect : putEffect 8 t = erasedChar t := by
    rw [putEffect, if_neg (by decide), if_pos rfl, if_pos hpos]
  rw [heffect]
  refine ⟨hm, by rw [hlen]; omega, fun hmem => h.no_nul (List.mem_of_mem_dropLast hmem), ?_, ?_,
    fun k j hk hj => ?_⟩
  · show t.head = _
    rw [hhead, hlen]
    omega
  · show t.termCol - 1 = _
    rw [hcol', hlen]
    omega
  · rw [hlen] at hk
    have hk' : k ≤ w.length / 80 := by omega
    rw [getD_dropLast]
    simp only [erasedChar]
    by_cases hlast : k = w.length / 80
    · have hrow : (m + k) % 200 = t.head := by rw [hlast, hhead]
      rw [hrow, Function.update_self]
      by_cases hj' : (j : ℤ) = t.termCol - 1
      · have hidx : 80 * k + j + 1 = w.length := by omega
        rw [hj', Function.update_self, if_pos hidx]
      · have hidx : 80 * k + j + 1 ≠ w.length := by omega
        rw [Function.update_of_ne hj', if_neg hidx, ← hrow, h.rows k j hk' hj]
    · have hrow : (m + k) % 200 ≠ t.head := by omega
      have hidx : 80 * k + j + 1 ≠ w.length := by omega
      rw [Function.update_of_ne hrow, if_neg hidx, h.rows k j hk' hj]

/-- At the start of a line a backspace does nothing. -/
theorem RowsHold.erase_none (h : RowsHold t m w) (hcol : w.length % 80 = 0) : putEffect 8 t = t := by
  have hzero : ¬ 0 < t.termCol := by
    rw [h.col_eq, hcol]
    decide
  rw [putEffect, if_neg (by decide), if_pos rfl, if_neg hzero]

/-- Plain characters go behind the text. -/
theorem RowsHold.puts {cs : List UInt8} (h : RowsHold t m w) (hinv : TermInv t) (hcs : ∀ c ∈ cs, IsPlain c)
    (hfew : w.length + cs.length < 80 * 199) (he : terminalPuts cs t = .ok t') : RowsHold t' m (w ++ cs) := by
  induction cs generalizing t w with
  | nil =>
    obtain rfl := Except.ok.inj he
    rwa [List.append_nil]
  | cons c cs ih =>
    rw [List.length_cons] at hfew
    obtain ⟨hc, hcs⟩ := List.forall_mem_cons.mp hcs
    obtain ⟨u, hu, hd, -⟩ := terminalPutchar_spec hinv c
    rw [terminalPuts, List.foldlM_cons, hu, ok_bind] at he
    have hput := (h.put hc (by omega)).of_same hd.sameLines
    have hlen : (w ++ [c]).length = w.length + 1 := by rw [List.length_append, List.length_singleton]
    have hrest := ih hput (hd.termInv (putEffect_inv hinv c)) hcs (by rw [hlen]; omega) he
    rwa [List.append_assoc] at hrest

/-- Backspaces take characters back as far as the start of the line. -/
theorem RowsHold.backspaces {n : ℕ} (h : RowsHold t m w) (hinv : TermInv t)
    (he : terminalPuts (List.replicate n 8) t = .ok t') :
    RowsHold t' m (w.take (w.length - min n (w.length % 80))) := by
  induction n generalizing t w with
  | zero =>
    obtain rfl := Except.ok.inj he
    rwa [Nat.zero_min, Nat.sub_zero, List.take_length]
  | succ n ih =>
    obtain ⟨u, hu, hd, -⟩ := terminalPutchar_spec hinv 8
    have hinv' := hd.termInv (putEffect_inv hinv 8)
    rw [List.replicate_succ, terminalPuts, List.foldlM_cons, hu, ok_bind] at he
    by_cases hcol : w.length % 80 = 0
    · rw [h.erase_none hcol] at hd
      have hrest := ih (h.of_same hd.sameLines) hinv' he
      rwa [hcol, Nat.min_zero] at hrest ⊢
    · have hrest := ih ((h.erase hcol).of_same hd.sameLines) hinv' he
      have hlen : w.dropLast.length = w.length - 1 := List.length_dropLast
      have htake : w.dropLast.take (w.dropLast.length - min n (w.dropLast.length % 80)) =
          w.take (w.length - min (n + 1) (w.length % 80)) := by
        rw [hlen, List.dropLast_eq_take, List.take_take]
        congr 1
        omega
      rwa [htake] at hrest

/-! ## The text that is read back -/

/-- One line holds its eighty characters of the text. -/
theorem RowsHold.row (h : RowsHold t m w) (hinv : TermInv t) {k : ℕ} (hk : k ≤ w.length / 80) :
    readString vgaWidth (fun j => t.buffer ((m + k) % 200) j) = (w.drop (80 * k)).take 80 := by
  have hm := h.start
  have hget (i : ℕ) (hi : i < 80) : ((w.drop (80 * k)).take 80).getD i 0 = w.getD (80 * k + i) 0 := by
    rw [List.getD_eq_getElem?_getD, List.getElem?_take_of_lt hi, List.getElem?_drop,
      ← List.getD_eq_getElem?_getD]
  have hlen : ((w.drop (80 * k)).take 80).length ≤ 80 := by
    rw [List.length_take]
    omega
  refine HoldsString.read (fun i hi => ?_) ?_ hlen
  · by_cases hi' : i < 80
    · rw [hget i hi', h.rows k i hk hi']
    · have hend : i = 80 := by omega
      rw [List.getD_eq_default _ _ (by omega), hend]
      exact hinv.ended _ (by omega)
  · exact fun hmem => h.no_nul (List.mem_of_mem_drop (List.mem_of_mem_take hmem))

theorem flatMap_rows (w : List UInt8) (n : ℕ) :
    (List.range n).flatMap (fun k => (w.drop (80 * k)).take 80) = w.take (80 * n) := by
  induction n with
  | zero => rfl
  | succ n ih =>
    have hsplit : 80 * (n + 1) = 80 * n + 80 := by omega
    rw [List.range_succ, List.flatMap_append, ih, List.flatMap_singleton, hsplit, List.take_add]

/-- The text from the first line on, without its first characters. -/
theorem RowsHold.textSince_eq (h : RowsHold t m w) (hinv : TermInv t) (col : ℤ) :
    textSince (m, col) t = w.drop col.toNat := by
  have hm := h.start
  have hfew := h.few
  have hhead := h.head_eq
  have hn : ((t.head - m) % (scrollbackLines : ℤ)).toNat = w.length / 80 := by
    show ((t.head - m) % 200).toNat = w.length / 80
    omega
  have hrows : (List.range (w.length / 80 + 1)).flatMap
      (fun k : ℕ => readString vgaWidth fun j => t.buffer ((m + k) % (scrollbackLines : ℤ)) j) = w := by
    have heq : ∀ k ∈ List.range (w.length / 80 + 1),
        readString vgaWidth (fun j => t.buffer ((m + (k : ℕ)) % (scrollbackLines : ℤ)) j) =
          (w.drop (80 * k)).take 80 :=
      fun k hk => h.row hinv (Nat.le_of_lt_succ (List.mem_range.mp hk))
    rw [List.flatMap_congr heq, flatMap_rows, List.take_of_length_le (by omega)]
  simp only [textSince, hn, hrows]

end Rows

/-! ## The prompt -/

/-- The characters of the prompt, after its newline. -/
def promptText : List UInt8 := [82, 84, 79, 83, 62, 32]

section Prompt

variable {ω : Type} {s s' u : ShellSys ω}

/-- After a newline the current line is empty. -/
theorem addedLine_rows (t : Terminal) : RowsHold (addedLine t) ((t.head + 1) % 200) [] where
  start := by omega
  few := by decide
  no_nul := List.not_mem_nil
  head_eq := by
    show (t.head + 1) % 200 = _
    rw [List.length_nil]
    omega
  col_eq := rfl
  rows := by
    intro k j hk hj
    obtain rfl : k = 0 := by simpa using hk
    have hrow : ((t.head + 1) % 200 + ((0 : ℕ) : ℤ)) % 200 = (t.head + 1) % 200 := by omega
    rw [hrow, addedLine_new t (by omega), List.getD_nil]

theorem printPrompt_rows (h : ShellGood u) (he : printPrompt u = .ok s) :
    RowsHold s.term s.promptAt.1 promptText ∧ s.promptAt.2 = 6 ∧ ShellGood s ∧ s.shell = u.shell := by
  obtain ⟨t, ht, hinv, he'⟩ := printPrompt_ok h.term
  rw [he] at he'
  obtain rfl := Except.ok.inj he'
  have hchars : (CString.ofString "\nRTOS> ").chars = 10 :: promptText := by decide
  rw [hchars, terminalPuts, List.foldlM_cons] at ht
  obtain ⟨t₁, h₁, hd, -⟩ := terminalPutchar_spec h.term 10
  have heffect : putEffect 10 u.term = addedLine u.term := if_pos rfl
  rw [h₁, ok_bind] at ht
  have hrange := h.term.head_range
  have hnew := (addedLine_rows u.term).of_same (heffect ▸ hd).sameLines
  have hinv₁ := hd.termInv (putEffect_inv h.term 10)
  have hplain : ∀ c ∈ promptText, IsPlain c := by simp [IsPlain, promptText]
  have hrows := hnew.puts hinv₁ hplain (by decide) ht
  rw [List.nil_append] at hrows
  have hhead : t.head = (u.term.head + 1) % 200 := by
    have hlen : promptText.length / 80 = 0 := rfl
    rw [hrows.head_eq, hlen]
    omega
  have hcol : t.termCol = 6 := hrows.col_eq
  refine ⟨?_, hcol, ⟨h.shell, hinv⟩, rfl⟩
  rw [← hhead] at hrows
  exact hrows

theorem textSince_prompt {w : List UInt8} (h : RowsHold s.term s.promptAt.1 w) (hinv : TermInv s.term)
    (hcol : s.promptAt.2 = 6) : textSince s.promptAt s.term = w.drop 6 := by
  have hplace : s.promptAt = (s.promptAt.1, 6) := Prod.ext rfl hcol
  rw [hplace]
  exact h.textSince_eq hinv 6

end Prompt

/-! ## One key -/

/-- The lines from the prompt on hold the prompt and the input line. -/
structure Agrees {ω : Type} (s : ShellSys ω) : Prop where
  good : ShellGood s
  rows : RowsHold s.term s.promptAt.1 (promptText ++ inputLine s.shell)
  col : s.promptAt.2 = 6

section Keys

variable {ω : Type} {s s' u : ShellSys ω} {cmds : Commands ω}

theorem promptLine_length (line : List UInt8) : (promptText ++ line).length = 6 + line.length := by
  rw [List.length_append]
  rfl

theorem Agrees.screenAgrees (h : Agrees s) : ScreenAgrees s := by
  unfold ScreenAgrees
  rw [textSince_prompt h.rows h.good.term h.col]
  rfl

/-- After a prompt with an empty line. -/
theorem agrees_of_prompt (h : ShellGood u) (he : printPrompt u = .ok s) (hline : inputLine u.shell = []) :
    Agrees s := by
  obtain ⟨hrows, hcol, hgood, hsh⟩ := printPrompt_rows h he
  refine ⟨hgood, ?_, hcol⟩
  rw [hsh, hline, List.append_nil]
  exact hrows

/-- After a prompt the text is empty, and so has to be the line. -/
theorem screenAgrees_of_prompt (h : ShellGood u) (he : printPrompt u = .ok s) (hs : ScreenAgrees s) :
    inputLine u.shell = [] := by
  obtain ⟨hrows, hcol, hgood, hsh⟩ := printPrompt_rows h he
  unfold ScreenAgrees at hs
  rw [textSince_prompt hrows hgood.term hcol, hsh] at hs
  exact hs.symm

/-- The echo of a key, unless it is a backspace at the break. -/
theorem echo_rows {t t' : Terminal} {m : ℤ} {line : List UInt8} (h : RowsHold t m (promptText ++ line))
    (hinv : TermInv t) (hlen : line.length ≤ 127) {c : UInt8} (h0 : c ≠ 0) (hnl : c ≠ 10)
    (hbs : c = 8 → line.length ≠ 74) (he : terminalPuts (keyEcho line c) t = .ok t') :
    RowsHold t' m (promptText ++ typeKey line c) := by
  unfold keyEcho at he
  unfold typeKey
  rw [if_neg hnl]
  by_cases hback : c = 8
  · rw [if_pos hback] at he ⊢
    by_cases hnil : line = []
    · rw [if_pos hnil] at he
      obtain rfl := Except.ok.inj he
      rwa [hnil] at h ⊢
    · rw [if_neg hnil] at he
      have hpos := List.length_pos_of_ne_nil hnil
      have hne := hbs hback
      have hrest := h.backspaces (n := 1) hinv he
      have hone : (promptText ++ line).length - min 1 ((promptText ++ line).length % 80) =
          (promptText ++ line).length - 1 := by
        rw [promptLine_length]
        omega
      rw [hone, ← List.dropLast_eq_take, List.dropLast_append_of_ne_nil hnil] at hrest
      exact hrest
  · rw [if_neg hback] at he ⊢
    split_ifs at he ⊢ with hroom
    · have hplain : ∀ c' ∈ [c], IsPlain c' := by
        intro c' hc'
        rw [List.mem_singleton.mp hc']
        exact ⟨h0, hback, hnl⟩
      have hput := h.puts hinv hplain (by rw [promptLine_length, List.length_singleton]; omega) he
      rwa [List.append_assoc] at hput
    · obtain rfl := Except.ok.inj he
      exact h

/-- A backspace at the break erases nothing. -/
theorem echo_rows_break {t t' : Terminal} {m : ℤ} {line : List UInt8} (h : RowsHold t m (promptText ++ line))
    (hinv : TermInv t) (hlen : line.length = 74) (he : terminalPuts (keyEcho line 8) t = .ok t') :
    RowsHold t' m (promptText ++ line) := by
  have hne : line ≠ [] := fun hnil => by rw [hnil] at hlen; exact absurd hlen (by decide)
  have hecho : keyEcho line 8 = List.replicate 1 8 := by
    rw [keyEcho, if_pos rfl, if_neg hne]
    rfl
  rw [hecho] at he
  have hrest := h.backspaces hinv he
  have hzero : (promptText ++ line).length % 80 = 0 := by rw [promptLine_length, hlen]
  rwa [hzero, Nat.min_zero, Nat.sub_zero, List.take_length] at hrest

/-- What a history move leaves of the old line, and the new one behind it. -/
theorem redraw_rows (h : Agrees s) {sh : Shell} (hsh : ShellInv sh) {t : Terminal}
    (he : terminalPuts (List.replicate s.shell.bufIdx 8 ++ inputLine sh) s.term = .ok t) :
    TermInv t ∧ ∃ kept, RowsHold t s.promptAt.1 (kept ++ inputLine sh) ∧
      (s.shell.bufIdx < 74 → kept = promptText) ∧ (74 ≤ s.shell.bufIdx → kept.length = 80) := by
  have hlen := ShellInv.length_eq s.shell
  have hidx := h.good.shell.idx_le
  have hidx' := hsh.idx_le
  obtain ⟨t₁, ht₁, hinv₁⟩ := terminalPuts_inv h.good.term (List.replicate s.shell.bufIdx 8)
  have hcleared := h.rows.backspaces h.good.term ht₁
  rw [terminalPuts_append ht₁] at he
  rw [promptLine_length, hlen] at hcleared
  refine ⟨terminalPuts_keeps hinv₁ he, _, hcleared.puts hinv₁ hsh.line.line_plain ?_ he, fun hlt => ?_,
    fun hge => ?_⟩
  · rw [List.length_take, promptLine_length, hlen, ShellInv.length_eq sh]
    omega
  · have hsix : 6 + s.shell.bufIdx - min s.shell.bufIdx ((6 + s.shell.bufIdx) % 80) = 6 := by omega
    rw [hsix]
    rfl
  · rw [List.length_take, promptLine_length, hlen]
    omega

/-- A history move keeps the screen exactly when the line ends before the break. -/
theorem redraws_agrees (h : Agrees s) {r : Except ShellStop (ShellSys ω)} (hr : RedrawsLine s r)
    (he : r = .ok s') : (s.shell.bufIdx < 74 → Agrees s') ∧ (ScreenAgrees s' → s.shell.bufIdx < 74) := by
  obtain ⟨sh, t, hr, hsh, hputs⟩ := hr
  rw [hr] at he
  obtain rfl := Except.ok.inj he
  obtain ⟨hinv, kept, hrows, hshort, hlong⟩ := redraw_rows h hsh hputs
  constructor
  · intro hlt
    rw [hshort hlt] at hrows
    exact ⟨⟨hsh, hinv⟩, hrows, h.col⟩
  · intro hagrees
    by_contra hge
    have hkept := hlong (not_lt.mp hge)
    have htext : textSince s.promptAt t = (kept ++ inputLine sh).drop 6 :=
      textSince_prompt (s := { s with shell := sh, term := t }) hrows hinv h.col
    have hlen : ((kept ++ inputLine sh).drop 6).length = (inputLine sh).length :=
      congrArg List.length (htext.symm.trans hagrees)
    rw [List.length_drop, List.length_append, hkept] at hlen
    omega

theorem TermOp.Scrolls.forward {op : TermOp} (h : op.Scrolls) : op.Forward := by
  cases op with
  | clear => trivial
  | putchar c => trivial
  | scrollUp lines => exact h
  | scrollDown lines => exact h
  | scrollToTop => trivial
  | scrollToBottom => trivial

/-- A scroll leaves the lines as they are. -/
theorem scroll_agrees (h : Agrees s) {op : TermOp} (hop : op.Scrolls) {t : Terminal}
    (he : termStep s.term op = .ok t) : Agrees { s with term := t } := by
  have hforward := hop.forward
  have hsame : SameLines s.term (termEffect s.term op) := by
    cases op with
    | clear => exact absurd hop id
    | putchar c => exact absurd hop id
    | scrollUp lines => exact ⟨rfl, rfl, rfl⟩
    | scrollDown lines => exact ⟨rfl, rfl, rfl⟩
    | scrollToTop => exact ⟨rfl, rfl, rfl⟩
    | scrollToBottom => exact ⟨rfl, rfl, rfl⟩
  obtain ⟨t', ht', hd, -⟩ := termStep_spec h.good.term hforward
  obtain rfl : t' = t := by rw [ht'] at he; exact Except.ok.inj he
  have hinv := hd.termInv (termEffect_inv h.good.term hforward)
  exact ⟨⟨h.good.shell, hinv⟩, (h.rows.of_same hsame).of_same hd.sameLines, h.col⟩

/-- A key other than the newline keeps the screen exactly when it is no backspace at the break. -/
theorem edit_agrees (h : Agrees s) {c : UInt8} (h0 : c ≠ 0) (hnl : c ≠ 10)
    (he : shellHandleKey cmds c s = .ok s') :
    ((c = 8 → s.shell.bufIdx ≠ 74) → Agrees s') ∧ (ScreenAgrees s' → c = 8 → s.shell.bufIdx ≠ 74) := by
  have hlen := ShellInv.length_eq s.shell
  have hidx := h.good.shell.idx_le
  obtain ⟨t, sh, t', hsame, hinv, hsh, he', hline, hputs⟩ := handleKey_edit h.good cmds h0 hnl
  rw [he'] at he
  obtain rfl := Except.ok.inj he
  have hinv' := terminalPuts_keeps hinv hputs
  have hrows := h.rows.of_same hsame
  constructor
  · intro hbs
    have hecho := echo_rows hrows hinv (by omega) h0 hnl (by rw [hlen]; exact hbs) hputs
    rw [← hline] at hecho
    exact ⟨⟨hsh, hinv'⟩, hecho, h.col⟩
  · rintro hagrees rfl hbreak
    have hecho := echo_rows_break hrows hinv (by omega) hputs
    have htext : textSince s.promptAt t' = inputLine s.shell :=
      textSince_prompt (s := { s with shell := sh, term := t' }) hecho hinv' h.col
    have hsame' : inputLine s.shell = inputLine sh := htext.symm.trans hagrees
    have hshort : (typeKey (inputLine s.shell) 8).length = (inputLine s.shell).length - 1 :=
      List.length_dropLast
    rw [← hline, ← hsame', hlen] at hshort
    omega

/-- A newline keeps the screen exactly when the line is not one of blanks. -/
theorem newline_agrees (h : Agrees s) (he : shellHandleKey cmds 10 s = .ok s') :
    (¬ IsBlank (inputLine s.shell) → Agrees s') ∧ (ScreenAgrees s' → ¬ IsBlank (inputLine s.shell)) := by
  constructor
  · intro hblank
    obtain ⟨u, hgood, hu, hline⟩ := handleKey_newline h.good hblank he
    exact agrees_of_prompt hgood hu hline
  · intro hagrees hblank
    obtain ⟨u, s'', hgood, hu, he', -, hline⟩ := handleKey_blank h.good cmds hblank
    obtain rfl : s'' = s' := by rw [he'] at he; exact Except.ok.inj he
    rw [← hline] at hblank
    exact hblank.1 (screenAgrees_of_prompt hgood hu hagrees)

/-- Every step keeps the screen exactly under `KeepsScreen`. -/
theorem shellStep_agrees (h : Agrees s) {op : ShellOp} (he : shellStep cmds s op = .ok s') :
    (KeepsScreen s op → Agrees s') ∧ (ScreenAgrees s' → KeepsScreen s op) := by
  cases op with
  | key k =>
    have hkey : shellHandleKey cmds k.code s = .ok s' := he
    by_cases hnl : k.code = 10
    · rw [hnl] at hkey
      obtain ⟨hkeep, hback⟩ := newline_agrees h hkey
      refine ⟨fun hc => hkeep (hc.1 hnl), fun hagrees => ⟨fun _ => hback hagrees, fun hbs => ?_⟩⟩
      exact absurd (hnl.symm.trans hbs) (by decide)
    · obtain ⟨hkeep, hback⟩ := edit_agrees h k.code_ne hnl hkey
      exact ⟨fun hc => hkeep hc.2, fun hagrees => ⟨fun hnl' => absurd hnl' hnl, hback hagrees⟩⟩
  | historyUp =>
    have hup : shellHistoryUp s = .ok s' := he
    have hmove := shellHistoryUp_ok h.good
    split_ifs at hmove with hacts
    · obtain ⟨hkeep, hback⟩ := redraws_agrees h hmove hup
      exact ⟨fun hc => hkeep (hc hacts.1 hacts.2), fun hagrees _ _ => hback hagrees⟩
    · rw [hmove] at hup
      obtain rfl := Except.ok.inj hup
      exact ⟨fun _ => h, fun _ hcount hindex => absurd ⟨hcount, hindex⟩ hacts⟩
  | historyDown =>
    have hdown : shellHistoryDown s = .ok s' := he
    have hmove := shellHistoryDown_ok h.good
    split_ifs at hmove with hacts
    · obtain ⟨hkeep, hback⟩ := redraws_agrees h hmove hdown
      exact ⟨fun hc => hkeep (hc hacts), fun hagrees _ => hback hagrees⟩
    · rw [hmove] at hdown
      obtain rfl := Except.ok.inj hdown
      exact ⟨fun _ => h, fun _ hindex => absurd hindex hacts⟩
  | scroll op scrolls =>
    have hscroll : ((termStep s.term op).mapError ShellStop.terminal >>= fun t =>
        pure { s with term := t }) = .ok s' := he
    refine ⟨fun _ => ?_, fun _ => trivial⟩
    cases ht : termStep s.term op with
    | error e =>
      rw [ht] at hscroll
      exact absurd hscroll (by simp [Except.mapError])
    | ok t =>
      rw [ht] at hscroll
      obtain rfl := Except.ok.inj hscroll
      exact scroll_agrees h scrolls ht

end Keys

/-! ## Runs -/

section Runs

variable {ω : Type} {s₀ : ShellSys ω}

theorem afterInit_agrees (h : AfterInit s₀) : Agrees s₀ := by
  obtain ⟨u, hgood, hu, hline⟩ := afterInit_prompt h
  exact agrees_of_prompt hgood hu hline

/-- **In every run of keys, history moves and scrolls after `init_shell`, the text after the last prompt is
the input line in every state that is reached, exactly when no step is one that the terminal cannot
follow.** -/
theorem screen_agrees_iff (cmds : Commands ω) (h₀ : AfterInit s₀) (ops : List ShellOp) :
    Whenever (shellStep cmds) s₀ ScreenAgrees ops ↔ AllReturned (shellStep cmds) s₀ KeepsScreen ops := by
  refine whenever_iff (afterInit_agrees h₀) (fun _ h => h.screenAgrees) ?_ ?_ ops
  · exact fun s op s' h hc he => (shellStep_agrees h he).1 hc
  · exact fun s op s' h he hagrees => (shellStep_agrees h he).2 hagrees

end Runs

theorem screen_agrees_erased :
    ∃ s₀ : ShellSys Unit, AfterInit s₀ ∧
      Whenever (shellStep basicCommands) s₀ ScreenAgrees [.key ⟨97, by decide⟩, .key ⟨8, by decide⟩] := by
  obtain ⟨s₀, h₀⟩ := exists_afterInit ()
  refine ⟨s₀, h₀, (screen_agrees_iff basicCommands h₀ _).mpr (allReturned_of_allSteps ?_)⟩
  have hplain : (97 : UInt8) ≠ 10 ∧ (97 : UInt8) ≠ 8 := by decide
  refine allSteps_cons.mpr ⟨⟨fun hnl => absurd hnl hplain.1, fun hbs => absurd hbs hplain.2⟩, fun s hs => ?_⟩
  refine allSteps_cons.mpr ⟨⟨fun hnl => absurd hnl (by decide), fun _ => ?_⟩, fun _ _ => allSteps_nil⟩
  obtain ⟨hgood, hnil⟩ := afterInit_good h₀
  obtain ⟨-, hline⟩ := handleKey_typed (k := ⟨97, by decide⟩) hgood (fun hnl => absurd hnl hplain.1) hs
  rw [hnil] at hline
  have hone : s.shell.bufIdx = 1 := by
    rw [← ShellInv.length_eq, hline]
    rfl
  omega

/-- The line after some typed letters. -/
theorem run_letters {ω : Type} {s₀ : ShellSys ω} (cmds : Commands ω) (h₀ : AfterInit s₀) {n : ℕ}
    (hn : n ≤ 127) :
    ∃ s, run (shellStep cmds) s₀ (List.replicate n (.key ⟨97, by decide⟩)) = .ok s ∧ Agrees s ∧
      s.shell.bufIdx = n := by
  induction n with
  | zero =>
    obtain ⟨-, hnil⟩ := afterInit_good h₀
    exact ⟨s₀, rfl, afterInit_agrees h₀, by rw [← ShellInv.length_eq, hnil, List.length_nil]⟩
  | succ n ih =>
    obtain ⟨s, hs, hagrees, hidx⟩ := ih (by omega)
    obtain ⟨t, sh, t', -, -, -, he, hline, -⟩ :=
      handleKey_edit hagrees.good cmds (c := 97) (by decide) (by decide)
    have hstep : shellStep cmds s (.key ⟨97, by decide⟩) = .ok { s with shell := sh, term := t' } := he
    refine ⟨_, by rw [List.replicate_succ', run_snoc hs, hstep], ?_, ?_⟩
    · exact (edit_agrees hagrees (by decide) (by decide) he).1 fun hbs => absurd hbs (by decide)
    · have hlen : (inputLine s.shell).length < 127 := by
        rw [ShellInv.length_eq, hidx]
        omega
      rw [typeKey, if_neg (by decide), if_neg (by decide), if_pos hlen] at hline
      have hnext := congrArg List.length hline
      rw [ShellInv.length_eq, List.length_append, ShellInv.length_eq, hidx, List.length_singleton] at hnext
      exact hnext

/-- A backspace after seventy-four letters takes a letter out of the buffer, and none from the screen. -/
theorem backspace_at_break_disagrees :
    ∃ s₀ : ShellSys Unit, AfterInit s₀ ∧ ¬ Whenever (shellStep basicCommands) s₀ ScreenAgrees
      (List.replicate 74 (.key ⟨97, by decide⟩) ++ [.key ⟨8, by decide⟩]) := by
  obtain ⟨s₀, h₀⟩ := exists_afterInit ()
  refine ⟨s₀, h₀, fun hall => ?_⟩
  obtain ⟨s, hs, hagrees, hidx⟩ := run_letters basicCommands h₀ (n := 74) (by decide)
  obtain ⟨t, sh, t', -, -, -, he, -, -⟩ :=
    handleKey_edit hagrees.good basicCommands (c := 8) (by decide) (by decide)
  have hstep : shellStep basicCommands s (.key ⟨8, by decide⟩) = .ok { s with shell := sh, term := t' } := he
  have hscreen := hall _ List.prefix_rfl _ (by rw [run_snoc hs, hstep])
  exact (edit_agrees hagrees (by decide) (by decide) he).2 hscreen rfl hidx

end RtosKernel
