import RtosKernel.Proofs.ScreenProofs
import RtosKernel.Proofs.ShellDataProofs
import RtosKernel.Proofs.ArgumentProofs

/-!
# Proofs: the input line

Every call of the shell keeps its data (`ShellGood`), edits the line as its keys say, and prints what it
does to the line (`terminalPuts`). `execute_command` ends with the prompt and an empty line, except after a
line of blanks: there it returns without a reset of `buf_idx`.
-/

namespace RtosKernel

open Lib

/-! ## Printing -/

/-- The characters, one after the other, on the terminal. -/
def terminalPuts (cs : List UInt8) (t : Terminal) : Except OutOfBounds Terminal :=
  cs.foldlM (fun t c => terminalPutchar c t) t

theorem terminalPuts_inv {t : Terminal} (h : TermInv t) (cs : List UInt8) :
    ∃ t', terminalPuts cs t = .ok t' ∧ TermInv t' := by
  induction cs generalizing t with
  | nil => exact ⟨t, rfl, h⟩
  | cons c cs ih =>
    obtain ⟨u, hu, hd, -⟩ := terminalPutchar_spec h c
    obtain ⟨t', ht', hinv⟩ := ih (hd.termInv (putEffect_inv h c))
    exact ⟨t', by rw [terminalPuts, List.foldlM_cons, hu, ok_bind]; exact ht', hinv⟩

theorem terminalPuts_append {t u : Terminal} {cs ds : List UInt8} (h : terminalPuts cs t = .ok u) :
    terminalPuts (cs ++ ds) t = terminalPuts ds u := by
  rw [terminalPuts, List.foldlM_append]
  show (terminalPuts cs t >>= terminalPuts ds) = terminalPuts ds u
  rw [h, ok_bind]

section Printing

variable {ω : Type} {s : ShellSys ω} {t : Terminal}

theorem shellPutchar_ok {c : UInt8} (h : terminalPutchar c s.term = .ok t) :
    shellPutchar c s = .ok { s with term := t } := by
  rw [shellPutchar, h]
  rfl

theorem shellPuts_ok {cs : List UInt8} (h : terminalPuts cs s.term = .ok t) :
    cs.foldlM (fun s c => shellPutchar c s) s = .ok { s with term := t } := by
  induction cs generalizing s with
  | nil =>
    obtain rfl := Except.ok.inj h
    rfl
  | cons c cs ih =>
    rw [terminalPuts, List.foldlM_cons] at h
    obtain ⟨u, hu, h⟩ := bind_eq_ok.mp h
    rw [List.foldlM_cons, shellPutchar_ok hu, ok_bind]
    exact ih (s := { s with term := u }) h

theorem clearInput_ok {n : ℕ} (hn : s.shell.bufIdx = n)
    (h : terminalPuts (List.replicate n 8) s.term = .ok t) :
    clearInput n s = .ok { s with term := t, shell := { s.shell with bufIdx := 0 } } := by
  induction n generalizing s with
  | zero =>
    obtain rfl := Except.ok.inj h
    rw [clearInput, ← hn]
    rfl
  | succ n ih =>
    rw [List.replicate_succ, terminalPuts, List.foldlM_cons] at h
    obtain ⟨u, hu, h⟩ := bind_eq_ok.mp h
    rw [clearInput, shellPutchar_ok hu, ok_bind]
    exact ih (s := { s with term := u, shell := { s.shell with bufIdx := n } }) rfl h

theorem displayBuffer_ok (hidx : s.shell.bufIdx ≤ maxBuffer)
    (h : terminalPuts (inputLine s.shell) s.term = .ok t) :
    displayBuffer s = .ok { s with term := t } := by
  have hloop : ∀ (l : List ℕ) (u : ShellSys ω), (∀ i ∈ l, i < maxBuffer) →
      terminalPuts (l.map u.shell.buffer) u.term = .ok t →
        l.foldlM (fun s i => do
          let c ← getAt maxBuffer i s.shell.buffer
          shellPutchar c s) u = .ok { u with term := t } := by
    intro l
    induction l with
    | nil =>
      intro u _ hu
      obtain rfl := Except.ok.inj hu
      rfl
    | cons i l ih =>
      intro u hl hu
      rw [List.map_cons, terminalPuts, List.foldlM_cons] at hu
      obtain ⟨v, hv, hu⟩ := bind_eq_ok.mp hu
      rw [List.foldlM_cons, getAt_ok (hl i List.mem_cons_self), ok_bind, shellPutchar_ok hv, ok_bind]
      exact ih { u with term := v } (fun j hj => hl j (List.mem_cons_of_mem _ hj)) hu
  exact hloop (List.range s.shell.bufIdx) s (fun i hi => (List.mem_range.mp hi).trans_le hidx) h

/-- The prompt is printed, and its place is noted. -/
theorem printPrompt_ok (h : TermInv s.term) :
    ∃ t, terminalPuts (CString.ofString "\nRTOS> ").chars s.term = .ok t ∧ TermInv t ∧
      printPrompt s = .ok { s with term := t, promptAt := (t.head, t.termCol) } := by
  obtain ⟨t, ht, hinv⟩ := terminalPuts_inv h (CString.ofString "\nRTOS> ").chars
  refine ⟨t, ht, hinv, ?_⟩
  rw [printPrompt, shellPrintStr, shellPuts_ok ht]
  rfl

theorem outputStep_ok (h : TermInv t) (out : Output) : ∃ t', outputStep t out = .ok t' ∧ TermInv t' := by
  cases out with
  | putchar c =>
    have hforward : TermOp.Forward (.putchar c) := trivial
    obtain ⟨t', he, hinv⟩ := termStep_inv h hforward
    exact ⟨t', he, hinv⟩
  | clear =>
    have hforward : TermOp.Forward .clear := trivial
    obtain ⟨t', he, hinv⟩ := termStep_inv h hforward
    exact ⟨t', he, hinv⟩
  | drawHeader => exact ⟨_, rfl, (drawHeader_paints t).drawn.termInv h⟩

theorem outputSteps_ok (outs : List Output) {t : Terminal} (h : TermInv t) :
    ∃ t', outs.foldlM outputStep t = .ok t' ∧ TermInv t' := by
  induction outs generalizing t with
  | nil => exact ⟨t, rfl, h⟩
  | cons out outs ih =>
    obtain ⟨v, hv, hinv⟩ := outputStep_ok h out
    obtain ⟨t', ht', hinv'⟩ := ih hinv
    exact ⟨t', by rw [List.foldlM_cons, hv, ok_bind, ht'], hinv'⟩

/-- A command that returns. -/
theorem runCommand_ok (h : TermInv s.term) (cmds : Commands ω) (cmd : Command) (argc : ℕ) (args : Args) :
    runCommand cmds cmd argc args s = .error .halted ∨
      ∃ t kernel, runCommand cmds cmd argc args s = .ok { s with term := t, kernel := kernel } ∧
        TermInv t := by
  unfold runCommand
  cases hcmd : cmds cmd argc args s.shell s.kernel with
  | none => exact Or.inl rfl
  | some r =>
    obtain ⟨outs, kernel⟩ := r
    obtain ⟨t, ht, hinv⟩ := outputSteps_ok outs h
    refine Or.inr ⟨t, kernel, ?_, hinv⟩
    simp only [ht]
    rfl

end Printing

/-! ## The calls -/

/-- What the calls of the shell keep, with the terminal. -/
structure ShellGood {ω : Type} (s : ShellSys ω) : Prop where
  shell : ShellInv s.shell
  term : TermInv s.term

/-- The lines of the terminal and the place in them are the same. -/
structure SameLines (t t' : Terminal) : Prop where
  buffer : t'.buffer = t.buffer
  head : t'.head = t.head
  termCol : t'.termCol = t.termCol

/-- The input line is erased on the screen, and another one is printed. -/
def RedrawsLine {ω : Type} (s : ShellSys ω) (r : Except ShellStop (ShellSys ω)) : Prop :=
  ∃ sh t, r = .ok { s with shell := sh, term := t } ∧ ShellInv sh ∧
    terminalPuts (List.replicate s.shell.bufIdx 8 ++ inputLine sh) s.term = .ok t

/-- What a key other than the newline prints. -/
def keyEcho (line : List UInt8) (c : UInt8) : List UInt8 :=
  if c = 8 then if line = [] then [] else [8]
  else if line.length < 127 then [c]
  else []

section Calls

variable {ω : Type} {s : ShellSys ω}

theorem clearInputLine_ok (h : TermInv s.term) :
    ∃ t, terminalPuts (List.replicate s.shell.bufIdx 8) s.term = .ok t ∧ TermInv t ∧
      clearInputLine s = .ok { s with term := t, shell := { s.shell with bufIdx := 0 } } := by
  obtain ⟨t, ht, hinv⟩ := terminalPuts_inv h (List.replicate s.shell.bufIdx 8)
  exact ⟨t, ht, hinv, clearInput_ok rfl ht⟩

theorem ShellGood.display (h : ShellGood s) :
    ∃ t, terminalPuts (inputLine s.shell) s.term = .ok t ∧ displayBuffer s = .ok { s with term := t } := by
  obtain ⟨t, ht, -⟩ := terminalPuts_inv h.term (inputLine s.shell)
  exact ⟨t, ht, displayBuffer_ok (h.shell.idx_le.trans (by decide)) ht⟩

/-- The line is erased, a new one is put into the buffer, and is printed. -/
theorem redraws_of_ok (h : TermInv s.term) (sh₁ : Shell) {sh₂ : Shell}
    {f : ShellSys ω → Except ShellStop (ShellSys ω)}
    (hidx : sh₁.bufIdx = s.shell.bufIdx) (hinv : ShellInv sh₂)
    (hf : ∀ t, f { s with term := t, shell := { sh₁ with bufIdx := 0 } } =
      displayBuffer { s with term := t, shell := sh₂ }) :
    RedrawsLine s (clearInputLine { s with shell := sh₁ } >>= f) := by
  obtain ⟨t₁, hclear, hinv₁, he₁⟩ := clearInputLine_ok (s := { s with shell := sh₁ }) h
  have hgood : ShellGood { s with term := t₁, shell := sh₂ } := ⟨hinv, hinv₁⟩
  obtain ⟨t₂, hprint, he₂⟩ := hgood.display
  refine ⟨sh₂, t₂, ?_, hinv, ?_⟩
  · rw [he₁, ok_bind, hf, he₂]
  · rw [← hidx, terminalPuts_append hclear]
    exact hprint

/-- The move to a command of the history. -/
theorem redraws_recall (h : TermInv s.term) {sh₁ : Shell} (hsh : ShellInv sh₁)
    (hidx : sh₁.bufIdx = s.shell.bufIdx) (hindex : 0 ≤ sh₁.historyIndex) :
    RedrawsLine s (clearInputLine { s with shell := sh₁ } >>= fun s => do
      let sh ← recallEntry s.shell
      displayBuffer { s with shell := sh }) := by
  have hrange := hsh.index_range
  have hcleared : ShellInv { sh₁ with bufIdx := 0 } :=
    ⟨hsh.line.shorter (Nat.zero_le _), hsh.saved, hsh.count_le, hsh.index_range, hsh.entries⟩
  obtain ⟨a, ha, hinv⟩ := recallEntry_ok hcleared (i := sh₁.historyIndex.toNat)
    (show sh₁.historyIndex.toNat < sh₁.historyCount by omega) (Int.toNat_of_nonneg hindex).symm
  refine redraws_of_ok h sh₁ hidx hinv fun t => ?_
  simp only [ha, ok_bind]

/-- `shell_history_up` moves unless there is no older command. -/
theorem shellHistoryUp_ok (h : ShellGood s) :
    if s.shell.historyCount ≠ 0 ∧ s.shell.historyIndex ≠ 0 then RedrawsLine s (shellHistoryUp s)
    else shellHistoryUp s = .ok s := by
  have hrange := h.shell.index_range
  unfold shellHistoryUp
  by_cases hcount : s.shell.historyCount = 0
  · have hnot : ¬ (s.shell.historyCount ≠ 0 ∧ s.shell.historyIndex ≠ 0) := fun hacts => hacts.1 hcount
    rw [if_neg hnot, if_pos hcount]
    rfl
  rw [if_neg hcount]
  by_cases hfirst : s.shell.historyIndex = -1
  · have hacts : s.shell.historyCount ≠ 0 ∧ s.shell.historyIndex ≠ 0 := ⟨hcount, by omega⟩
    obtain ⟨saved, hcopy, hsaved, -, -⟩ := h.shell.line.copy s.shell.savedBuffer
    rw [if_pos hacts, if_pos hfirst, cString_ok h.shell.line.ended, ok_bind, hcopy, ok_bind]
    refine redraws_recall h.term ⟨h.shell.line, hsaved, h.shell.count_le, ?_, h.shell.entries⟩ rfl ?_
    · show -1 ≤ (s.shell.historyCount : ℤ) - 1 ∧ (s.shell.historyCount : ℤ) - 1 < s.shell.historyCount
      omega
    · show 0 ≤ (s.shell.historyCount : ℤ) - 1
      omega
  rw [if_neg hfirst]
  by_cases hpos : s.shell.historyIndex > 0
  · have hacts : s.shell.historyCount ≠ 0 ∧ s.shell.historyIndex ≠ 0 := ⟨hcount, by omega⟩
    rw [if_pos hacts, if_pos hpos]
    refine redraws_recall h.term ⟨h.shell.line, h.shell.saved, h.shell.count_le, ?_, h.shell.entries⟩ rfl ?_
    · show -1 ≤ s.shell.historyIndex - 1 ∧ s.shell.historyIndex - 1 < s.shell.historyCount
      omega
    · show 0 ≤ s.shell.historyIndex - 1
      omega
  · have hnot : ¬ (s.shell.historyCount ≠ 0 ∧ s.shell.historyIndex ≠ 0) := fun hacts => hacts.2 (by omega)
    rw [if_neg hnot, if_neg hpos]
    rfl

/-- `shell_history_down` moves unless the line is not one of the history. -/
theorem shellHistoryDown_ok (h : ShellGood s) :
    if s.shell.historyIndex ≠ -1 then RedrawsLine s (shellHistoryDown s) else shellHistoryDown s = .ok s := by
  have hrange := h.shell.index_range
  unfold shellHistoryDown
  by_cases hfirst : s.shell.historyIndex = -1
  · rw [if_neg (not_not.mpr hfirst), if_pos hfirst]
    rfl
  rw [if_pos hfirst, if_neg hfirst]
  by_cases hnext : s.shell.historyIndex < (s.shell.historyCount : ℤ) - 1
  · have hcleared : ShellInv { s.shell with bufIdx := 0, historyIndex := s.shell.historyIndex + 1 } :=
      ⟨h.shell.line.shorter (Nat.zero_le _), h.shell.saved, h.shell.count_le,
        show -1 ≤ s.shell.historyIndex + 1 ∧ s.shell.historyIndex + 1 < s.shell.historyCount by omega,
        h.shell.entries⟩
    obtain ⟨a, ha, hinv⟩ := recallEntry_ok hcleared (i := (s.shell.historyIndex + 1).toNat)
      (show (s.shell.historyIndex + 1).toNat < s.shell.historyCount by omega)
      (Int.toNat_of_nonneg (show 0 ≤ s.shell.historyIndex + 1 by omega)).symm
    refine redraws_of_ok h.term s.shell rfl hinv fun t => ?_
    simp only [hnext, if_true, ha, ok_bind]
  · obtain ⟨a, hcopy, hline, -, -⟩ := h.shell.saved.copy s.shell.buffer
    have hinv : ShellInv { s.shell with buffer := a, bufIdx := s.shell.savedBufIdx, historyIndex := -1 } :=
      ⟨hline, h.shell.saved, h.shell.count_le,
        show (-1 : ℤ) ≤ -1 ∧ (-1 : ℤ) < s.shell.historyCount by omega, h.shell.entries⟩
    refine redraws_of_ok h.term s.shell rfl hinv fun t => ?_
    simp only [hnext, if_false, cString_ok h.shell.saved.ended, ok_bind, hcopy]

/-- The scroll at the start of `shell_handle_key` leaves the lines as they are. -/
theorem showBottom_ok (h : TermInv s.term) :
    ∃ t, showBottom s = .ok { s with term := t } ∧ TermInv t ∧ SameLines s.term t := by
  unfold showBottom
  split_ifs with hview
  · have hforward : TermOp.Forward .scrollToBottom := trivial
    obtain ⟨t, he, hd, -⟩ := termStep_spec h hforward
    have hscroll : terminalScrollToBottom s.term = .ok t := he
    have hinv := hd.termInv (termEffect_inv h hforward)
    exact ⟨t, by rw [hscroll]; rfl, hinv, hd.buffer, hd.head, hd.termCol⟩
  · exact ⟨s.term, rfl, h, rfl, rfl, rfl⟩

theorem terminalPuts_singleton (c : UInt8) (t : Terminal) : terminalPuts [c] t = terminalPutchar c t := by
  rw [terminalPuts, List.foldlM_cons]
  cases terminalPutchar c t <;> rfl

/-- A key other than the newline edits the line, and prints its echo. -/
theorem editLine_ok (h : ShellGood s) {c : UInt8} (h0 : c ≠ 0) (hnl : c ≠ 10) :
    ∃ sh t, editLine c s = .ok { s with shell := sh, term := t } ∧ ShellInv sh ∧
      inputLine sh = typeKey (inputLine s.shell) c ∧
      terminalPuts (keyEcho (inputLine s.shell) c) s.term = .ok t := by
  have hidx := h.shell.idx_le
  have hlen := ShellInv.length_eq s.shell
  unfold editLine typeKey keyEcho
  rw [if_neg hnl]
  by_cases hbs : c = 8
  · rw [if_pos hbs, if_pos hbs, if_pos hbs]
    by_cases hpos : s.shell.bufIdx > 0
    · have hne : inputLine s.shell ≠ [] := List.ne_nil_of_length_pos (hlen ▸ hpos)
      obtain ⟨hsh, heq⟩ := h.shell.erased
      obtain ⟨t, ht, -⟩ := terminalPuts_inv h.term [8]
      have hput := terminalPuts_singleton 8 s.term
      rw [if_pos hpos, if_neg hne, setAt_ok (by simp only [maxBuffer]; omega), ok_bind]
      exact ⟨_, t, shellPutchar_ok (hput.symm.trans ht), hsh, heq, ht⟩
    · have hnil : inputLine s.shell = [] := List.length_eq_zero_iff.mp (by omega)
      rw [if_neg hpos, if_pos hnil]
      exact ⟨s.shell, s.term, rfl, h.shell, by rw [hnil]; rfl, rfl⟩
  · rw [if_neg hbs, if_neg hbs, if_neg hbs, hlen]
    by_cases hroom : s.shell.bufIdx < 127
    · have hmax : s.shell.bufIdx < maxBuffer - 1 := hroom
      obtain ⟨hsh, heq⟩ := h.shell.typed ⟨h0, hbs, hnl⟩ hroom
      obtain ⟨t, ht, -⟩ := terminalPuts_inv h.term [c]
      have hput := terminalPuts_singleton c s.term
      rw [if_pos hmax, if_pos hroom, if_pos hroom, setAt_ok (by simp only [maxBuffer]; omega), ok_bind,
        setAt_ok (by simp only [maxBuffer]; omega), ok_bind]
      exact ⟨_, t, shellPutchar_ok (hput.symm.trans ht), hsh, heq, ht⟩
    · have hmax : ¬ s.shell.bufIdx < maxBuffer - 1 := hroom
      rw [if_neg hmax, if_neg hroom, if_neg hroom]
      exact ⟨s.shell, s.term, rfl, h.shell, rfl, rfl⟩

/-- A line with something in it is executed, and is empty then, if its command returns. A line of blanks is
still there. -/
theorem executeLine_cases (h : ShellGood s) (cmds : Commands ω)
    (hholds : HoldsString s.shell.buffer (inputLine s.shell)) :
    ((∀ c ∈ inputLine s.shell, c = 32) ∧
      ∃ u, executeLine cmds s = printPrompt u ∧ ShellGood u ∧ inputLine u.shell = inputLine s.shell) ∨
    ((¬ ∀ c ∈ inputLine s.shell, c = 32) ∧ (executeLine cmds s = .error .halted ∨
      ∃ u, executeLine cmds s = printPrompt u ∧ ShellGood u ∧ inputLine u.shell = [])) := by
  have hplain := h.shell.line.line_plain
  have h0 : 0 ∉ inputLine s.shell := fun hmem => (hplain 0 hmem).1 rfl
  have hlen : (inputLine s.shell).length < maxBuffer := by
    rw [ShellInv.length_eq]
    exact h.shell.idx_le.trans_lt (by decide)
  have hread : readString maxBuffer s.shell.buffer = inputLine s.shell := hholds.read h0 hlen.le
  have hcmd : cString maxBuffer s.shell.buffer = .ok ⟨inputLine s.shell, h0⟩ := by
    have hended : (readString maxBuffer s.shell.buffer).length < maxBuffer := by rw [hread]; exact hlen
    rw [cString_ok hended]
    congr 2
  obtain ⟨rows, count, hadd, hinv⟩ := h.shell.historyAdd ⟨inputLine s.shell, h0⟩ hlen hplain
  obtain ⟨argc, args, hsplit, hargc, hname⟩ := splitArgs_ok ⟨inputLine s.shell, h0⟩
  unfold executeLine
  rw [hcmd, ok_bind, hadd, ok_bind, hsplit, ok_bind]
  simp only
  by_cases hblank : argc = 0
  · refine Or.inl ⟨hargc.mp hblank, ?_⟩
    rw [if_pos hblank]
    exact ⟨_, rfl, ⟨hinv, h.term⟩, rfl⟩
  · refine Or.inr ⟨fun hall => hblank (hargc.mpr hall), ?_⟩
    rw [if_neg hblank, cString_ok (hname hblank), ok_bind]
    rcases runCommand_ok (s := { s with
        shell := { s.shell with commandHistory := rows, historyCount := count } }) h.term cmds
      (commandOf ⟨readString argLen (args 0), zero_notMem_readString argLen (args 0)⟩) argc args with
      hhalt | ⟨t, kernel, hrun, hterm⟩
    · rw [hhalt]
      exact Or.inl rfl
    · rw [hrun, ok_bind]
      refine Or.inr ⟨_, rfl, ⟨⟨?_, hinv.saved, hinv.count_le, hinv.index_range, hinv.entries⟩, hterm⟩, rfl⟩
      exact hinv.line.shorter (Nat.zero_le _)

/-- `execute_command` ends with the prompt. A line of blanks is still there then; any other line is empty,
if its command returns. -/
theorem executeCommand_cases (h : ShellGood s) (cmds : Commands ω) :
    (IsBlank (inputLine s.shell) ∧
      ∃ u, executeCommand cmds s = printPrompt u ∧ ShellGood u ∧ inputLine u.shell = inputLine s.shell) ∨
    (¬ IsBlank (inputLine s.shell) ∧ (executeCommand cmds s = .error .halted ∨
      ∃ u, executeCommand cmds s = printPrompt u ∧ ShellGood u ∧ inputLine u.shell = [])) := by
  obtain ⟨sh, hend, hinv, hline, hidx, hholds⟩ := endLine_ok h.shell
  unfold executeCommand
  rw [hend, ok_bind]
  by_cases hzero : sh.bufIdx = 0
  · have hnil : inputLine sh = [] := List.length_eq_zero_iff.mp ((ShellInv.length_eq sh).trans hzero)
    refine Or.inr ⟨fun hblank => hblank.1 (hline ▸ hnil), Or.inr ?_⟩
    rw [if_pos hzero]
    exact ⟨_, rfl, ⟨hinv, h.term⟩, hnil⟩
  · have hne : inputLine sh ≠ [] := fun hnil => hzero (by rw [← ShellInv.length_eq sh, hnil, List.length_nil])
    rw [if_neg hzero]
    have hcases := executeLine_cases (s := { s with shell := sh }) ⟨hinv, h.term⟩ cmds hholds
    rw [← hline]
    rcases hcases with ⟨hall, hu⟩ | ⟨hsome, hu⟩
    · exact Or.inl ⟨⟨hne, hall⟩, hu⟩
    · exact Or.inr ⟨fun hblank => hsome hblank.2, hu⟩

/-- The prompt changes neither the line nor what the calls keep. -/
theorem printPrompt_good {u : ShellSys ω} (h : ShellGood u) :
    ∃ s, printPrompt u = .ok s ∧ ShellGood s ∧ s.shell = u.shell := by
  obtain ⟨t, -, hinv, he⟩ := printPrompt_ok h.term
  exact ⟨_, he, ⟨h.shell, hinv⟩, rfl⟩

/-- A newline on a line of blanks leaves the line as it is. -/
theorem handleKey_blank (h : ShellGood s) (cmds : Commands ω) (hblank : IsBlank (inputLine s.shell)) :
    ∃ u s', ShellGood u ∧ printPrompt u = .ok s' ∧ shellHandleKey cmds 10 s = .ok s' ∧
      s'.shell = u.shell ∧ inputLine u.shell = inputLine s.shell := by
  obtain ⟨t, hbottom, hinv, -⟩ := showBottom_ok h.term
  rcases executeCommand_cases (s := { s with term := t }) ⟨h.shell, hinv⟩ cmds with
    ⟨-, u, he, hgood, hline⟩ | ⟨hnot, -⟩
  · obtain ⟨s', hs', -, hsh⟩ := printPrompt_good hgood
    refine ⟨u, s', hgood, hs', ?_, hsh, hline⟩
    rw [shellHandleKey, hbottom, ok_bind, if_pos rfl, he, hs']
  · exact absurd hblank hnot

/-- A newline on any other line ends with the prompt and an empty line. -/
theorem handleKey_newline (h : ShellGood s) {cmds : Commands ω} (hblank : ¬ IsBlank (inputLine s.shell))
    {s' : ShellSys ω} (he : shellHandleKey cmds 10 s = .ok s') :
    ∃ u, ShellGood u ∧ printPrompt u = .ok s' ∧ inputLine u.shell = [] := by
  obtain ⟨t, hbottom, hinv, -⟩ := showBottom_ok h.term
  rw [shellHandleKey, hbottom, ok_bind, if_pos rfl] at he
  rcases executeCommand_cases (s := { s with term := t }) ⟨h.shell, hinv⟩ cmds with
    ⟨hyes, -⟩ | ⟨-, hhalt | ⟨u, hu, hgood, hline⟩⟩
  · exact absurd hyes hblank
  · rw [hhalt] at he
    exact absurd he (by simp)
  · exact ⟨u, hgood, by rw [← hu, he], hline⟩

/-- A key other than the newline. -/
theorem handleKey_edit (h : ShellGood s) (cmds : Commands ω) {c : UInt8} (h0 : c ≠ 0) (hnl : c ≠ 10) :
    ∃ t sh t', SameLines s.term t ∧ TermInv t ∧ ShellInv sh ∧
      shellHandleKey cmds c s = .ok { s with shell := sh, term := t' } ∧
      inputLine sh = typeKey (inputLine s.shell) c ∧
      terminalPuts (keyEcho (inputLine s.shell) c) t = .ok t' := by
  obtain ⟨t, hbottom, hinv, hsame⟩ := showBottom_ok h.term
  obtain ⟨sh, t', he, hsh, hline, hputs⟩ := editLine_ok (s := { s with term := t }) ⟨h.shell, hinv⟩ h0 hnl
  refine ⟨t, sh, t', hsame, hinv, hsh, ?_, hline, hputs⟩
  rw [shellHandleKey, hbottom, ok_bind, if_neg hnl, he]

theorem terminalPuts_keeps {t t' : Terminal} {cs : List UInt8} (h : TermInv t)
    (hputs : terminalPuts cs t = .ok t') :
    TermInv t' := by
  obtain ⟨u, hu, hinv⟩ := terminalPuts_inv h cs
  rw [hputs] at hu
  rwa [Except.ok.inj hu]

/-- The line follows the keys, unless a newline comes on a line of blanks. -/
theorem handleKey_typed (h : ShellGood s) {cmds : Commands ω} {k : Key}
    (hk : k.code = 10 → ¬ IsBlank (inputLine s.shell)) {s' : ShellSys ω}
    (he : shellHandleKey cmds k.code s = .ok s') :
    ShellGood s' ∧ inputLine s'.shell = typeKey (inputLine s.shell) k.code := by
  by_cases hnl : k.code = 10
  · rw [hnl] at he ⊢
    obtain ⟨u, hgood, hu, hline⟩ := handleKey_newline h (hk hnl) he
    obtain ⟨s'', hs'', hgood', hsh⟩ := printPrompt_good hgood
    obtain rfl : s'' = s' := by rw [hu] at hs''; exact (Except.ok.inj hs'').symm
    refine ⟨hgood', ?_⟩
    rw [hsh, hline]
    rfl
  · obtain ⟨t, sh, t', -, hinv, hsh, he', hline, hputs⟩ := handleKey_edit h cmds k.code_ne hnl
    rw [he'] at he
    obtain rfl := Except.ok.inj he
    exact ⟨⟨hsh, terminalPuts_keeps hinv hputs⟩, hline⟩

end Calls

/-! ## Runs of keys -/

section Runs

variable {ω : Type} {s s₀ : ShellSys ω} {cmds : Commands ω}

/-- `init_shell` at boot ends with the prompt and an empty line. -/
theorem initShell_ok {t : Terminal} (h : TermInv t) (kernel : ω) (promptAt : ℤ × ℤ) :
    ∃ u, initShell ⟨bootShell, t, kernel, promptAt⟩ = printPrompt u ∧ ShellGood u ∧
      inputLine u.shell = [] ∧ u.kernel = kernel := by
  obtain ⟨t₁, h₁, hinv₁⟩ := terminalPuts_inv h (CString.ofString "\n--- RTOS Shell v3.1 ---").chars
  obtain ⟨t₂, h₂, hinv₂⟩ := terminalPuts_inv hinv₁ (CString.ofString "\nType 'help' for help").chars
  have hsaved : Function.update bootShell.savedBuffer 0 0 = bootShell.savedBuffer :=
    Function.update_eq_self 0 bootShell.savedBuffer
  have hhistory : (fun i => if i < historySize then Function.update (bootShell.commandHistory i) 0 0
      else bootShell.commandHistory i) = bootShell.commandHistory := by
    funext i
    have hrow : Function.update (bootShell.commandHistory i) 0 0 = bootShell.commandHistory i :=
      Function.update_eq_self 0 (bootShell.commandHistory i)
    rw [hrow, ite_self]
  rw [initShell, setAt_ok (by decide), ok_bind]
  simp only [hsaved, hhistory]
  rw [shellPrintStr, shellPuts_ok h₁, ok_bind, shellPrintStr, shellPuts_ok h₂, ok_bind]
  exact ⟨_, rfl, ⟨bootShell_inv, hinv₂⟩, rfl, rfl⟩

theorem afterInit_prompt (h : AfterInit s) :
    ∃ u, ShellGood u ∧ printPrompt u = .ok s ∧ inputLine u.shell = [] := by
  obtain ⟨vga, ops, t, kernel, promptAt, hops, hrun, hinit⟩ := h
  have hforward : AllSteps termStep (bootTerminal vga) (fun _ op => op.Forward) ops := allSteps_of_forall hops
  obtain ⟨t', ht', hterm⟩ :=
    run_of_allSteps (bootTerminal_inv vga) (fun _ _ hI hop => termStep_inv hI hop) hforward
  obtain rfl : t = t' := by rw [hrun] at ht'; exact Except.ok.inj ht'
  obtain ⟨u, hu, hgood, hline, -⟩ := initShell_ok hterm kernel promptAt
  exact ⟨u, hgood, by rw [← hu, hinit], hline⟩

/-- `init_shell` returns, and so there are such states. -/
theorem exists_afterInit (kernel : ω) : ∃ s : ShellSys ω, AfterInit s := by
  obtain ⟨u, hu, hgood, -⟩ := initShell_ok (bootTerminal_inv fun _ => 0) kernel (0, 0)
  obtain ⟨s, hs, -⟩ := printPrompt_good hgood
  exact ⟨s, _, [], _, kernel, (0, 0), fun _ hop => absurd hop List.not_mem_nil, rfl, hu.trans hs⟩

theorem afterInit_good (h : AfterInit s) : ShellGood s ∧ inputLine s.shell = [] := by
  obtain ⟨u, hgood, hu, hline⟩ := afterInit_prompt h
  obtain ⟨s', hs', hgood', hsh⟩ := printPrompt_good hgood
  obtain rfl : s' = s := by rw [hu] at hs'; exact (Except.ok.inj hs').symm
  exact ⟨hgood', by rw [hsh, hline]⟩

theorem typedLine_concat (pre : List Key) (k : Key) :
    typedLine (pre ++ [k]) = typeKey (typedLine pre) k.code := by
  rw [typedLine, List.map_append, List.foldl_append]
  rfl

theorem NoBlankLine.of_prefix {keys pre : List Key} (h : NoBlankLine cmds s₀ keys) (hpre : pre <+: keys) :
    NoBlankLine cmds s₀ pre := fun p k hp => h p k (hp.trans hpre)

/-- The line is the one that was typed, as long as no newline comes on a line of blanks. -/
theorem run_typed (h₀ : AfterInit s₀) {keys : List Key} (hkeys : NoBlankLine cmds s₀ keys)
    (hrun : run (fun s (k : Key) => shellHandleKey cmds k.code s) s₀ keys = .ok s) :
    ShellGood s ∧ inputLine s.shell = typedLine keys := by
  induction keys using List.reverseRecOn generalizing s with
  | nil =>
    obtain rfl := Except.ok.inj hrun
    exact afterInit_good h₀
  | append_singleton keys k ih =>
    obtain ⟨t, ht, hk⟩ := run_snoc_ok hrun
    obtain ⟨hgood, hline⟩ := ih (hkeys.of_prefix (List.prefix_append ..)) ht
    have hblank : k.code = 10 → ¬ IsBlank (inputLine t.shell) := by
      intro hnl
      rw [hline]
      exact hkeys keys k List.prefix_rfl hnl ⟨t, ht⟩
    obtain ⟨hgood', hline'⟩ := handleKey_typed hgood hblank hk
    exact ⟨hgood', by rw [hline', hline, typedLine_concat]⟩

/-- **In every run of keys after `init_shell`, every newline executes the line that was typed since the last
one and leaves an empty line, exactly when no newline comes on a line of blanks.** -/
theorem shell_executes_typed_iff (cmds : Commands ω) (h₀ : AfterInit s₀) (keys : List Key) :
    ExecutesTyped cmds s₀ keys ↔ NoBlankLine cmds s₀ keys := by
  constructor
  · intro hexec
    -- by induction on the prefix: before its last key no newline has come on a line of blanks
    suffices ∀ pre, pre <+: keys → NoBlankLine cmds s₀ pre from this keys List.prefix_rfl
    intro pre
    induction pre using List.reverseRecOn with
    | nil =>
      intro _ p k hp
      exact absurd hp (by simp)
    | append_singleton pre k ih =>
      intro hpre p k' hp hnl hreach
      have hbefore := ih ((List.prefix_append ..).trans hpre)
      rcases List.prefix_concat_iff.mp hp with heq | hlt
      · obtain ⟨rfl, hk⟩ := List.append_inj' heq rfl
        obtain rfl : k' = k := by simpa using hk
        obtain ⟨s, hs⟩ := hreach
        obtain ⟨hgood, hline⟩ := run_typed h₀ hbefore hs
        rw [← hline]
        intro hblank
        obtain ⟨u, s', -, -, he, hsh, hsame⟩ := handleKey_blank hgood cmds hblank
        obtain ⟨-, hempty⟩ := hexec p k' hpre hnl s hs
        rw [hnl] at hempty
        have hidx := hempty s' he
        rw [hsh, ← ShellInv.length_eq, hsame] at hidx
        exact hblank.1 (List.length_eq_zero_iff.mp hidx)
      · exact hbefore p k' hlt hnl hreach
  · intro hblank pre k hpre hnl s hs
    have hbefore := hblank.of_prefix ((List.prefix_append ..).trans hpre)
    obtain ⟨hgood, hline⟩ := run_typed h₀ hbefore hs
    refine ⟨by rw [hgood.shell.parsedText_eq, hline], fun s' hs' => ?_⟩
    have hnot : k.code = 10 → ¬ IsBlank (inputLine s.shell) := by
      intro _
      rw [hline]
      exact hblank pre k hpre hnl ⟨s, hs⟩
    obtain ⟨-, hline'⟩ := handleKey_typed hgood hnot hs'
    have hnil : inputLine s'.shell = [] := by
      rw [hline', hnl]
      rfl
    rw [← ShellInv.length_eq, hnil, List.length_nil]

end Runs

theorem shell_executes_typed_unknown :
    ∃ s₀ : ShellSys Unit, AfterInit s₀ ∧
      ExecutesTyped basicCommands s₀ [⟨120, by decide⟩, ⟨32, by decide⟩, ⟨10, by decide⟩] := by
  obtain ⟨s₀, h₀⟩ := exists_afterInit ()
  refine ⟨s₀, h₀, (shell_executes_typed_iff basicCommands h₀ _).mpr fun pre k hpre hnl _ hblank => ?_⟩
  -- the line has an 'x' as soon as a key has come
  match pre, hpre with
  | [], _ => exact hblank.1 rfl
  | [a], hpre =>
    obtain ⟨rfl, hk⟩ : a = ⟨120, by decide⟩ ∧ k = ⟨32, by decide⟩ := by simpa using hpre
    exact absurd (hk ▸ hnl) (by decide)
  | [a, b], hpre =>
    obtain ⟨rfl, rfl, -⟩ : a = ⟨120, by decide⟩ ∧ b = ⟨32, by decide⟩ ∧ k = ⟨10, by decide⟩ := by
      simpa using hpre
    exact absurd (hblank.2 120 (by decide)) (by decide)
  | a :: b :: c :: rest, hpre => exact absurd hpre.length_le (by simp)

/-- A line of one blank stays in the buffer. -/
theorem blank_line_stays :
    ∃ s₀ : ShellSys Unit, AfterInit s₀ ∧
      ¬ ExecutesTyped basicCommands s₀ [⟨32, by decide⟩, ⟨10, by decide⟩] := by
  obtain ⟨s₀, h₀⟩ := exists_afterInit ()
  refine ⟨s₀, h₀, fun hexec => ?_⟩
  obtain ⟨hgood, hnil⟩ := afterInit_good h₀
  obtain ⟨t, sh, t', -, hinv, hsh, he, hline, hputs⟩ :=
    handleKey_edit hgood basicCommands (c := 32) (by decide) (by decide)
  have hone : inputLine sh = [32] := by
    rw [hline, hnil]
    rfl
  have hgood' : ShellGood { s₀ with shell := sh, term := t' } := ⟨hsh, terminalPuts_keeps hinv hputs⟩
  have hblank : IsBlank (inputLine sh) := by
    rw [hone]
    exact ⟨by simp, by simp⟩
  obtain ⟨u, s', -, -, he', hsame, hline'⟩ := handleKey_blank hgood' basicCommands hblank
  obtain ⟨-, hempty⟩ := hexec [⟨32, by decide⟩] ⟨10, by decide⟩ List.prefix_rfl rfl _ (run_singleton.trans he)
  have hidx := hempty s' he'
  rw [hsame, ← ShellInv.length_eq, hline'] at hidx
  exact hblank.1 (List.length_eq_zero_iff.mp hidx)

end RtosKernel
