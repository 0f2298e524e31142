import RtosKernel.Proofs.ShellScreenProofs

/-!
# Proofs: the command history

The history holds the last twenty of the commands that are kept. A walk through it starts with the line saved,
and no move and no edit of the walk touches what was saved, so the step that ends the walk restores the line;
that a string stays in the array behind the line is seen by neither.
-/

namespace RtosKernel

open Lib

/-! ## The commands that are kept -/

section Kept

variable {sh : Shell} {es : List CString}

/-- Of the commands that were kept, only the last twenty count for the next one. -/
theorem addEntry_rtake (kept : List CString) (cmd : CString) :
    addEntry (kept.rtake historySize) cmd = (keepCommand kept cmd).rtake historySize := by
  unfold addEntry keepCommand
  rw [getLast?_rtake (by decide)]
  split_ifs
  · rfl
  · exact rtake_concat (by decide) kept cmd

theorem HoldsHistory.entries_eq (h : HoldsHistory sh es) : historyEntries sh = es.map CString.chars := by
  refine List.ext_getElem ?_ fun i hi hi' => ?_
  · simp [historyEntries, h.count_eq]
  · have hi'' : i < es.length := by simpa using hi'
    have hread := (h.rows i hi'').read es[i].no_nul (h.short _ (List.getElem_mem hi'')).le
    simpa [historyEntries] using hread

/-- Commands given to `history_add` one after the other. -/
theorem historyAdd_run {kept cmds : List CString} (h : HoldsHistory sh (kept.rtake historySize))
    (hlen : ∀ cmd ∈ cmds, cmd.chars.length ≤ 127) :
    ∃ sh', run (fun sh cmd => historyAdd cmd sh) sh cmds = .ok sh' ∧
      HoldsHistory sh' ((cmds.foldl keepCommand kept).rtake historySize) := by
  refine run_refines_on (R := fun (sh : Shell) (kept : List CString) => HoldsHistory sh (kept.rtake historySize))
    (C := fun cmd : CString => cmd.chars.length ≤ 127) h ?_ hlen
  intro sh kept cmd hcmd hk
  obtain ⟨rows, count, hadd, hnew⟩ := historyAdd_ok hk cmd (Nat.lt_succ_of_le hcmd)
  rw [addEntry_rtake] at hnew
  exact ⟨_, hadd, hnew⟩

end Kept

section Init

variable {ω : Type} {s s' : ShellSys ω}

/-- Printing does not change the data of the shell. -/
theorem shellPutchar_shell {c : UInt8} (h : shellPutchar c s = .ok s') : s'.shell = s.shell := by
  obtain ⟨t, -, ht⟩ := bind_eq_ok.mp h
  rw [← Except.ok.inj ht]

theorem shellPrintStr_shell {str : CString} (h : shellPrintStr str s = .ok s') : s'.shell = s.shell :=
  foldlM_inv (I := fun t : ShellSys ω => t.shell = s.shell)
    (fun _ _ _ hI ht => (shellPutchar_shell ht).trans hI) rfl h

theorem printPrompt_shell (h : printPrompt s = .ok s') : s'.shell = s.shell := by
  obtain ⟨t, ht, hp⟩ := bind_eq_ok.mp h
  have hsh := shellPrintStr_shell ht
  rwa [← Except.ok.inj hp]

theorem initShell_history (h : initShell s = .ok s') : HoldsHistory s'.shell [] := by
  unfold initShell at h
  obtain ⟨saved, -, h⟩ := bind_eq_ok.mp h
  obtain ⟨t₁, h₁, h⟩ := bind_eq_ok.mp h
  obtain ⟨t₂, h₂, h⟩ := bind_eq_ok.mp h
  have hcount : s'.shell.historyCount = 0 := by
    rw [printPrompt_shell h, shellPrintStr_shell h₂, shellPrintStr_shell h₁]
  exact ⟨hcount, Nat.zero_le _, fun i hi => absurd hi (Nat.not_lt_zero i), fun e he => absurd he List.not_mem_nil⟩

end Init

/-- **After any commands the history holds the last twenty of those that are kept.** -/
theorem history_keeps_last {ω : Type} {s₀ s : ShellSys ω} (hinit : initShell s₀ = .ok s) {cmds : List CString}
    (hlen : ∀ cmd ∈ cmds, cmd.chars.length ≤ 127) :
    ∃ sh, run (fun sh cmd => historyAdd cmd sh) s.shell cmds = .ok sh ∧
      sh.historyCount = min 20 (keptCommands cmds).length ∧
      historyEntries sh = ((keptCommands cmds).rtake 20).map CString.chars := by
  have hempty : HoldsHistory s.shell (([] : List CString).rtake historySize) := initShell_history hinit
  obtain ⟨sh, hr, h⟩ := historyAdd_run hempty hlen
  exact ⟨sh, hr, h.count_eq.trans (rtake_length _ _), h.entries_eq⟩

/-- A command given twice is kept once. -/
theorem history_keeps_last_repeated :
    ∃ s₀ s : ShellSys Unit, initShell s₀ = .ok s ∧
      ∃ sh, run (fun sh cmd => historyAdd cmd sh) s.shell [.ofString "ls", .ofString "ls", .ofString ""] = .ok sh ∧
        historyEntries sh = [[108, 115]] := by
  obtain ⟨u, hu, hgood, -⟩ := initShell_ok (bootTerminal_inv fun _ => 0) () (0, 0)
  obtain ⟨s, hs, -⟩ := printPrompt_good hgood
  have hlen : ∀ cmd ∈ [CString.ofString "ls", .ofString "ls", .ofString ""], cmd.chars.length ≤ 127 := by decide
  obtain ⟨sh, hr, -, hentries⟩ := history_keeps_last (hu.trans hs) hlen
  exact ⟨_, s, hu.trans hs, sh, hr, by rw [hentries]; decide⟩

/-! ## Walks through the history -/

section Moves

variable {ω : Type} {s s' : ShellSys ω} {cmds : Commands ω}

theorem clearInput_shell {n : ℕ} (h : clearInput n s = .ok s') : ∃ k, s'.shell = { s.shell with bufIdx := k } := by
  induction n generalizing s with
  | zero =>
    rw [← Except.ok.inj h]
    exact ⟨s.shell.bufIdx, rfl⟩
  | succ n ih =>
    rw [clearInput] at h
    obtain ⟨t, ht, h⟩ := bind_eq_ok.mp h
    obtain ⟨k, hk⟩ := ih h
    rw [shellPutchar_shell ht] at hk
    exact ⟨k, hk⟩

theorem displayBuffer_shell (h : displayBuffer s = .ok s') : s'.shell = s.shell := by
  refine foldlM_inv (I := fun t : ShellSys ω => t.shell = s.shell) (fun t i t' hI ht => ?_) rfl h
  obtain ⟨c, -, hc⟩ := bind_eq_ok.mp ht
  exact (shellPutchar_shell hc).trans hI

theorem recallEntry_shell {sh sh' : Shell} (h : recallEntry sh = .ok sh') :
    ∃ a n, sh' = { sh with buffer := a, bufIdx := n } := by
  unfold recallEntry at h
  obtain ⟨row, -, h⟩ := bind_eq_ok.mp h
  obtain ⟨src, -, h⟩ := bind_eq_ok.mp h
  obtain ⟨a, -, h⟩ := bind_eq_ok.mp h
  obtain ⟨line, -, h⟩ := bind_eq_ok.mp h
  exact ⟨a, _, (Except.ok.inj h).symm⟩

/-- The part of the data that a walk through the history is about. -/
structure SameSaved (sh sh' : Shell) : Prop where
  buffer : sh'.savedBuffer = sh.savedBuffer
  idx : sh'.savedBufIdx = sh.savedBufIdx

/-- The line is erased on the screen, and an entry of the history takes its place. -/
theorem recall_shell {sh₁ : Shell}
    (h : (clearInputLine { s with shell := sh₁ } >>= fun s => do
      let sh ← recallEntry s.shell
      displayBuffer { s with shell := sh }) = .ok s') :
    SameSaved sh₁ s'.shell ∧ s'.shell.historyIndex = sh₁.historyIndex := by
  obtain ⟨t, hclear, h⟩ := bind_eq_ok.mp h
  obtain ⟨sh, hrecall, h⟩ := bind_eq_ok.mp h
  obtain ⟨k, hk⟩ := clearInput_shell hclear
  obtain ⟨a, n, ha⟩ := recallEntry_shell hrecall
  rw [displayBuffer_shell h]
  rw [ha, hk]
  exact ⟨⟨rfl, rfl⟩, rfl⟩

/-- What `shell_history_up` does: nothing, the first step into the history with the line saved, or a step to
an older entry. -/
theorem shellHistoryUp_cases (h : shellHistoryUp s = .ok s') :
    s' = s ∨
    (s.shell.historyIndex = -1 ∧ ∃ src saved, cString maxBuffer s.shell.buffer = .ok src ∧
      shStrcpy s.shell.savedBuffer src = .ok saved ∧ s'.shell.savedBuffer = saved ∧
      s'.shell.savedBufIdx = s.shell.bufIdx) ∨
    (s.shell.historyIndex ≠ -1 ∧ SameSaved s.shell s'.shell) := by
  unfold shellHistoryUp at h
  split_ifs at h with hcount hfirst hpos
  · exact .inl (Except.ok.inj h).symm
  · obtain ⟨src, hsrc, h⟩ := bind_eq_ok.mp h
    obtain ⟨saved, hsaved, h⟩ := bind_eq_ok.mp h
    obtain ⟨hsame, -⟩ := recall_shell h
    exact .inr (.inl ⟨hfirst, src, saved, hsrc, hsaved, hsame.buffer, hsame.idx⟩)
  · obtain ⟨hsame, -⟩ := recall_shell h
    exact .inr (.inr ⟨hfirst, hsame.buffer, hsame.idx⟩)
  · exact .inl (Except.ok.inj h).symm

/-- What `shell_history_down` does: nothing outside the history, a step to a newer entry, or the step back to
the line that was saved. -/
theorem shellHistoryDown_cases (h : shellHistoryDown s = .ok s') :
    (s.shell.historyIndex = -1 ∧ s' = s) ∨
    (s.shell.historyIndex < (s.shell.historyCount : ℤ) - 1 ∧
      s'.shell.historyIndex = s.shell.historyIndex + 1 ∧ SameSaved s.shell s'.shell) ∨
    (s'.shell.historyIndex = -1 ∧ ∃ src dest, cString maxBuffer s.shell.savedBuffer = .ok src ∧
      shStrcpy s.shell.buffer src = .ok dest ∧ s'.shell.buffer = dest ∧
      s'.shell.bufIdx = s.shell.savedBufIdx) := by
  unfold shellHistoryDown at h
  split_ifs at h with hfirst
  · exact .inl ⟨hfirst, (Except.ok.inj h).symm⟩
  obtain ⟨t, hclear, h⟩ := bind_eq_ok.mp h
  obtain ⟨k, hk⟩ := clearInput_shell hclear
  rw [hk] at h
  split_ifs at h with hnext
  · obtain ⟨sh, hrecall, h⟩ := bind_eq_ok.mp h
    obtain ⟨a, n, ha⟩ := recallEntry_shell hrecall
    rw [displayBuffer_shell h, ha]
    exact .inr (.inl ⟨hnext, rfl, rfl, rfl⟩)
  · obtain ⟨src, hsrc, h⟩ := bind_eq_ok.mp h
    obtain ⟨dest, hdest, h⟩ := bind_eq_ok.mp h
    rw [displayBuffer_shell h]
    exact .inr (.inr ⟨rfl, src, dest, hsrc, hdest, rfl, rfl⟩)

/-- An editing key changes the line only. -/
theorem editLine_shell {c : UInt8} (h : editLine c s = .ok s') :
    SameSaved s.shell s'.shell ∧ s'.shell.historyIndex = s.shell.historyIndex := by
  unfold editLine at h
  split_ifs at h with hbs hpos hroom
  · obtain ⟨a, -, h⟩ := bind_eq_ok.mp h
    rw [shellPutchar_shell h]
    exact ⟨⟨rfl, rfl⟩, rfl⟩
  · rw [← Except.ok.inj h]
    exact ⟨⟨rfl, rfl⟩, rfl⟩
  · obtain ⟨a, -, h⟩ := bind_eq_ok.mp h
    obtain ⟨b, -, h⟩ := bind_eq_ok.mp h
    rw [shellPutchar_shell h]
    exact ⟨⟨rfl, rfl⟩, rfl⟩
  · rw [← Except.ok.inj h]
    exact ⟨⟨rfl, rfl⟩, rfl⟩

theorem showBottom_shell (h : showBottom s = .ok s') : s'.shell = s.shell := by
  unfold showBottom at h
  split_ifs at h
  · obtain ⟨t, -, ht⟩ := bind_eq_ok.mp h
    rw [← Except.ok.inj ht]
  · rw [← Except.ok.inj h]

theorem handleKey_shell {c : UInt8} (hnl : c ≠ 10) (h : shellHandleKey cmds c s = .ok s') :
    SameSaved s.shell s'.shell ∧ s'.shell.historyIndex = s.shell.historyIndex := by
  unfold shellHandleKey at h
  obtain ⟨t, hbottom, h⟩ := bind_eq_ok.mp h
  rw [if_neg hnl] at h
  have hedit := editLine_shell h
  rwa [showBottom_shell hbottom] at hedit

/-- A step inside the history keeps what was saved, as long as it stays inside. -/
theorem step_saved {op : ShellOp} (hin : s.shell.historyIndex ≠ -1) (hop : op.Edits)
    (h : shellStep cmds s op = .ok s') : s'.shell.historyIndex ≠ -1 → SameSaved s.shell s'.shell := by
  intro hin'
  cases op with
  | key k => exact (handleKey_shell hop h).1
  | historyUp =>
    obtain rfl | ⟨hout, -⟩ | ⟨-, hsame⟩ := shellHistoryUp_cases h
    · exact ⟨rfl, rfl⟩
    · exact absurd hout hin
    · exact hsame
  | historyDown =>
    obtain ⟨hout, -⟩ | ⟨-, -, hsame⟩ | ⟨hback, -⟩ := shellHistoryDown_cases h
    · exact absurd hout hin
    · exact hsame
    · exact absurd hback hin'
  | scroll op scrolls =>
    obtain ⟨t, -, ht⟩ := bind_eq_ok.mp h
    rw [← Except.ok.inj ht]
    exact ⟨rfl, rfl⟩

/-- A redrawn line is as good as the one before. -/
theorem RedrawsLine.good (h : ShellGood s) {r : Except ShellStop (ShellSys ω)} (hr : RedrawsLine s r) :
    ∃ s', r = .ok s' ∧ ShellGood s' := by
  obtain ⟨sh, t, he, hsh, hputs⟩ := hr
  exact ⟨_, he, hsh, terminalPuts_keeps h.term hputs⟩

/-- Every step returns, unless it executes a command that does not. -/
theorem shellStep_good (h : ShellGood s) (cmds : Commands ω) (op : ShellOp) :
    (∃ s', shellStep cmds s op = .ok s' ∧ ShellGood s') ∨ shellStep cmds s op = .error .halted := by
  cases op with
  | key k =>
    by_cases hnl : k.code = 10
    · obtain ⟨t, hbottom, hinv, -⟩ := showBottom_ok h.term
      have hstep : shellStep cmds s (.key k) = executeCommand cmds { s with term := t } := by
        show shellHandleKey cmds k.code s = _
        rw [shellHandleKey, hbottom, ok_bind, if_pos hnl]
      rw [hstep]
      have hprompt (u : ShellSys ω) (hu : executeCommand cmds { s with term := t } = printPrompt u)
          (hgood : ShellGood u) : ∃ s', executeCommand cmds { s with term := t } = .ok s' ∧ ShellGood s' := by
        obtain ⟨s', hs', hgood', -⟩ := printPrompt_good hgood
        exact ⟨s', hu.trans hs', hgood'⟩
      obtain ⟨-, u, hu, hgood, -⟩ | ⟨-, hhalt | ⟨u, hu, hgood, -⟩⟩ :=
        executeCommand_cases (s := { s with term := t }) ⟨h.shell, hinv⟩ cmds
      · exact .inl (hprompt u hu hgood)
      · exact .inr hhalt
      · exact .inl (hprompt u hu hgood)
    · obtain ⟨t, sh, t', -, hinv, hsh, he, -, hputs⟩ := handleKey_edit h cmds k.code_ne hnl
      exact .inl ⟨_, he, hsh, terminalPuts_keeps hinv hputs⟩
  | historyUp =>
    have hmove := shellHistoryUp_ok h
    split_ifs at hmove
    · exact .inl (hmove.good h)
    · exact .inl ⟨s, hmove, h⟩
  | historyDown =>
    have hmove := shellHistoryDown_ok h
    split_ifs at hmove
    · exact .inl (hmove.good h)
    · exact .inl ⟨s, hmove, h⟩
  | scroll op scrolls =>
    obtain ⟨t, ht, hinv⟩ := termStep_inv h.term scrolls.forward
    have hstep : shellStep cmds s (.scroll op scrolls) = .ok { s with term := t } := by
      simp only [shellStep, ht]
      rfl
    exact .inl ⟨_, hstep, h.shell, hinv⟩

theorem shellStep_keeps_good (h : ShellGood s) {op : ShellOp} (he : shellStep cmds s op = .ok s') :
    ShellGood s' := by
  obtain ⟨t, ht, hgood⟩ | hhalt := shellStep_good h cmds op
  · rwa [← Except.ok.inj (ht.symm.trans he)]
  · rw [hhalt] at he
    cases he

theorem HoldsLine.ended_at {a : ℕ → UInt8} {idx : ℕ} (h : HoldsLine a idx) : ∃ i < 128, a i = 0 := by
  refine ⟨_, h.ended, ?_⟩
  rw [holdsString_readString h.ended _ le_rfl]
  simp

theorem ShellInv.inRange {sh : Shell} (h : ShellInv sh) : ShellInRange sh :=
  ⟨h.idx_le, h.line.ended_at, h.saved.ended_at, h.index_range⟩

/-- A copy of a string that begins with a line begins with the same line. -/
theorem HoldsLine.copied {a dest d : ℕ → UInt8} {idx : ℕ} {src : CString} (h : HoldsLine a idx)
    (hsrc : cString maxBuffer a = .ok src) (hd : shStrcpy dest src = .ok d) : lineOf d idx = lineOf a idx := by
  obtain ⟨d', hd', -, hline, -⟩ := h.copy dest
  rw [cString_ok h.ended] at hsrc
  rw [← Except.ok.inj hsrc] at hd
  rwa [← Except.ok.inj (hd'.symm.trans hd)]

/-- The line comes back at the end of a walk. -/
theorem ShellGood.restoresLine (h : ShellGood s) (cmds : Commands ω) : RestoresLine cmds s := by
  intro s₁ hup hout hin moves s₂ hr hsteps s₃ hdown hback
  -- the first step saves the line
  have hstep : shellStep cmds s .historyUp = .ok s₁ := hup
  have hgood₁ : ShellGood s₁ := shellStep_keeps_good h hstep
  have hsaved : lineOf s₁.shell.savedBuffer s₁.shell.savedBufIdx = inputLine s.shell ∧
      s₁.shell.savedBufIdx = s.shell.bufIdx := by
    obtain rfl | ⟨-, src, saved, hsrc, hcopy, hbuffer, hidx⟩ | ⟨hin', -⟩ := shellHistoryUp_cases hup
    · exact absurd hout hin
    · rw [hbuffer, hidx]
      exact ⟨h.shell.line.copied hsrc hcopy, rfl⟩
    · exact absurd hout hin'
  -- the walk keeps it
  have hwalk : ShellGood s₂ ∧ (s₂.shell.historyIndex ≠ -1 → SameSaved s₁.shell s₂.shell) := by
    refine run_of_allReturned
      (I := fun t => ShellGood t ∧ (t.shell.historyIndex ≠ -1 → SameSaved s₁.shell t.shell))
      ⟨hgood₁, fun _ => ⟨rfl, rfl⟩⟩ ?_
      (allReturned_of_allSteps (hsteps.of_prefix (List.prefix_append ..))) hr
    rintro t op t' ⟨hgood, hsame⟩ ⟨hin, hop⟩ ht
    refine ⟨shellStep_keeps_good hgood ht, fun hin' => ?_⟩
    have hstep := step_saved hin hop ht hin'
    exact ⟨hstep.buffer.trans (hsame hin).buffer, hstep.idx.trans (hsame hin).idx⟩
  -- and the last step takes it back
  have hin₂ : s₂.shell.historyIndex ≠ -1 := (hsteps moves .historyDown List.prefix_rfl s₂ hr).1
  have hsame := hwalk.2 hin₂
  obtain ⟨hout₂, -⟩ | ⟨hnext, hindex, -⟩ | ⟨-, src, dest, hsrc, hcopy, hbuffer, hidx⟩ := shellHistoryDown_cases hdown
  · exact absurd hout₂ hin₂
  · have hrange := hwalk.1.shell.index_range
    omega
  · have hline := hwalk.1.shell.saved.copied hsrc hcopy
    refine ⟨?_, ?_⟩
    · rw [hidx, hsame.idx, hsaved.2]
    · show lineOf s₃.shell.buffer s₃.shell.bufIdx = _
      rw [hbuffer, hidx, hline, hsame.buffer, hsame.idx, hsaved.1]

end Moves

/-- **In every state that keys, history moves and scrolls reach after `init_shell`, the data of the shell are in
range and a walk through the history that starts there restores the line. No call leaves an array: a run
stops only at a command that does not return.** -/
theorem history_navigation {ω : Type} {s₀ : ShellSys ω} (cmds : Commands ω) (h₀ : AfterInit s₀)
    (ops : List ShellOp) :
    Whenever (shellStep cmds) s₀ (fun s => ShellInRange s.shell ∧ RestoresLine cmds s) ops ∧
      ∀ e, run (shellStep cmds) s₀ ops = .error e → e = .halted := by
  have hgood₀ := (afterInit_good h₀).1
  constructor
  · intro pre hpre s hr
    have hgood : ShellGood s := run_inv (fun _ _ _ hgood ht => shellStep_keeps_good hgood ht) hgood₀ hr
    exact ⟨hgood.shell.inRange, hgood.restoresLine cmds⟩
  · intro e he
    exact run_error (fun s op hgood => shellStep_good hgood cmds op) hgood₀ he

/-- A walk through the history with an unknown command in it, from a line with one letter. -/
theorem history_navigation_one_letter :
    ∃ s₀ : ShellSys Unit, AfterInit s₀ ∧
      Whenever (shellStep basicCommands) s₀ (fun s => ShellInRange s.shell ∧ RestoresLine basicCommands s)
        [.key ⟨97, by decide⟩, .key ⟨10, by decide⟩, .key ⟨98, by decide⟩, .historyUp, .historyDown] := by
  obtain ⟨s₀, h₀⟩ := exists_afterInit ()
  exact ⟨s₀, h₀, (history_navigation basicCommands h₀ _).1⟩

end RtosKernel
