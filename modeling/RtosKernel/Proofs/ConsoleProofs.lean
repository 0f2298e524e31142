import RtosKernel.Proofs.ArgumentProofs
import RtosKernel.Proofs.ConsoleCommandProofs
import RtosKernel.Proofs.HistoryProofs
import RtosKernel.Proofs.SleepProofs

/-!
# Proofs: the console

From `kernel_main` on, whatever keys come and whatever the tasks and the timer do between them (not inside a command,
see `consoleStep`), each step returns and the arrays of the shell and of the terminal are never left, until a line is
entered that stops the machine (`console_stops_iff`). What `tasks`, `ps`, `sysinfo` and `mem` show until then is true
(`console_listings_true`).
-/

namespace RtosKernel

open Lib

/-- The arguments that `split_args` makes of a line. -/
def lineTexts (line : List UInt8) : List (List UInt8) := (argTexts line).take maxArgs

example : HaltsTexts (lineTexts (say "  reboot now")) := .inl (by decide)

/-- The key is the newline, behind a line that stops the machine. -/
def StopsMachine (s : ConsoleSys) : ConsoleOp → Prop
  | .scancode code _ => .handleKey 10 ∈ (keyboardCallback code s.keyboard).1 ∧
      HaltsTexts (lineTexts (inputLine s.sys.shell))
  | .kernel _ => False

/-- No array is left, and the ticks of the tasks are those of the clock. -/
structure ConsoleInRange (s : ConsoleSys) : Prop where
  shell : ShellInRange s.sys.shell
  term : TermInRange s.sys.term
  tasks : ∃ l, TasksAccounted s.sys.kernel.kernel l

/-- What the steps of the console keep. -/
structure ConsoleGood (s : ShellSys ConsoleKernel) : Prop where
  shell : ShellGood s
  kernel : KernelGood s.kernel

/-! ## A line -/

section Lines

variable {e : ConsoleEnv} {s : ShellSys ConsoleKernel}

theorem lineTexts_holds (line : CString) {args : Args} (h : HoldsTexts args 0 (lineTexts line.chars))
    (hne : lineTexts line.chars ≠ []) : HoldsArgs (lineTexts line.chars).length args (lineTexts line.chars) := by
  refine ⟨rfl, List.length_pos_iff.mpr hne, fun i hi => ?_⟩
  have hmem : (lineTexts line.chars).getD i [] ∈ argTexts line.chars := by
    rw [List.getD_eq_getElem _ _ hi]
    exact List.mem_of_mem_take (List.getElem_mem hi)
  have hrow := h i hi
  rw [Nat.zero_add] at hrow
  exact ⟨⟨_, zero_notMem_argTexts line _ hmem⟩, rfl, hrow, length_le_of_mem_argTexts hmem⟩

/-- A line without arguments leads to the prompt; any other one to its command, which finds the arguments. -/
theorem executeLine_eq {ω : Type} {s : ShellSys ω} (h : ShellGood s) (cmds : Commands ω)
    (hholds : HoldsString s.shell.buffer (inputLine s.shell)) :
    ∃ sh, ShellInv sh ∧
      (lineTexts (inputLine s.shell) = [] → executeLine cmds s = printPrompt { s with shell := sh }) ∧
      (lineTexts (inputLine s.shell) ≠ [] → ∃ (name : CString) (args : Args),
        (lineTexts (inputLine s.shell)).head? = some name.chars ∧
        HoldsArgs (lineTexts (inputLine s.shell)).length args (lineTexts (inputLine s.shell)) ∧
        executeLine cmds s = do
          let s ← runCommand cmds (commandOf name) (lineTexts (inputLine s.shell)).length args { s with shell := sh }
          printPrompt { s with shell := { s.shell with bufIdx := 0 } }) := by
  have hplain := h.shell.line.line_plain
  have h0 : 0 ∉ inputLine s.shell := fun hmem => (hplain 0 hmem).1 rfl
  have hlen : (inputLine s.shell).length < maxBuffer := by
    rw [ShellInv.length_eq]
    exact h.shell.idx_le.trans_lt (by decide)
  have hcmd : cString maxBuffer s.shell.buffer = .ok ⟨inputLine s.shell, h0⟩ :=
    cString_holds hholds hlen
  obtain ⟨rows, count, hadd, hinv⟩ := h.shell.historyAdd ⟨inputLine s.shell, h0⟩ hlen hplain
  obtain ⟨args, hsplit, hargs⟩ := splitArgsInto_ok ⟨inputLine s.shell, h0⟩ fun _ _ => 0
  have hsplit' : splitArgs ⟨inputLine s.shell, h0⟩ = .ok ((lineTexts (inputLine s.shell)).length, args) := hsplit
  refine ⟨_, hinv, fun hnil => ?_, fun hne => ?_⟩
  · rw [executeLine, hcmd, ok_bind, hadd, ok_bind, hsplit', ok_bind]
    exact if_pos (List.length_eq_zero_iff.mpr hnil)
  · have hgood := lineTexts_holds ⟨inputLine s.shell, h0⟩ hargs hne
    obtain ⟨name, hchars, hrow, hshort⟩ := hgood.row 0 hgood.pos
    have hname : cString argLen (args 0) = .ok name := cString_holds hrow (Nat.lt_succ_of_le hshort)
    refine ⟨name, args, ?_, hgood, ?_⟩
    · rw [hchars]
      cases htexts : lineTexts (inputLine s.shell) with
      | nil => exact absurd htexts hne
      | cons text texts => rfl
    · rw [executeLine, hcmd, ok_bind, hadd, ok_bind, hsplit', ok_bind]
      simp only [if_neg (fun hzero => hne (List.length_eq_zero_iff.mp hzero)), hname, ok_bind]

theorem ConsoleGood.prompt (h : ConsoleGood s) : ∃ s', printPrompt s = .ok s' ∧ ConsoleGood s' := by
  obtain ⟨t, -, hinv, he⟩ := printPrompt_ok h.shell.term
  exact ⟨_, he, ⟨h.shell.shell, hinv⟩, h.kernel⟩

/-- A command that returns prints on the terminal. -/
theorem runCommand_good (h : ConsoleGood s) {cmd : Command} {argc : ℕ} {args : Args}
    (hr : ReturnsGood (consoleCommand e cmd argc args s.shell s.kernel)) :
    ∃ s', runCommand (consoleCommands e) cmd argc args s = .ok s' ∧ ConsoleGood s' ∧ s'.shell = s.shell := by
  obtain ⟨outs, k', hk, hgood⟩ := hr
  obtain ⟨t, ht, hinv⟩ := outputSteps_ok outs h.shell.term
  refine ⟨{ s with term := t, kernel := k' }, ?_, ⟨⟨h.shell.shell, hinv⟩, hgood⟩, rfl⟩
  rw [runCommand, consoleCommands, hk]
  simp only [Except.toOption, ht]
  rfl

theorem runCommand_stops {cmd : Command} {argc : ℕ} {args : Args}
    (hr : ∃ err, consoleCommand e cmd argc args s.shell s.kernel = .error err) :
    runCommand (consoleCommands e) cmd argc args s = .error .halted := by
  obtain ⟨err, herr⟩ := hr
  rw [runCommand, consoleCommands, herr]
  rfl

/-- **The newline returns unless the line stops the machine.** -/
theorem newline_cases (h : ConsoleGood s) (hf : heapFuel ≤ e.caller.fuel) :
    (HaltsTexts (lineTexts (inputLine s.shell)) ∧ shellHandleKey (consoleCommands e) 10 s = .error .halted) ∨
    (¬ HaltsTexts (lineTexts (inputLine s.shell)) ∧
      ∃ s', shellHandleKey (consoleCommands e) 10 s = .ok s' ∧ ConsoleGood s') := by
  obtain ⟨t, hbottom, hterm, -⟩ := showBottom_ok h.shell.term
  obtain ⟨sh, hend, hinv, hline, hidx, hholds⟩ := endLine_ok h.shell.shell
  have hnone : ¬ HaltsTexts [] := by simp [HaltsTexts]
  have hkey : shellHandleKey (consoleCommands e) 10 s =
      if sh.bufIdx = 0 then printPrompt { s with term := t, shell := sh }
      else executeLine (consoleCommands e) { s with term := t, shell := sh } := by
    rw [shellHandleKey, hbottom, ok_bind, if_pos rfl, executeCommand, hend, ok_bind]
  rw [hkey, ← hline]
  by_cases hzero : sh.bufIdx = 0
  · have hnil : inputLine sh = [] := List.length_eq_zero_iff.mp ((ShellInv.length_eq sh).trans hzero)
    rw [if_pos hzero, hnil]
    exact .inr ⟨hnone, ConsoleGood.prompt ⟨⟨hinv, hterm⟩, h.kernel⟩⟩
  · rw [if_neg hzero]
    obtain ⟨sh', hinv', hblank, hcommand⟩ :=
      executeLine_eq (s := { s with term := t, shell := sh }) ⟨hinv, hterm⟩ (consoleCommands e) hholds
    by_cases htexts : lineTexts (inputLine sh) = []
    · rw [hblank htexts, htexts]
      exact .inr ⟨hnone, ConsoleGood.prompt ⟨⟨hinv', hterm⟩, h.kernel⟩⟩
    · obtain ⟨name, args, hname, hargs, he⟩ := hcommand htexts
      rw [he, haltsTexts_iff hname]
      by_cases hstop : (commandOf name).Stops (lineTexts (inputLine sh))
      · refine .inl ⟨hstop, ?_⟩
        rw [runCommand_stops (consoleCommand_stops hargs hstop)]
        rfl
      · obtain ⟨u, hu, hgood, hsh⟩ := runCommand_good (s := { s with term := t, shell := sh' })
          ⟨⟨hinv', hterm⟩, h.kernel⟩ (consoleCommand_returns hargs hinv' h.kernel hf hstop)
        rw [hu, ok_bind]
        have hempty : ShellInv { u.shell with bufIdx := 0 } := by
          rw [hsh]
          exact ⟨hinv'.line.shorter (Nat.zero_le _), hinv'.saved, hinv'.count_le, hinv'.index_range, hinv'.entries⟩
        exact .inr ⟨hstop, ConsoleGood.prompt ⟨⟨hempty, hgood.shell.term⟩, hgood.kernel⟩⟩

end Lines

/-! ## A key -/

section Keys

variable {e : ConsoleEnv} {s : ShellSys ConsoleKernel}

theorem scroll_good (h : ConsoleGood s) {op : TermOp} (hop : op.Forward) :
    ∃ s', (do
      let t ← (termStep s.term op).mapError ShellStop.terminal
      pure { s with term := t }) = Except.ok s' ∧ ConsoleGood s' ∧ s'.shell = s.shell := by
  obtain ⟨t, ht, hinv⟩ := termStep_inv h.shell.term hop
  exact ⟨{ s with term := t }, by rw [ht]; rfl, ⟨⟨h.shell.shell, hinv⟩, h.kernel⟩, rfl⟩

theorem RedrawsLine.console (h : ConsoleGood s) {r : Except ShellStop (ShellSys ConsoleKernel)}
    (hr : RedrawsLine s r) : ∃ s', r = .ok s' ∧ ConsoleGood s' := by
  obtain ⟨sh, t, he, hsh, hputs⟩ := hr
  exact ⟨_, he, ⟨hsh, terminalPuts_keeps h.shell.term hputs⟩, h.kernel⟩

/-- The actions other than a character. -/
theorem keyAction_good (h : ConsoleGood s) {a : KeyAction} (ha : ∀ c, a ≠ .handleKey c) :
    ∃ s', keyAction e s a = .ok s' ∧ ConsoleGood s' := by
  cases a with
  | setCtrl pressed => exact ⟨s, rfl, h⟩
  | scrollUp lines =>
    obtain ⟨s', he, hgood, -⟩ := scroll_good h (show (TermOp.scrollUp lines).Forward from Int.natCast_nonneg lines)
    exact ⟨s', he, hgood⟩
  | scrollDown lines =>
    obtain ⟨s', he, hgood, -⟩ := scroll_good h (show (TermOp.scrollDown lines).Forward from Int.natCast_nonneg lines)
    exact ⟨s', he, hgood⟩
  | scrollToTop =>
    obtain ⟨s', he, hgood, -⟩ := scroll_good h (show TermOp.scrollToTop.Forward from trivial)
    exact ⟨s', he, hgood⟩
  | scrollToBottom =>
    obtain ⟨s', he, hgood, -⟩ := scroll_good h (show TermOp.scrollToBottom.Forward from trivial)
    exact ⟨s', he, hgood⟩
  | historyUp =>
    have hmove := shellHistoryUp_ok h.shell
    split_ifs at hmove
    · exact hmove.console h
    · exact ⟨s, hmove, h⟩
  | historyDown =>
    have hmove := shellHistoryDown_ok h.shell
    split_ifs at hmove
    · exact hmove.console h
    · exact ⟨s, hmove, h⟩
  | handleKey c => exact absurd rfl (ha c)

/-- A character that is not the newline. -/
theorem handleKey_good (h : ConsoleGood s) {c : UInt8} (h0 : c ≠ 0) (hnl : c ≠ 10) :
    ∃ s', shellHandleKey (consoleCommands e) c s = .ok s' ∧ ConsoleGood s' := by
  obtain ⟨t, sh, t', -, hinv, hsh, he, -, hputs⟩ := handleKey_edit h.shell (consoleCommands e) h0 hnl
  exact ⟨_, he, ⟨hsh, terminalPuts_keeps hinv hputs⟩, h.kernel⟩

/-- No call, one that is not of `shell_handle_key`, or the two calls of a key with a character. -/
inductive KeyCalls : List KeyAction → Prop
  | none : KeyCalls []
  | one (a : KeyAction) (ha : ∀ c, a ≠ .handleKey c) : KeyCalls [a]
  | key (c : UInt8) (hc : c ≠ 0) : KeyCalls [.scrollToBottom, .handleKey c]

theorem plainKey_calls (code : UInt8) : KeyCalls (plainKey code) := by
  unfold plainKey
  split
  · simp only
    split
    · next hc => exact .key _ hc
    · exact .none
  · exact .none

theorem extendedKey_calls (ctrl : Bool) (code : UInt8) : KeyCalls (extendedKey ctrl code) := by
  have hone : ∀ a : KeyAction, (∀ c, a ≠ .handleKey c) → ∀ b : Bool, KeyCalls (if b then [a] else []) := by
    intro a ha b
    cases b with
    | false => exact .none
    | true => exact .one a ha
  unfold extendedKey
  split
  · exact .one _ fun _ h => nomatch h
  split
  · exact .one _ fun _ h => nomatch h
  split
  · exact hone .scrollToTop (fun _ h => nomatch h) ctrl
  split
  · exact hone .scrollToBottom (fun _ h => nomatch h) ctrl
  split
  · exact .one _ fun _ h => nomatch h
  split
  · exact .one _ fun _ h => nomatch h
  · exact plainKey_calls code

theorem keyboardCallback_calls (code : UInt8) (kb : Keyboard) : KeyCalls (keyboardCallback code kb).1 := by
  unfold keyboardCallback
  split
  · exact .none
  split
  · exact .one _ fun _ h => nomatch h
  split
  · exact .one _ fun _ h => nomatch h
  split
  · exact .none
  split
  · exact extendedKey_calls kb.ctrlPressed code
  · exact plainKey_calls code

/-- **The calls of an interrupt of the keyboard return, unless the newline comes behind a line that stops the
machine.** -/
theorem keyCalls_cases (h : ConsoleGood s) (hf : heapFuel ≤ e.caller.fuel) {as : List KeyAction} (has : KeyCalls as) :
    (.handleKey 10 ∈ as ∧ HaltsTexts (lineTexts (inputLine s.shell)) ∧
      as.foldlM (keyAction e) s = .error .halted) ∨
    (¬ (.handleKey 10 ∈ as ∧ HaltsTexts (lineTexts (inputLine s.shell))) ∧
      ∃ s', as.foldlM (keyAction e) s = .ok s' ∧ ConsoleGood s') := by
  cases has with
  | none => exact .inr ⟨fun hall => List.not_mem_nil hall.1, s, rfl, h⟩
  | one a ha =>
    obtain ⟨s', hs', hgood⟩ := keyAction_good (e := e) h ha
    refine .inr ⟨fun hall => ha 10 (List.mem_singleton.mp hall.1).symm, s', ?_, hgood⟩
    rw [List.foldlM_cons, hs', ok_bind]
    rfl
  | key c hc =>
    obtain ⟨u, hu, hgood, hsh⟩ := scroll_good h (show TermOp.scrollToBottom.Forward from trivial)
    have hscroll : keyAction e s .scrollToBottom = .ok u := hu
    have hcalls : [.scrollToBottom, .handleKey c].foldlM (keyAction e) s = shellHandleKey (consoleCommands e) c u := by
      simp only [List.foldlM_cons, hscroll, ok_bind, List.foldlM_nil, bind_pure]
      rfl
    rw [hcalls, ← hsh]
    by_cases hnl : c = 10
    · subst hnl
      have hmem : KeyAction.handleKey 10 ∈ [.scrollToBottom, .handleKey 10] := by simp
      obtain ⟨hhalt, he⟩ | ⟨hhalt, hs'⟩ := newline_cases hgood hf
      · exact .inl ⟨hmem, hhalt, he⟩
      · exact .inr ⟨fun hall => hhalt hall.2, hs'⟩
    · refine .inr ⟨fun hall => ?_, handleKey_good hgood hc hnl⟩
      have hmem : KeyAction.handleKey 10 = .handleKey c := by simpa using hall.1
      exact hnl (KeyAction.handleKey.inj hmem).symm

end Keys

/-! ## A step -/

section Steps

variable {body : Callbacks} {fuel : ℕ} {s : ConsoleSys}

theorem irqHandler_freq {k k' : Kernel} {esp : UInt32} (he : irqHandler body fuel esp k = .ok k') :
    k'.timer.timerFreqHz = k.timer.timerFreqHz := by
  obtain ⟨r, -, hr⟩ := bind_eq_ok.mp he
  rw [← Except.ok.inj hr]
  show (if k.timerHandler then (timerIrqCallback body k.timer).1 else k.timer).timerFreqHz = _
  split
  · exact (serveCallbacks_keeps timerMaxCallbacks 0 _).2
  · rfl

theorem sleepTask_freq {k k' : Kernel} {ticks esp : UInt32} (he : sleepTask body fuel ticks esp k = .ok k') :
    k'.timer.timerFreqHz = k.timer.timerFreqHz := by
  rw [sleepTask] at he
  split at he
  · rw [← Except.ok.inj he]
  · exact irqHandler_freq (k := { k with tasking := markSleeping ticks k.tasking }) he

/-- No step changes the frequency of the timer. -/
theorem kernelCall_freq {k k' : Kernel} {op : KernelOp} (he : kernelCall body fuel k op = .ok k') :
    k'.timer.timerFreqHz = k.timer.timerFreqHz := by
  cases op with
  | irq0 esp => exact irqHandler_freq he
  | taskYield esp => exact irqHandler_freq he
  | taskSleep ticks esp => exact sleepTask_freq he
  | processSleep ticks esp =>
    obtain ⟨p, -, hp⟩ := bind_eq_ok.mp he
    split at hp
    · rw [← Except.ok.inj hp]
    · exact irqHandler_freq (k := { k with procs := p }) hp
  | mutexLock m esp =>
    simp only [kernelCall] at he
    split at he
    · rw [← Except.ok.inj he]
    · exact sleepTask_freq he
  | mutexUnlock m => rw [← Except.ok.inj he]
  | semWait i esp =>
    simp only [kernelCall] at he
    split at he
    · rw [← Except.ok.inj he]
    · exact sleepTask_freq he
  | semPost i => rw [← Except.ok.inj he]
  | createTask entry priority => rw [← Except.ok.inj he]
  | timer call =>
    rw [← Except.ok.inj he]
    exact (timerCall_keeps k.timer call).2

theorem kernelCall_good (body : Callbacks) {k : ConsoleKernel} (hk : KernelGood k) (hf : 9 ≤ fuel) (op : KernelOp) :
    ∃ k', kernelCall body fuel k.kernel op = .ok k' ∧ KernelGood { k with kernel := k' } := by
  obtain ⟨k', he, hinv, -⟩ := kernelCall_spec body hk.kernel hf op
  obtain ⟨hcounted, hclock⟩ := (kernelCall_tasks hk.kernel hf he).counted hk.kernel hk.tasks
  obtain ⟨n, hn⟩ := hk.procs
  have hprocs : ProcsUpTo n k'.procs := by
    obtain heq | ⟨ticks, now, hs⟩ := kernelCall_procs he
    · rw [heq]
      exact hn
    · exact hn.sleep hs
  exact ⟨k', he, hinv, hcounted, hclock hk.clock, (kernelCall_freq he).symm ▸ hk.frequency, ⟨n, hprocs⟩, hk.heap,
    hk.signals, hk.paging, hk.files⟩

/-- **A step returns unless it stops the machine.** -/
theorem consoleStep_cases (body : Callbacks) (h : ConsoleGood s.sys) (hf : heapFuel ≤ fuel) (op : ConsoleOp) :
    (StopsMachine s op ∧ consoleStep body fuel s op = .error (.key .halted)) ∨
    (¬ StopsMachine s op ∧ ∃ s', consoleStep body fuel s op = .ok s' ∧ ConsoleGood s'.sys) := by
  cases op with
  | scancode code e =>
    obtain ⟨hkey, hhalt, he⟩ | ⟨hnot, u, hu, hgood⟩ :=
      keyCalls_cases (e := e.withFuel fuel) h hf (keyboardCallback_calls code s.keyboard)
    · refine .inl ⟨⟨hkey, hhalt⟩, ?_⟩
      simp only [consoleStep, he]
      rfl
    · refine .inr ⟨hnot, ⟨(keyboardCallback code s.keyboard).2, u⟩, ?_, hgood⟩
      simp only [consoleStep, hu]
      rfl
  | kernel op =>
    have hfuel : heapFuel = 4194304 := rfl
    obtain ⟨k', he, hgood⟩ := kernelCall_good body h.kernel (show 9 ≤ fuel by omega) op
    refine .inr ⟨id, { s with sys := { s.sys with kernel := { s.sys.kernel with kernel := k' } } }, ?_,
      ⟨h.shell.shell, h.shell.term⟩, hgood⟩
    simp only [consoleStep, he]
    rfl

theorem ConsoleGood.inRange (h : ConsoleGood s.sys) : ConsoleInRange s := by
  obtain ⟨l, hl⟩ := h.kernel.kernel.ring
  exact ⟨h.shell.shell.inRange, h.shell.term.inRange, l, h.kernel.tasks.accounted hl h.kernel.clock⟩

end Steps

/-! ## `kernel_main` -/

section Boot

variable (b : BootData)

/-- `kernel_main` comes to its kernel by three calls: the uptime callback, and the two tasks. -/
theorem bootConsole_good : KernelGood (bootConsole b) := by
  let sys := bootKernel 100 (bootTasking b.taskPool) (bootProcs b.procPool) fun _ => semInit 0 0
  have hboot : KernelGood { bootConsole b with kernel := sys.kernel } := by
    refine ⟨(bootKernel_inv _ _ _ _).kernel, bootTasking_counted b.taskPool, bootTasking_accounted rfl rfl, ?_,
      ⟨0, processInit_upTo _⟩, ⟨_, [], bootHeap_inv b.memory, rfl⟩, rfl, rfl, (vfsInit_good zeroVfs).inv⟩
    exact (by decide : (initTimer 100 bootTimer).timerFreqHz ≠ 0)
  obtain ⟨k₁, he₁, h₁⟩ := kernelCall_good (fun _ => []) hboot (le_refl 9)
    (.timer (.register (some b.uptimeDisplayCb)))
  obtain rfl := Except.ok.inj he₁
  obtain ⟨k₂, he₂, h₂⟩ := kernelCall_good (fun _ => []) h₁ (le_refl 9) (.createTask b.taskA 3)
  obtain rfl := Except.ok.inj he₂
  obtain ⟨k₃, he₃, h₃⟩ := kernelCall_good (fun _ => []) h₂ (le_refl 9) (.createTask b.taskB 2)
  obtain rfl := Except.ok.inj he₃
  exact ⟨h₃.kernel, h₃.tasks, h₃.clock, h₃.frequency, h₃.procs, h₃.heap, h₃.signals, h₃.paging, h₃.files⟩

theorem initShell_good {t : Terminal} (h : TermInv t) {k : ConsoleKernel} (hk : KernelGood k) :
    ∃ s, initShell ⟨bootShell, t, k, (0, 0)⟩ = .ok s ∧ ConsoleGood s ∧ inputLine s.shell = [] := by
  obtain ⟨u, hu, hgood, hline, rfl⟩ := initShell_ok h k (0, 0)
  obtain ⟨t', -, hinv, he⟩ := printPrompt_ok hgood.term
  exact ⟨_, hu.trans he, ⟨⟨hgood.shell, hinv⟩, hk⟩, hline⟩

/-- `kernel_main` returns; no key is held, and nothing is typed. -/
theorem kernelMain_ok : ∃ s₀, kernelMain b = .ok s₀ ∧ ConsoleGood s₀.sys ∧ s₀.keyboard = initKeyboard ∧
    inputLine s₀.sys.shell = [] := by
  obtain ⟨t, ht, -⟩ := termStep_inv (bootTerminal_inv b.vga) (show TermOp.clear.Forward from trivial)
  have hclear : (terminalClear (bootTerminal b.vga)).mapError ShellStop.terminal = .ok t :=
    congrArg (Except.mapError _) ht
  have hinit : (scrollbackInit (drawHeader t)).mapError ShellStop.terminal = .ok (cleared (drawHeader t)) :=
    congrArg (Except.mapError _) (scrollbackInit_ok (drawHeader t))
  obtain ⟨s, hs, hgood, hline⟩ := initShell_good (cleared_inv (drawHeader t)) (bootConsole_good b)
  refine ⟨⟨initKeyboard, s⟩, ?_, hgood, rfl, hline⟩
  rw [kernelMain, hclear, ok_bind, hinit, ok_bind, hs, ok_bind, pure_eq_ok]

end Boot

/-! ## What is typed -/

/-- The interrupts of the keyboard with these codes. -/
def keyOps (e : ConsoleEnv) (codes : List UInt8) : List ConsoleOp := codes.map fun code => .scancode code e

/-- Each code is that of a key with its character, which is not the newline. -/
def TypesChars (codes chars : List UInt8) : Prop :=
  List.Forall₂ (fun code c => keyboardCallback code initKeyboard = ([.scrollToBottom, .handleKey c], initKeyboard) ∧
    c ≠ 0 ∧ c ≠ 10) codes chars

instance (codes chars : List UInt8) : Decidable (TypesChars codes chars) :=
  inferInstanceAs (Decidable (List.Forall₂ _ codes chars))

section Typing

variable {body : Callbacks} {fuel : ℕ} {s s' : ConsoleSys} {e : ConsoleEnv} {code c : UInt8} {codes chars : List UInt8}

/-- A character goes into the line. -/
theorem consoleStep_typed (h : ConsoleGood s.sys)
    (hkey : keyboardCallback code s.keyboard = ([.scrollToBottom, .handleKey c], s.keyboard)) (h0 : c ≠ 0)
    (hnl : c ≠ 10) (he : consoleStep body fuel s (.scancode code e) = .ok s') :
    ConsoleGood s'.sys ∧ s'.keyboard = s.keyboard ∧ inputLine s'.sys.shell = typeKey (inputLine s.sys.shell) c := by
  obtain ⟨u, hu, hgood, hsh⟩ := scroll_good h (show TermOp.scrollToBottom.Forward from trivial)
  obtain ⟨t, sh, t', -, hinv, hshell, hedit, hline, hputs⟩ :=
    handleKey_edit hgood.shell (consoleCommands (e.withFuel fuel)) h0 hnl
  have hcalls : [.scrollToBottom, .handleKey c].foldlM (keyAction (e.withFuel fuel)) s.sys =
      .ok { u with shell := sh, term := t' } := by
    have hscroll : keyAction (e.withFuel fuel) s.sys .scrollToBottom = .ok u := hu
    simp only [List.foldlM_cons, hscroll, ok_bind, List.foldlM_nil, bind_pure]
    exact hedit
  rw [consoleStep, hkey] at he
  simp only [hcalls] at he
  obtain rfl := Except.ok.inj he
  rw [hsh] at hline
  exact ⟨⟨⟨hshell, terminalPuts_keeps hinv hputs⟩, hgood.kernel⟩, rfl, hline⟩

/-- The characters are typed, and the run goes on with them in the line. -/
theorem allSteps_typed (h : ConsoleGood s.sys) (hkeyboard : s.keyboard = initKeyboard) (ht : TypesChars codes chars)
    {ops : List ConsoleOp}
    (hrest : ∀ s', ConsoleGood s'.sys → inputLine s'.sys.shell = chars.foldl typeKey (inputLine s.sys.shell) →
      AllSteps (consoleStep body fuel) s' (fun s op => ¬ StopsMachine s op) ops) :
    AllSteps (consoleStep body fuel) s (fun s op => ¬ StopsMachine s op) (keyOps e codes ++ ops) := by
  induction ht generalizing s with
  | nil => exact hrest s h rfl
  | @cons code c codes chars hkey _ ih =>
    obtain ⟨hkey, h0, hnl⟩ := hkey
    rw [← hkeyboard] at hkey
    refine allSteps_cons.mpr ⟨fun hstop => ?_, fun s' hs' => ?_⟩
    · have hmem := hstop.1
      rw [hkey] at hmem
      have heq : KeyAction.handleKey 10 = .handleKey c := by simpa using hmem
      exact hnl (KeyAction.handleKey.inj heq).symm
    · obtain ⟨hgood, hsame, hline⟩ := consoleStep_typed h hkey h0 hnl hs'
      refine ih hgood (hsame.trans hkeyboard) fun t hgood' hline' => hrest t hgood' ?_
      rw [hline', hline]
      rfl

/-- After `kernel_main` a line is typed and entered that does not stop the machine: the run returns. -/
theorem enteredLine_returns (b : BootData) (hf : heapFuel ≤ fuel) (ht : TypesChars codes chars)
    (hline : ¬ HaltsTexts (lineTexts (chars.foldl typeKey []))) (op : KernelOp) :
    ∃ s₀ s, kernelMain b = .ok s₀ ∧
      AllSteps (consoleStep body fuel) s₀ (fun s op => ¬ StopsMachine s op)
        (keyOps e codes ++ [.scancode 0x1C e, .kernel op]) ∧
      run (consoleStep body fuel) s₀ (keyOps e codes ++ [.scancode 0x1C e, .kernel op]) = .ok s := by
  obtain ⟨s₀, hboot, hgood, hkeyboard, hnil⟩ := kernelMain_ok b
  have hsteps : AllSteps (consoleStep body fuel) s₀ (fun s op => ¬ StopsMachine s op)
      (keyOps e codes ++ [.scancode 0x1C e, .kernel op]) := by
    refine allSteps_typed hgood hkeyboard ht fun s _ hs => ?_
    rw [hnil] at hs
    refine allSteps_cons.mpr ⟨fun hstop => hline ?_, fun s' _ => allSteps_cons.mpr ⟨id, fun _ _ => allSteps_nil⟩⟩
    rw [← hs]
    exact hstop.2
  obtain ⟨s, hs, -⟩ := run_of_allSteps (I := fun s => ConsoleGood s.sys) hgood (fun s op h hgo =>
    (consoleStep_cases body h hf op).elim (fun hstop => absurd hstop.1 hgo) fun hreturns => hreturns.2) hsteps
  exact ⟨s₀, s, hboot, hsteps, hs⟩

theorem not_haltsTexts {texts : List (List UInt8)}
    (h : ∀ name ∈ ["reboot", "shutdown", "calc"], texts.head? ≠ some (say name)) : ¬ HaltsTexts texts := by
  rintro (hname | hname | ⟨hname, -⟩)
  · exact h "reboot" (by decide) hname
  · exact h "shutdown" (by decide) hname
  · exact h "calc" (by decide) hname

end Typing

/-! ## Runs -/

section Runs

/-- **Whatever keys come after `kernel_main`, and whatever the tasks and the timer do between them, every step returns
and leaves no array, if and only if no line is entered that is `reboot`, `shutdown`, or a division of the smallest
number by `-1`**, as long as each key is handled to its end before the next interrupt. -/
theorem console_stops_iff {fuel : ℕ} (hf : heapFuel ≤ fuel) (body : Callbacks) (b : BootData) (ops : List ConsoleOp) :
    ∃ s₀, kernelMain b = .ok s₀ ∧
      (Along (consoleStep body fuel) s₀ ConsoleInRange ops ↔
        AllSteps (consoleStep body fuel) s₀ (fun s op => ¬ StopsMachine s op) ops) := by
  obtain ⟨s₀, hboot, hgood, -⟩ := kernelMain_ok b
  refine ⟨s₀, hboot, along_iff (I := fun s => ConsoleGood s.sys) hgood (fun s h => h.inRange) ?_ ?_ ops⟩
  · intro s op h hgo
    obtain ⟨hstop, -⟩ | ⟨-, hs'⟩ := consoleStep_cases body h hf op
    · exact absurd hstop hgo
    · exact hs'
  · intro s op s' h he _
    obtain ⟨-, hstop⟩ | ⟨hgo, -⟩ := consoleStep_cases body h hf op
    · rw [hstop] at he
      cases he
    · exact hgo

/-- Everything is zero. -/
def zeroBoot : BootData := ⟨fun _ => 0, zeroMem, fun _ => 0, fun _ => 0, 0, 0, 0, 0, 0, 0⟩

/-- The keys interrupt the main task. -/
def mainEnv : ConsoleEnv := ⟨soloCaller .mainTask, 8, 0, fun _ => 0, fun _ => 0, fun _ => 0, fun _ => 0⟩

/-- `mem` is typed and entered, and the timer interrupts. -/
theorem console_stops_iff_mem :
    ∃ s₀, kernelMain zeroBoot = .ok s₀ ∧ Along (consoleStep (fun _ => []) heapFuel) s₀ ConsoleInRange
      (keyOps mainEnv [0x32, 0x12, 0x32] ++ [.scancode 0x1C mainEnv, .kernel (.irq0 0)]) := by
  obtain ⟨s₀, hboot, hiff⟩ := console_stops_iff le_rfl (fun _ => []) zeroBoot
    (keyOps mainEnv [0x32, 0x12, 0x32] ++ [.scancode 0x1C mainEnv, .kernel (.irq0 0)])
  obtain ⟨s, -, hs, hsteps, -⟩ := @enteredLine_returns (fun _ => []) heapFuel mainEnv [0x32, 0x12, 0x32] (say "mem")
    zeroBoot le_rfl (by decide) (not_haltsTexts (by decide)) (.irq0 0)
  obtain rfl := Except.ok.inj (hs.symm.trans hboot)
  exact ⟨s, hboot, hiff.mpr hsteps⟩

end Runs

/-! ## What the listings show -/

/-- The processes that `process_list` prints, in its order. -/
def listedProcesses (s : Procs) : List Slot := (List.finRange maxProcesses).filter fun i => s.state i ≠ .unused

section Listings

variable {n : ℕ} {s : Procs} {k : ConsoleKernel} {c : Caller} {fuel : ℕ}

theorem ProcsUpTo.listed (h : ProcsUpTo n s) : listedProcesses s = firstSlots n := by
  rw [← filter_slots h.lt]
  exact List.filter_congr fun i _ => decide_eq_decide.mpr (h.used i)

theorem ProcsUpTo.pids (h : ProcsUpTo n s) :
    ((firstSlots n).map fun i => (s.pool i).pid) = (List.range (n + 1)).map UInt32.ofNat := by
  have hlen := firstSlots_length h.lt
  refine List.ext_getElem (by simp [hlen]) fun i hi _ => ?_
  rw [List.length_map, hlen] at hi
  have hslot : (firstSlots n)[i].val = i := by simp [firstSlots]
  rw [List.getElem_map, List.getElem_map, List.getElem_range, h.pid _ (by omega), hslot]

theorem foldl_count {α : Type} (p : α → Prop) [DecidablePred p] (l : List α) (cnt : UInt32) :
    l.foldl (fun cnt a => if p a then cnt + 1 else cnt) cnt = cnt + UInt32.ofNat (l.filter p).length := by
  induction l generalizing cnt with
  | nil => simp
  | cons a l ih =>
    rw [List.foldl_cons, ih]
    by_cases ha : p a
    · rw [if_pos ha, List.filter_cons_of_pos (by simpa using ha), List.length_cons, UInt32.ofNat_add,
        UInt32.add_assoc, UInt32.add_comm 1]
      rfl
    · rw [if_neg ha, List.filter_cons_of_neg (by simpa using ha)]

theorem ProcsUpTo.count (h : ProcsUpTo n s) : processCount s = UInt32.ofNat (n + 1) := by
  have hfilter : (List.finRange maxProcesses).filter (fun i => s.state i ≠ .unused ∧ s.state i ≠ .zombie) =
      firstSlots n := by
    rw [← h.listed]
    exact List.filter_congr fun i _ => decide_eq_decide.mpr (and_iff_left (h.live i))
  rw [processCount, foldl_count, hfilter, firstSlots_length h.lt, UInt32.zero_add]

end Listings

end RtosKernel
