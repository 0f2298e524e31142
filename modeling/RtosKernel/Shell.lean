import RtosKernel.Screen
import RtosKernel.Lib.Words

/-!
# The shell (`shell.c`)

The input line, the command history and `execute_command`. The characters that are typed are printed by the
terminal, one call of `terminal_putchar` for each. Accesses to the arrays of the shell are checked.

What the commands do is a parameter (`Commands`): the calls that they make to the terminal, and the rest of
the kernel after them. None of them touches the input line or the history.
-/

namespace RtosKernel

open Lib

/-- `MAX_BUFFER`, with the zero at the end of the line. -/
abbrev maxBuffer : ℕ := 128

/-- `MAX_ARGS`. -/
abbrev maxArgs : ℕ := 8

/-- `ARG_LEN`, with the zero. -/
abbrev argLen : ℕ := 32

/-- `HISTORY_SIZE`. -/
abbrev historySize : ℕ := 20

/-- Why a call of the shell does not return. -/
inductive ShellStop where
  | terminal (e : OutOfBounds)
  | outOfBounds (i : ℤ)
  /-- The command does not return. -/
  | halted
  deriving DecidableEq, Repr

/-- The static data of the shell; `test_alloc_ptr` belongs to the commands. -/
structure Shell where
  buffer : ℕ → UInt8
  bufIdx : ℕ
  commandHistory : ℕ → ℕ → UInt8
  historyCount : ℕ
  historyIndex : ℤ
  savedBuffer : ℕ → UInt8
  savedBufIdx : ℕ

/-- The static data at boot. -/
def bootShell : Shell :=
  { buffer := fun _ => 0, bufIdx := 0, commandHistory := fun _ _ => 0, historyCount := 0, historyIndex := -1,
    savedBuffer := fun _ => 0, savedBufIdx := 0 }

/-- The shell and the terminal, with the rest of the kernel and the place in the scrollback buffer, line and
column, where the last prompt ends. -/
structure ShellSys (ω : Type) where
  shell : Shell
  term : Terminal
  kernel : ω
  promptAt : ℤ × ℤ

/-! ## Strings -/

/-- The read of `a[i]`, for an array of `n` characters. -/
def getAt (n i : ℕ) (a : ℕ → UInt8) : Except ShellStop UInt8 :=
  if i < n then .ok (a i) else .error (.outOfBounds i)

/-- The store to `a[i]`. -/
def setAt (n i : ℕ) (c : UInt8) (a : ℕ → UInt8) : Except ShellStop (ℕ → UInt8) :=
  if i < n then .ok (Function.update a i c) else .error (.outOfBounds i)

/-- The string in an array of `n` characters. Its readers leave the array if it has no NUL. -/
def cString (n : ℕ) (a : ℕ → UInt8) : Except ShellStop CString :=
  if (readString n a).length < n then .ok ⟨readString n a, zero_notMem_readString n a⟩
  else .error (.outOfBounds n)

/-- `sh_strcmp`, from the two places on that are compared next. -/
def strcmpChars : List UInt8 → List UInt8 → ℤ
  | a :: as, b :: bs => if a = b then strcmpChars as bs else (a.toNat : ℤ) - b.toNat
  | a :: _, [] => a.toNat
  | [], b :: _ => -(b.toNat : ℤ)
  | [], [] => 0

/-- `sh_strcmp(a, b)`. -/
def shStrcmp (a b : CString) : ℤ := strcmpChars a.chars b.chars

/-- `sh_strlen(s)`. -/
def shStrlen (s : CString) : ℕ := s.chars.length

/-- `sh_strcpy`, into an array of `MAX_BUFFER` characters. -/
def shStrcpy (dest : ℕ → UInt8) (src : CString) : Except ShellStop (ℕ → UInt8) :=
  (List.range (src.chars.length + 1)).foldlM (fun dest i => setAt maxBuffer i (src.chars.getD i 0) dest) dest

/-! ## Printing -/

section

variable {ω : Type}

/-- `terminal_putchar`, called by the shell. -/
def shellPutchar (c : UInt8) (s : ShellSys ω) : Except ShellStop (ShellSys ω) := do
  let t ← (terminalPutchar c s.term).mapError .terminal
  pure { s with term := t }

/-- `print_str(str)`. -/
def shellPrintStr (str : CString) (s : ShellSys ω) : Except ShellStop (ShellSys ω) :=
  str.chars.foldlM (fun s c => shellPutchar c s) s

/-- `print_prompt()`. Where the prompt ends is noted for the specification. -/
def printPrompt (s : ShellSys ω) : Except ShellStop (ShellSys ω) := do
  let s ← shellPrintStr (.ofString "\nRTOS> ") s
  pure { s with promptAt := (s.term.head, s.term.termCol) }

/-- The loop of `clear_input_line`, with `buf_idx` passes. -/
def clearInput : ℕ → ShellSys ω → Except ShellStop (ShellSys ω)
  | 0, s => pure s
  | n + 1, s => do
    let s ← shellPutchar 8 s
    clearInput n { s with shell := { s.shell with bufIdx := n } }

/-- `clear_input_line()`: a backspace for each character of the line. -/
def clearInputLine (s : ShellSys ω) : Except ShellStop (ShellSys ω) := clearInput s.shell.bufIdx s

/-- `display_buffer()`. -/
def displayBuffer (s : ShellSys ω) : Except ShellStop (ShellSys ω) :=
  (List.range s.shell.bufIdx).foldlM (fun s i => do
    let c ← getAt maxBuffer i s.shell.buffer
    shellPutchar c s) s

end

/-! ## The history -/

/-- `command_history[i]`. -/
def historyRow (i : ℤ) (sh : Shell) : Except ShellStop (ℕ → UInt8) :=
  if 0 ≤ i ∧ i < historySize then .ok (sh.commandHistory i.toNat) else .error (.outOfBounds i)

/-- `sh_strcpy(command_history[i], src)`. -/
def setHistoryRow (i : ℤ) (src : CString) (sh : Shell) : Except ShellStop Shell := do
  let row ← historyRow i sh
  let row ← shStrcpy row src
  pure { sh with commandHistory := Function.update sh.commandHistory i.toNat row }

/-- The test of `history_add` for a repeated command. -/
def repeatsLast (cmd : CString) (sh : Shell) : Except ShellStop Bool :=
  if sh.historyCount > 0 then do
    let row ← historyRow (sh.historyCount - 1) sh
    let last ← cString maxBuffer row
    pure (decide (shStrcmp last cmd = 0))
  else pure false

/-- `history_add(cmd)`: an empty command and a repeated one are not kept; a full history loses its oldest entry. -/
def historyAdd (cmd : CString) (sh : Shell) : Except ShellStop Shell :=
  if shStrlen cmd = 0 then pure sh
  else do
    let same ← repeatsLast cmd sh
    if same then pure sh
    else if sh.historyCount < historySize then do
      let sh ← setHistoryRow sh.historyCount cmd sh
      pure { sh with historyCount := sh.historyCount + 1 }
    else do
      let sh ← (List.range (historySize - 1)).foldlM (fun sh (i : ℕ) => do
        let row ← historyRow (i + 1) sh
        let src ← cString maxBuffer row
        setHistoryRow i src sh) sh
      setHistoryRow (historySize - 1) cmd sh

section

variable {ω : Type}

/-- The entry of the history at `history_index` becomes the input line. -/
def recallEntry (sh : Shell) : Except ShellStop Shell := do
  let row ← historyRow sh.historyIndex sh
  let src ← cString maxBuffer row
  let buffer ← shStrcpy sh.buffer src
  let line ← cString maxBuffer buffer
  pure { sh with buffer := buffer, bufIdx := shStrlen line }

/-- `shell_history_up()`. The line that is typed is saved at the first step. -/
def shellHistoryUp (s : ShellSys ω) : Except ShellStop (ShellSys ω) :=
  if s.shell.historyCount = 0 then pure s
  else if s.shell.historyIndex = -1 then do
    let src ← cString maxBuffer s.shell.buffer
    let saved ← shStrcpy s.shell.savedBuffer src
    let s ← clearInputLine { s with
      shell := { s.shell with
        savedBuffer := saved, savedBufIdx := s.shell.bufIdx, historyIndex := s.shell.historyCount - 1 } }
    let sh ← recallEntry s.shell
    displayBuffer { s with shell := sh }
  else if s.shell.historyIndex > 0 then do
    let s ← clearInputLine { s with shell := { s.shell with historyIndex := s.shell.historyIndex - 1 } }
    let sh ← recallEntry s.shell
    displayBuffer { s with shell := sh }
  else pure s

/-- `shell_history_down()`. Behind the newest entry the saved line comes back. -/
def shellHistoryDown (s : ShellSys ω) : Except ShellStop (ShellSys ω) :=
  if s.shell.historyIndex = -1 then pure s
  else do
    let s ← clearInputLine s
    if s.shell.historyIndex < (s.shell.historyCount : ℤ) - 1 then do
      let sh ← recallEntry { s.shell with historyIndex := s.shell.historyIndex + 1 }
      displayBuffer { s with shell := sh }
    else do
      let src ← cString maxBuffer s.shell.savedBuffer
      let buffer ← shStrcpy s.shell.buffer src
      displayBuffer { s with
        shell := { s.shell with buffer := buffer, bufIdx := s.shell.savedBufIdx, historyIndex := -1 } }

end

/-! ## Commands -/

/-- The array `args` of `execute_command`. -/
abbrev Args := ℕ → ℕ → UInt8

/-- The store to `args[i][j]`. -/
def setArg (i j : ℕ) (c : UInt8) (args : Args) : Except ShellStop Args :=
  if i < maxArgs ∧ j < argLen then .ok (Function.update args i (Function.update (args i) j c))
  else .error (.outOfBounds (argLen * i + j))

/-- The inner loop of `split_args`: one argument, up to a blank or to its size. It gives the rest of the
string and `j`. -/
def copyArg (argc : ℕ) : List UInt8 → ℕ → Args → Except ShellStop (List UInt8 × ℕ × Args)
  | [], j, args => pure ([], j, args)
  | c :: cs, j, args =>
    if c ≠ 32 ∧ j < argLen - 1 then do
      let args ← setArg argc j c args
      copyArg argc cs (j + 1) args
    else pure (c :: cs, j, args)

/-- The outer loop of `split_args`, with `n` places left in `args`. -/
def splitLoop : ℕ → List UInt8 → ℕ → Args → Except ShellStop (ℕ × Args)
  | 0, _, argc, args => pure (argc, args)
  | _ + 1, [], argc, args => pure (argc, args)
  | n + 1, c :: cs, argc, args => do
    let (rest, j, args) ← copyArg argc (c :: cs) 0 args
    let args ← setArg argc j 0 args
    splitLoop n (rest.dropWhile (· = 32)) (argc + 1) args

/-- `split_args`: `argc` and the arguments. `args` is not initialised before; no argument from `argc` on is
read. -/
def splitArgs (cmd : CString) : Except ShellStop (ℕ × Args) :=
  splitLoop maxArgs (cmd.chars.dropWhile (· = 32)) 0 fun _ _ => 0

/-- The branches of `execute_command`. -/
inductive Command where
  | help | history | clear | uptime | ticks | sysinfo | logs | loglevel | logclear | pages | vmmap | ring
  | siglist | testsig | tasks | ps | spawn | mem | alloc | free | hexdump | ls | cat | echo | calc | sem | sys
  | reboot | shutdown | unknown
  deriving DecidableEq, Repr

/-- The names that `execute_command` compares with, in its order. -/
def commandNames : List (String × Command) :=
  [("help", .help), ("history", .history), ("clear", .clear), ("uptime", .uptime), ("ticks", .ticks),
    ("sysinfo", .sysinfo), ("logs", .logs), ("loglevel", .loglevel), ("logclear", .logclear),
    ("pages", .pages),
    ("vmmap", .vmmap), ("ring", .ring), ("siglist", .siglist), ("testsig", .testsig), ("tasks", .tasks),
    ("ps", .ps), ("spawn", .spawn), ("mem", .mem), ("alloc", .alloc), ("free", .free), ("hexdump", .hexdump),
    ("ls", .ls), ("cat", .cat), ("echo", .echo), ("calc", .calc), ("sem", .sem), ("sys", .sys),
    ("reboot", .reboot), ("shutdown", .shutdown)]

/-- The branch of `execute_command` that the name goes to. -/
def commandOf (name : CString) : Command :=
  match commandNames.find? fun p => shStrcmp name (.ofString p.1) = 0 with
  | some p => p.2
  | none => .unknown

/-- A call of the terminal by a command. -/
inductive Output where
  | putchar (c : UInt8)
  | clear
  | drawHeader

/-- What a command prints, on the terminal. -/
def outputStep (t : Terminal) : Output → Except OutOfBounds Terminal
  | .putchar c => terminalPutchar c t
  | .clear => terminalClear t
  | .drawHeader => pure (RtosKernel.drawHeader t)

/-- What the commands do, with their arguments, the data of the shell and the rest of the kernel: the calls of
the terminal and the kernel after them, or nothing if the command does not return. -/
abbrev Commands (ω : Type) := Command → ℕ → Args → Shell → ω → Option (List Output × ω)

/-- The branches of `execute_command` that only print: `clear`, `echo` and the last one. -/
def basicCommands : Commands Unit
  | .clear, _, _, _, kernel => some ([.clear, .drawHeader], kernel)
  | .echo, argc, args, _, kernel =>
    let words := (List.range (argc - 1)).map fun i => readString argLen (args (i + 1))
    some (((10 :: (words.intersperse [32]).flatten).map Output.putchar), kernel)
  | .unknown, _, args, _, kernel =>
    let text := (CString.ofString "\nUnknown: '").chars ++ readString argLen (args 0) ++
      (CString.ofString "'  (type 'help')").chars
    some (text.map Output.putchar, kernel)
  | _, _, _, _, _ => none

section

variable {ω : Type}

/-- A command, with what it prints. -/
def runCommand (cmds : Commands ω) (cmd : Command) (argc : ℕ) (args : Args) (s : ShellSys ω) :
    Except ShellStop (ShellSys ω) :=
  match cmds cmd argc args s.shell s.kernel with
  | none => .error .halted
  | some (outs, kernel) => do
    let t ← (outs.foldlM outputStep s.term).mapError .terminal
    pure { s with term := t, kernel := kernel }

/-- The assignments at the start of `execute_command`. -/
def endLine (sh : Shell) : Except ShellStop Shell := do
  let buffer ← setAt maxBuffer sh.bufIdx 0 sh.buffer
  let saved ← setAt maxBuffer 0 0 sh.savedBuffer
  pure { sh with buffer := buffer, historyIndex := -1, savedBufIdx := 0, savedBuffer := saved }

/-- `execute_command` for a line that is not empty. -/
def executeLine (cmds : Commands ω) (s : ShellSys ω) : Except ShellStop (ShellSys ω) := do
  let cmd ← cString maxBuffer s.shell.buffer
  let sh ← historyAdd cmd s.shell
  let (argc, args) ← splitArgs cmd
  if argc = 0 then printPrompt { s with shell := sh }
  else do
    let name ← cString argLen (args 0)
    let s ← runCommand cmds (commandOf name) argc args { s with shell := sh }
    printPrompt { s with shell := { s.shell with bufIdx := 0 } }

/-- `execute_command()`. A line of blanks stays in the buffer, as `buf_idx` is not reset on that way. -/
def executeCommand (cmds : Commands ω) (s : ShellSys ω) : Except ShellStop (ShellSys ω) := do
  let sh ← endLine s.shell
  if sh.bufIdx = 0 then printPrompt { s with shell := sh } else executeLine cmds { s with shell := sh }

/-- `init_shell()`. -/
def initShell (s : ShellSys ω) : Except ShellStop (ShellSys ω) := do
  let saved ← setAt maxBuffer 0 0 s.shell.savedBuffer
  let history := fun i => if i < historySize then Function.update (s.shell.commandHistory i) 0 0
    else s.shell.commandHistory i
  let s := { s with
    shell := { s.shell with
      bufIdx := 0, historyCount := 0, historyIndex := -1, savedBufIdx := 0, savedBuffer := saved,
      commandHistory := history } }
  let s ← shellPrintStr (.ofString "\n--- RTOS Shell v3.1 ---") s
  let s ← shellPrintStr (.ofString "\nType 'help' for help") s
  printPrompt s

/-- The start of `shell_handle_key`. -/
def showBottom (s : ShellSys ω) : Except ShellStop (ShellSys ω) :=
  if s.term.viewOffset ≠ 0 then do
    let t ← (terminalScrollToBottom s.term).mapError .terminal
    pure { s with term := t }
  else pure s

/-- `shell_handle_key` for a key other than the newline. -/
def editLine (c : UInt8) (s : ShellSys ω) : Except ShellStop (ShellSys ω) :=
  if c = 8 then
    if s.shell.bufIdx > 0 then do
      let buffer ← setAt maxBuffer (s.shell.bufIdx - 1) 0 s.shell.buffer
      shellPutchar 8 { s with shell := { s.shell with bufIdx := s.shell.bufIdx - 1, buffer := buffer } }
    else pure s
  else if s.shell.bufIdx < maxBuffer - 1 then do
    let buffer ← setAt maxBuffer s.shell.bufIdx c s.shell.buffer
    let buffer ← setAt maxBuffer (s.shell.bufIdx + 1) 0 buffer
    shellPutchar c { s with shell := { s.shell with bufIdx := s.shell.bufIdx + 1, buffer := buffer } }
  else pure s

/-- `shell_handle_key(c)`. -/
def shellHandleKey (cmds : Commands ω) (c : UInt8) (s : ShellSys ω) : Except ShellStop (ShellSys ω) := do
  let s ← showBottom s
  if c = 10 then executeCommand cmds s else editLine c s

end

/-! ## Runs -/

/-- A character as the keyboard sends it: `keyboard_callback` sends no NUL. -/
structure Key where
  code : UInt8
  code_ne : code ≠ 0

/-- A scroll call of the keyboard. -/
def TermOp.Scrolls : TermOp → Prop
  | .clear => False
  | .putchar _ => False
  | .scrollUp lines => 0 ≤ lines
  | .scrollDown lines => 0 ≤ lines
  | .scrollToTop => True
  | .scrollToBottom => True

/-- What a key does. -/
inductive ShellOp where
  | key (k : Key)
  | historyUp
  | historyDown
  | scroll (op : TermOp) (scrolls : op.Scrolls)

section

variable {ω : Type}

/-- An operation of the shell. -/
def shellStep (cmds : Commands ω) (s : ShellSys ω) : ShellOp → Except ShellStop (ShellSys ω)
  | .key k => shellHandleKey cmds k.code s
  | .historyUp => shellHistoryUp s
  | .historyDown => shellHistoryDown s
  | .scroll op _ => do
    let t ← (termStep s.term op).mapError .terminal
    pure { s with term := t }

/-- The states that `init_shell` leaves at boot, after any calls of the terminal. -/
def AfterInit (s : ShellSys ω) : Prop :=
  ∃ (vga : ℤ → UInt16) (ops : List TermOp) (t : Terminal) (kernel : ω) (promptAt : ℤ × ℤ),
    (∀ op ∈ ops, op.Forward) ∧ run termStep (bootTerminal vga) ops = .ok t ∧
      initShell ⟨bootShell, t, kernel, promptAt⟩ = .ok s

end

/-! ## What the shell is for -/

/-- The input line: `buffer[0 .. buf_idx)`. -/
def inputLine (sh : Shell) : List UInt8 := (List.range sh.bufIdx).map sh.buffer

/-- The text that `execute_command` parses if a newline comes now. -/
def parsedText (sh : Shell) : List UInt8 := readString maxBuffer (Function.update sh.buffer sh.bufIdx 0)

/-- A key is applied to the line. A newline begins a new one. -/
def typeKey (line : List UInt8) (c : UInt8) : List UInt8 :=
  if c = 10 then []
  else if c = 8 then line.dropLast
  else if line.length < 127 then line ++ [c]
  else line

/-- The line that the keys since the last newline give. -/
def typedLine (keys : List Key) : List UInt8 := (keys.map Key.code).foldl typeKey []

/-- At each newline of the run the text that is parsed is the one that was typed since the last newline, and
the input line is empty afterwards. -/
def ExecutesTyped {ω : Type} (cmds : Commands ω) (s₀ : ShellSys ω) (keys : List Key) : Prop :=
  ∀ (pre : List Key) (k : Key), pre ++ [k] <+: keys → k.code = 10 →
    ∀ s, run (fun s (k : Key) => shellHandleKey cmds k.code s) s₀ pre = .ok s →
      parsedText s.shell = typedLine pre ∧
        ∀ s', shellHandleKey cmds k.code s = .ok s' → s'.shell.bufIdx = 0

/-- The history: `command_history[0 .. history_count)`. -/
def historyEntries (sh : Shell) : List (List UInt8) :=
  (List.range sh.historyCount).map fun i => readString maxBuffer (sh.commandHistory i)

/-- A command is kept, unless it is empty or the one that was kept last. -/
def keepCommand (kept : List CString) (cmd : CString) : List CString :=
  if cmd.chars = [] ∨ kept.getLast? = some cmd then kept else kept ++ [cmd]

/-- The commands that are kept of a sequence. -/
def keptCommands (cmds : List CString) : List CString := cmds.foldl keepCommand []

/-- The strings end inside their arrays, and the indices point into them. -/
structure ShellInRange (sh : Shell) : Prop where
  idx_le : sh.bufIdx ≤ 127
  buffer_ended : ∃ i < 128, sh.buffer i = 0
  saved_ended : ∃ i < 128, sh.savedBuffer i = 0
  index_range : -1 ≤ sh.historyIndex ∧ sh.historyIndex < sh.historyCount

/-- Not the newline. -/
def ShellOp.Edits : ShellOp → Prop
  | .key k => k.code ≠ 10
  | _ => True

/-- If `shell_history_up` goes from the line into the history, the line is there again when, without a newline
in between, `shell_history_down` comes back to it for the first time. -/
def RestoresLine {ω : Type} (cmds : Commands ω) (s : ShellSys ω) : Prop :=
  ∀ s₁, shellHistoryUp s = .ok s₁ → s.shell.historyIndex = -1 → s₁.shell.historyIndex ≠ -1 →
    ∀ moves s₂, run (shellStep cmds) s₁ moves = .ok s₂ →
      AllSteps (shellStep cmds) s₁ (fun t op => t.shell.historyIndex ≠ -1 ∧ op.Edits)
        (moves ++ [.historyDown]) →
      ∀ s₃, shellHistoryDown s₂ = .ok s₃ → s₃.shell.historyIndex = -1 →
        s₃.shell.bufIdx = s.shell.bufIdx ∧ inputLine s₃.shell = inputLine s.shell

/-- `split_args`, with what stands in `args` before the call. -/
def splitArgsInto (cmd : CString) (args : Args) : Except ShellStop (ℕ × Args) :=
  splitLoop maxArgs (cmd.chars.dropWhile (· = 32)) 0 args

/-- The maximal runs of characters of a line that are not blanks. -/
def lineWords (cmd : CString) : List (List UInt8) := words (· = 32) cmd.chars

/-- `split_args` gives the first eight words of the line, each cut to its first 31 characters. -/
def SplitsWords (cmd : CString) (args₀ : Args) : Prop :=
  ∃ argc args, splitArgsInto cmd args₀ = .ok (argc, args) ∧ argc = min (lineWords cmd).length 8 ∧
    ∀ i < argc, HoldsString (args i) (((lineWords cmd).getD i []).take 31)

/-- A line of blanks only, and not empty. -/
def IsBlank (line : List UInt8) : Prop := line ≠ [] ∧ ∀ c ∈ line, c = 32

/-- No newline that the run comes to is given to a line of blanks. -/
def NoBlankLine {ω : Type} (cmds : Commands ω) (s₀ : ShellSys ω) (keys : List Key) : Prop :=
  ∀ (pre : List Key) (k : Key), pre ++ [k] <+: keys → k.code = 10 →
    (∃ s, run (fun s (k : Key) => shellHandleKey cmds k.code s) s₀ pre = .ok s) → ¬ IsBlank (typedLine pre)

/-- The text in the scrollback buffer from a place on, its lines joined. -/
def textSince (place : ℤ × ℤ) (t : Terminal) : List UInt8 :=
  let n := ((t.head - place.1) % scrollbackLines).toNat
  ((List.range (n + 1)).flatMap fun (k : ℕ) =>
    readString vgaWidth fun j => t.buffer ((place.1 + k) % scrollbackLines) j).drop place.2.toNat

/-- The text after the last prompt is the input line. -/
def ScreenAgrees {ω : Type} (s : ShellSys ω) : Prop := textSince s.promptAt s.term = inputLine s.shell

/-- The step does not meet the defects: a newline on a line of blanks, which stays in the buffer; a backspace
on the first column after the automatic break; and a history move that would have to erase across it. -/
def KeepsScreen {ω : Type} (s : ShellSys ω) : ShellOp → Prop
  | .key k => (k.code = 10 → ¬ IsBlank (inputLine s.shell)) ∧ (k.code = 8 → s.shell.bufIdx ≠ 74)
  | .historyUp => s.shell.historyCount ≠ 0 → s.shell.historyIndex ≠ 0 → s.shell.bufIdx < 74
  | .historyDown => s.shell.historyIndex ≠ -1 → s.shell.bufIdx < 74
  | .scroll _ _ => True

end RtosKernel
