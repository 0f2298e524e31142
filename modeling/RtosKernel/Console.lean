import RtosKernel.Kernel
import RtosKernel.Keyboard
import RtosKernel.Paging
import RtosKernel.Printing
import RtosKernel.Syscall
import RtosKernel.Vfs

/-!
# The console (`shell.c`, `process.c`, `keyboard.c`, `kernel.c`)

All commands of the shell, on the kernel that `kernel_main` has set up, with the keyboard in front of it. What a
command prints is the list of its characters.

A key is handled to its end before the next interrupt comes. This is an assumption on the runs: `irq_handler` sends the
end of interrupt before it calls the handler, and `mutex_lock`, `mutex_unlock` and `sem_wait` execute `sti`, so that in
the code an interrupt can come inside `alloc`, `free`, `mem` and the other commands that call them. Runs in which one
does are not covered.

The memory that `hexdump` reads is that of the heap; paging is not enabled, so every address can be read. Left out: what
the tasks and the uptime callback draw into the header, and what `reboot` and `shutdown` do to the hardware.
-/

namespace RtosKernel

open Lib

/-- The kernel behind the shell. -/
structure ConsoleKernel where
  kernel : Kernel
  contexts : ℕ → SignalCtx
  signalLock : Mutex
  heap : Heap
  log : Log
  paging : Paging
  files : Vfs
  testAllocPtr : UInt32

/-- What a key finds besides the state: the task that it interrupts, the code segment, the address of
`spawned_task_fn`, and the contents of the local arrays of `log_msg` and `print_uint`. -/
structure ConsoleEnv where
  caller : Caller
  cs : UInt32
  spawnedTaskFn : UInt32
  buffer : ℕ → UInt8
  tick : ℕ → UInt8
  digits : ℕ → UInt8
  out : ℕ → UInt8

/-- Why a command does not return. -/
inductive ConsoleStop where
  | command (e : CommandStop)
  | reboot
  | shutdown
  deriving DecidableEq, Repr

/-- The characters of a literal. -/
def say (s : String) : List UInt8 := (CString.ofString s).chars

/-! ## `system` -/

/-- `cmd_help()`. It lists `touch`, `write` and `rm`, too, which `execute_command` does not know. -/
def cmdHelp : List UInt8 :=
  ["\n=== RTOS Shell v3.1 ===\n", "\n  SYSTEM:\n", "   help              - This help\n",
    "   clear             - Clear the screen\n", "   uptime            - Time since boot\n",
    "   ticks             - Current PIT ticks\n", "   reboot            - Reboot\n",
    "   shutdown          - Power off the system\n", "   sysinfo           - System information\n", "\n  LOGGING:\n",
    "   logs              - Show the log buffer\n", "   loglevel <0-4>    - Set the log level\n",
    "   logclear          - Clear the log buffer\n", "\n  PAGING:\n", "   pages             - Paging statistics\n",
    "   vmmap             - Show virtual memory map\n", "\n  SIGNALS & RINGS:\n",
    "   ring              - Show current Ring\n", "   siglist           - List signals\n",
    "   testsig <pid>     - Send SIGTERM to a PID\n", "\n  NAVIGATION:\n", "   Page Up/Down      - Scroll up/down\n",
    "   Up/Down Arrow     - Command history\n", "\n  TASKS & PROCESSES:\n",
    "   tasks             - List tasks (scheduler)\n", "   ps                - List processes (PCB)\n",
    "   spawn <name>      - Create a process\n", "\n  MEMORY:\n", "   mem               - Heap usage\n",
    "   alloc [bytes]     - Allocate memory\n", "   free              - Free last allocation\n",
    "   hexdump <addr>    - Hex dump 64 bytes\n", "\n  VFS FILES:\n", "   ls                - List files\n",
    "   cat <file>        - Show file content\n", "   touch <file>      - Create an empty file\n",
    "   write <f> <text>  - Write to a file\n", "   rm <file>         - Remove a file\n", "\n  MISC:\n",
    "   echo <text>       - Print text\n", "   calc <n> <op> <m> - Calculator (+ - * /)\n",
    "   sem               - Semaphore demo\n", "   sys               - Syscall test\n",
    "   history           - Show command history\n"].flatMap say

/-- `cmd_history()`. -/
def cmdHistory (sh : Shell) : Except CommandStop (List UInt8) :=
  if sh.historyCount = 0 then pure (say "\n=== Command History ===\n" ++ say "  (empty)\n")
  else do
    let rows ← (List.range sh.historyCount).mapM fun i => do
      let dec ← printDec (UInt32.ofNat (i + 1))
      let row ← (historyRow i sh).mapError .shell
      let cmd ← (cString maxBuffer row).mapError .shell
      pure (say "  " ++ dec ++ say ": " ++ cmd.chars ++ say "\n")
    pure (say "\n=== Command History ===\n" ++ rows.flatten)

/-- `get_uptime_sec`; a division by zero raises the exception `#DE`. -/
def uptimeSec (t : Timer) : Except CommandStop UInt32 :=
  if t.timerFreqHz = 0 then .error .divideError else pure (getUptimeSec t)

/-- `cmd_uptime()`. -/
def cmdUptime (t : Timer) : Except CommandStop (List UInt8) := do
  let s ← uptimeSec t
  let m := s / 60
  let h := m / 60
  let hours ← printDec h
  let minutes ← printDec (m % 60)
  let seconds ← printDec (s % 60)
  let ticks ← printDec (getTicks t)
  pure (say "\nUptime: " ++ hours ++ say "h " ++ minutes ++ say "m " ++ seconds ++ say "s  (" ++ ticks ++ say " ticks)")

/-- The branch of `ticks`. -/
def cmdTicks (t : Timer) : Except CommandStop (List UInt8) := do
  let ticks ← printDec (getTicks t)
  pure (say "\nTicks: " ++ ticks)

/-- `process_count()`: the slots in use but for the zombies. -/
def processCount (s : Procs) : UInt32 :=
  (List.finRange maxProcesses).foldl
    (fun cnt i => if s.state i ≠ .unused ∧ s.state i ≠ .zombie then cnt + 1 else cnt) 0

/-- `cmd_sysinfo()`. -/
def cmdSysinfo (e : ConsoleEnv) (k : ConsoleKernel) : Except CommandStop (List UInt8 × ConsoleKernel) := do
  let tasks ← printDec (taskCount k.kernel.tasking)
  let procs ← printDec (processCount k.kernel.procs)
  let (pages, paging) ← (pagingGetFreePages e.caller k.paging).mapError .signal
  let free ← printDec pages
  pure (say "\n=== RTOS System Info ===\n" ++ say "Version: RTOS v3.1\n" ++ say "Built: 2026-08-19\n" ++
    say "Tasks active: " ++ tasks ++ say "\n" ++ say "Processes: " ++ procs ++ say "\n" ++ say "Free pages: " ++ free ++
    say "\n", { k with paging := paging })

/-! ## `paging` -/

/-- `cmd_pages()`. -/
def cmdPages (e : ConsoleEnv) (k : ConsoleKernel) : Except CommandStop (List UInt8 × ConsoleKernel) := do
  let total ← printDec (1024 * 1024)
  let (used, paging) ← (pagingGetUsedPages e.caller k.paging).mapError .signal
  let used ← printDec used
  let (free, paging) ← (pagingGetFreePages e.caller paging).mapError .signal
  let free ← printDec free
  pure (say "\n=== Paging Statistics ===\n" ++ say "Total pages: " ++ total ++ say "\nUsed pages: " ++ used ++
    say "\nFree pages: " ++ free ++ say "\n", { k with paging := paging })

/-- `print_range(label, start, end)`. -/
def printRange (label : String) (start stop : UInt32) : List UInt8 :=
  say "  " ++ say label ++ printHex start ++ say " - " ++ printHex stop ++ say "\n"

/-- `KERNEL_HEAP_BASE`. -/
def kernelHeapBase : UInt32 := 0x01000000

/-- `USER_BASE`. -/
def userCodeBase : UInt32 := 0x08000000

/-- `USER_HEAP_BASE`. -/
def userHeapBase : UInt32 := 0x20000000

/-- `USER_STACK_TOP`. -/
def userStackTop : UInt32 := 0xC0000000

/-- `cmd_vmmap()`. The ranges are constants; the numbers of pages are read. -/
def cmdVmmap (e : ConsoleEnv) (k : ConsoleKernel) : Except CommandStop (List UInt8 × ConsoleKernel) := do
  let ranges := printRange "Kernel image     : " 0x00100000 0x00400000 ++
    printRange "Kernel heap       : " kernelHeapBase (kernelHeapBase + 4 * 1024 * 1024) ++
    printRange "Identity map      : " 0x00000000 0x04000000 ++
    printRange "VGA text buffer   : " 0x000B8000 0x000B8FA0 ++
    printRange "User code base    : " userCodeBase userHeapBase ++
    printRange "User heap base    : " userHeapBase userStackTop ++
    printRange "User stack top    : " userStackTop 0xFFFFFFFF
  let tables ← printDec pageTablesCount
  let entries ← printDec pagesPerTable
  let size ← printDec pageSize
  let (used, paging) ← (pagingGetUsedPages e.caller k.paging).mapError .signal
  let used ← printDec used
  let (free, paging) ← (pagingGetFreePages e.caller paging).mapError .signal
  let free ← printDec free
  pure (say "\n=== Virtual Memory Map ===\n" ++ ranges ++ say "\nPage tables: " ++ tables ++ say " x " ++ entries ++
    say " entries (" ++ size ++ say " bytes/page)\n" ++ say "Used pages : " ++ used ++ say "   Free pages: " ++ free ++
    say "\n", { k with paging := paging })

/-! ## `signals & rings` -/

/-- `cmd_ring()`. -/
def cmdRing (e : ConsoleEnv) : Except CommandStop (List UInt8) := do
  let ring := getCurrentRing e.cs
  let dec ← printDec ring
  pure (say "\nCurrent Ring: Ring " ++ dec ++ if ring = 0 then say " (Kernel mode)\n" else say " (User mode)\n")

/-- `cmd_siglist()`. -/
def cmdSiglist : List UInt8 :=
  ["\n=== RTOS Signals ===\n", "SIGHUP  (1)   - Hangup\n", "SIGINT  (2)   - Interrupt (Ctrl+C)\n",
    "SIGTERM (15)  - Termination\n", "SIGKILL (9)   - Forced (non-blockable)\n", "SIGUSR1 (10)  - User signal 1\n",
    "SIGUSR2 (11)  - User signal 2\n"].flatMap say

/-- The signals of the console. -/
def ConsoleKernel.signals (k : ConsoleKernel) : Signals := ⟨k.kernel.procs, k.contexts, k.signalLock⟩

/-- `kill` with its log message. -/
def killLogged (e : ConsoleEnv) (pid : UInt32) (signum : ℤ) (k : ConsoleKernel) :
    Except CommandStop (ErrorT × ConsoleKernel) := do
  let (err, s) ← (kill e.caller pid signum k.signals).mapError .signal
  let log := if err = .ok then
      logMsg logDebug (getTicks k.kernel.timer) (.ofString "Signal envoyé") e.buffer e.tick k.log
    else k.log
  pure (err, { k with contexts := s.contexts, signalLock := s.lock, log := log })

/-- `cmd_testsig`, with what `kill` logs. -/
def cmdTestsigLogged (e : ConsoleEnv) (argc : ℕ) (args : Args) (k : ConsoleKernel) :
    Except CommandStop (List UInt8 × ConsoleKernel) :=
  if argc < 2 then pure (say "\nUsage: testsig <pid>\n", k)
  else do
    let arg ← argString args 1
    let pid := digitLoop UInt32.ofNat 0 arg.chars
    let (err, k) ← killLogged e pid sigTerm k
    let dec ← printDec pid
    pure (say "\nSIGTERM signal sent to PID " ++ dec ++ say ": " ++ (errorToString err).chars, k)

/-! ## `tasks & processes` -/

/-- A line of `cmd_tasks`. -/
def taskLine (t : Task) : Except CommandStop (List UInt8) := do
  let id ← printDec t.id
  let priority ← printDec t.priority
  let ticks ← printDec t.cpuTicks
  let state ← match t.state with
    | .ready => pure (say "READY\n")
    | .sleeping => do
      let sleep ← printDec t.sleepTicks
      pure (say "SLEEP(" ++ sleep ++ say ")\n")
    | .blocked => pure (say "BLOCKED\n")
    | .zombie => pure (say "ZOMBIE\n")
  pure (say " " ++ id ++ say "    " ++ priority ++ say "    " ++ ticks ++ say "   " ++ state)

/-- The tasks in the order in which `cmd_tasks` prints them. -/
def tasksFromCurrent (fuel : ℕ) (s : Tasking) : Except Stop (List TaskRef) :=
  traverse Stop.spent Stop.null (fun _ => s.next) (fun t ts => ts ++ [t]) s.current fuel []

/-- `cmd_tasks()`: the ring once round, from the current task. -/
def cmdTasks (e : ConsoleEnv) (s : Tasking) : Except CommandStop (List UInt8) := do
  let ts ← (tasksFromCurrent e.caller.fuel s).mapError .signal
  let lines ← ts.mapM fun t => taskLine (s.tasks t)
  pure (say "\n ID   PRI  CPU   STATE\n" ++ say " ---  ---  ---   ---------\n" ++ lines.flatten)

/-- `state_str(state)`. -/
def stateStr : ProcState → List UInt8
  | .unused => say "UNUSED  "
  | .ready => say "READY   "
  | .running => say "RUNNING "
  | .sleeping => say "SLEEPING"
  | .blocked => say "BLOCKED "
  | .zombie => say "ZOMBIE  "

/-- A line of `process_list`. -/
def processLine (e : ConsoleEnv) (p : Process) : Except CommandStop (List UInt8) := do
  let uint (n : UInt32) : Except CommandStop CString := (printUint e.digits e.out n).mapError .shell
  let pid ← uint p.pid
  let ppid ← uint p.ppid
  let priority ← uint p.priority
  let cpu ← uint p.cpuTime
  pure (say " " ++ pid.chars ++ say "     " ++ ppid.chars ++ say "     " ++ priority.chars ++ say "    " ++ cpu.chars ++
    say "    " ++ stateStr p.state ++ say "  " ++ p.name ++ say "\n")

/-- `process_list()`: the slots in use in the order of the pool, not of the list. -/
def processList (e : ConsoleEnv) (s : Procs) : Except CommandStop (List UInt8) := do
  let lines ← ((List.finRange maxProcesses).filter fun i => s.state i ≠ .unused).mapM fun i =>
    processLine e (s.pool i)
  pure (say " PID  PPID  PRI  CPU    STATE     NAME\n" ++ say " ---  ----  ---  -----  --------  --------\n" ++
    lines.flatten)

/-- `cmd_ps()`. -/
def cmdPs (e : ConsoleEnv) (s : Procs) : Except CommandStop (List UInt8) := do
  let text ← processList e s
  pure (say "\n" ++ text)

/-- `cmd_spawn(argc, args)`. The process that it creates never runs. -/
def cmdSpawn (e : ConsoleEnv) (argc : ℕ) (args : Args) (k : ConsoleKernel) :
    Except CommandStop (List UInt8 × ConsoleKernel) := do
  let name ← if 2 ≤ argc then argString args 1 else pure (.ofString "proc")
  let (pid, procs) ← (processCreate e.caller.fuel name.chars e.spawnedTaskFn 1 0 k.kernel.procs).mapError .signal
  let k := { k with kernel := { k.kernel with procs := procs } }
  if 0 ≤ pid then do
    let dec ← printDec pid.toUInt32
    pure (say "\nProcess '" ++ name.chars ++ say "' created, PID=" ++ dec, k)
  else pure (say "\nFailed: pool full.", k)

/-! ## `memory` -/

/-- `cmd_mem()`, with a bar of 40 characters. -/
def cmdMem (e : ConsoleEnv) (k : ConsoleKernel) : Except CommandStop (List UInt8 × ConsoleKernel) := do
  let (used, heap) ← (heapGetUsed e.caller k.heap).mapError .signal
  let (avail, heap) ← (heapGetFree e.caller heap).mapError .signal
  let total := used + avail
  let kb ← printDec (total / 1024)
  let usedDec ← printDec used
  let availDec ← printDec avail
  let pct := if total ≠ 0 then used * 40 / total else 0
  let bar : List UInt8 := (List.range 40).map fun i => if UInt32.ofNat i < pct then 35 else 46
  let percent ← printDec (if total ≠ 0 then used * 100 / total else 0)
  pure (say "\nHeap total: " ++ kb ++ say " KB\n" ++ say "  Used     : " ++ usedDec ++ say " bytes\n" ++
    say "  Free     : " ++ availDec ++ say " bytes\n" ++ say "  [" ++ bar ++ say "] " ++ percent ++ say "%",
    { k with heap := heap })

/-- The branch `free` of `execute_command`. -/
def cmdFree (e : ConsoleEnv) (k : ConsoleKernel) : Except CommandStop (List UInt8 × ConsoleKernel) :=
  if k.testAllocPtr = 0 then pure (say "\nNothing to free.", k)
  else do
    let heap ← (kfree e.caller k.testAllocPtr k.heap).mapError .signal
    pure (say "\nFreed.", { k with heap := heap, testAllocPtr := 0 })

/-! ## `vfs files` and `misc` -/

/-- The branch `cat`. `f->content` is read up to its NUL. -/
def cmdCat (argc : ℕ) (args : Args) (fs : Vfs) : Except CommandStop (List UInt8) :=
  if argc < 2 then pure (say "\nUsage: cat <file>")
  else do
    let name ← argString args 1
    match vfsOpen name fs with
    | some i => do
      let content ← (cString maxFileSize (fs i).content).mapError .shell
      pure (say "\n" ++ content.chars)
    | none => pure (say "\nNot found: " ++ name.chars)

/-- The branch `echo`. -/
def cmdEcho (argc : ℕ) (args : Args) : Except CommandStop (List UInt8) := do
  let words ← (List.range (argc - 1)).mapM fun a => do
    let word ← argString args (a + 1)
    pure (word.chars ++ if a + 1 < argc - 1 then [32] else [])
  pure (say "\n" ++ words.flatten)

/-- `sem_wait` of a semaphore that no other task has. -/
def semWaitAlone (s : Semaphore) : Except CommandStop Semaphore :=
  match semTake s with
  | some s => pure s
  | none => .error (.signal .spent)

/-- `cmd_sem()`: a semaphore of its own, never empty when `sem_wait` is called. -/
def cmdSem : Except CommandStop (List UInt8) := do
  let value (s : Semaphore) : Except CommandStop (List UInt8) := printDec s.count.toUInt32
  let s₀ := semInit 3 3
  let v₀ ← value s₀
  let s₁ ← semWaitAlone s₀
  let v₁ ← value s₁
  let s₂ ← semWaitAlone s₁
  let v₂ ← value s₂
  let s₃ := semPost s₂
  let v₃ ← value s₃
  let (r, s₄) := semTrywait s₃
  let v₄ ← value s₄
  let v₅ ← value (semPost (semPost s₄))
  pure (say "\nSemaphore Demo (max=3):\n" ++ say "  Init     : " ++ v₀ ++ say "\n" ++ say "  wait()   : " ++ v₁ ++
    say "\n" ++ say "  wait()   : " ++ v₂ ++ say "\n" ++ say "  post()   : " ++ v₃ ++ say "\n" ++ say "  trywait(): " ++
    (if r = 0 then say "ok" else say "failed") ++ say " -> " ++ v₄ ++ say "\n" ++ say "  2xpost() : " ++ v₅ ++ say "\n")

/-- `cmd_sys`: what the three system calls return. -/
def cmdSys (k : ConsoleKernel) : Except CommandStop (List UInt8) := do
  let ticks ← printDec (getTicks k.kernel.timer)
  let pid ← printDec (((processCurrent k.kernel.procs).map fun i => (k.kernel.procs.pool i).pid).getD 0)
  pure (say "\n=== Syscall Test (int 0x80) ===\n" ++ say "[SYS_WRITE  ] " ++ say "Hello from syscall!\n" ++
    say "[SYS_TICKS  ] ticks = " ++ ticks ++ say "\n" ++ say "[SYS_GETPID ] pid = " ++ pid ++ say "\n")

/-! ## `execute_command` -/

/-- A command that prints. -/
def prints (r : Except CommandStop (List UInt8 × ConsoleKernel)) : Except ConsoleStop (List Output × ConsoleKernel) :=
  (r.map fun (text, k) => (text.map Output.putchar, k)).mapError .command

/-- The same without a change of the kernel. -/
def printsOnly (k : ConsoleKernel) (r : Except CommandStop (List UInt8)) :
    Except ConsoleStop (List Output × ConsoleKernel) :=
  prints (r.map fun text => (text, k))

/-- The branches of `execute_command`. -/
def consoleCommand (e : ConsoleEnv) (cmd : Command) (argc : ℕ) (args : Args) (sh : Shell) (k : ConsoleKernel) :
    Except ConsoleStop (List Output × ConsoleKernel) :=
  match cmd with
  | .help => printsOnly k (pure cmdHelp)
  | .history => printsOnly k (cmdHistory sh)
  | .clear => pure ([.clear, .drawHeader], k)
  | .uptime => printsOnly k (cmdUptime k.kernel.timer)
  | .ticks => printsOnly k (cmdTicks k.kernel.timer)
  | .sysinfo => prints (cmdSysinfo e k)
  | .logs => printsOnly k (pure (logDump k.log).flatten)
  | .loglevel => prints ((cmdLoglevel argc args ⟨k.log, k.signals, []⟩).map fun (text, sk) =>
      (text, { k with log := sk.log }))
  | .logclear => prints (pure (say "\nLogs cleared.", { k with log := logClear k.log }))
  | .pages => prints (cmdPages e k)
  | .vmmap => prints (cmdVmmap e k)
  | .ring => printsOnly k (cmdRing e)
  | .siglist => printsOnly k (pure cmdSiglist)
  | .testsig => prints (cmdTestsigLogged e argc args k)
  | .tasks => printsOnly k (cmdTasks e k.kernel.tasking)
  | .ps => printsOnly k (cmdPs e k.kernel.procs)
  | .spawn => prints (cmdSpawn e argc args k)
  | .mem => prints (cmdMem e k)
  | .alloc => prints ((cmdAlloc e.caller argc args k.testAllocPtr k.heap).map fun (text, ptr, heap) =>
      (text, { k with heap := heap, testAllocPtr := ptr }))
  | .free => prints (cmdFree e k)
  | .hexdump => printsOnly k (if argc < 2 then pure (say "\nUsage: hexdump <addr>")
      else (argString args 1).map (cmdHexdump k.heap.mem))
  | .ls => printsOnly k (pure (say "\nVFS Files:\n" ++ (vfsList k.files).flatten))
  | .cat => printsOnly k (cmdCat argc args k.files)
  | .echo => printsOnly k (cmdEcho argc args)
  | .calc => printsOnly k (cmdCalc argc args)
  | .sem => printsOnly k cmdSem
  | .sys => printsOnly k (cmdSys k)
  | .reboot => .error .reboot
  | .shutdown => .error .shutdown
  | .unknown => printsOnly k ((argString args 0).map fun name =>
      say "\nUnknown: '" ++ name.chars ++ say "'  (type 'help')")

/-- The commands as the shell calls them. Why one has not returned is forgotten. -/
def consoleCommands (e : ConsoleEnv) : Commands ConsoleKernel := fun cmd argc args sh k =>
  (consoleCommand e cmd argc args sh k).toOption

/-! ## Runs -/

/-- The console with the keyboard. -/
structure ConsoleSys where
  keyboard : Keyboard
  sys : ShellSys ConsoleKernel

/-- Why a step has not returned. -/
inductive ConsoleFault where
  | key (e : ShellStop)
  | kernel (e : Stop)
  deriving DecidableEq, Repr

/-- The same with another budget. -/
def ConsoleEnv.withFuel (e : ConsoleEnv) (fuel : ℕ) : ConsoleEnv := { e with caller := e.caller.withFuel fuel }

/-- What `keyboard_callback` calls. -/
def keyAction (e : ConsoleEnv) (s : ShellSys ConsoleKernel) : KeyAction → Except ShellStop (ShellSys ConsoleKernel)
  | .setCtrl _ => pure s
  | .scrollUp lines => do
    let t ← (terminalScrollUp lines s.term).mapError .terminal
    pure { s with term := t }
  | .scrollDown lines => do
    let t ← (terminalScrollDown lines s.term).mapError .terminal
    pure { s with term := t }
  | .scrollToTop => do
    let t ← (terminalScrollToTop s.term).mapError .terminal
    pure { s with term := t }
  | .scrollToBottom => do
    let t ← (terminalScrollToBottom s.term).mapError .terminal
    pure { s with term := t }
  | .historyUp => shellHistoryUp s
  | .historyDown => shellHistoryDown s
  | .handleKey c => shellHandleKey (consoleCommands e) c s

/-- An interrupt of the keyboard with its scancode, or a step of the kernel: an interrupt of the timer, or a call by the
running task. -/
inductive ConsoleOp where
  | scancode (code : UInt8) (e : ConsoleEnv)
  | kernel (op : KernelOp)

/-- A step, with the key handled to its end: no interrupt comes inside a command. -/
def consoleStep (body : Callbacks) (fuel : ℕ) (s : ConsoleSys) : ConsoleOp → Except ConsoleFault ConsoleSys
  | .scancode code e => do
    let (actions, keyboard) := keyboardCallback code s.keyboard
    let sys ← (actions.foldlM (keyAction (e.withFuel fuel)) s.sys).mapError .key
    pure { keyboard := keyboard, sys := sys }
  | .kernel op => do
    let k ← (kernelCall body fuel s.sys.kernel.kernel op).mapError .kernel
    pure { s with sys := { s.sys with kernel := { s.sys.kernel with kernel := k } } }

/-! ## `kernel_main` -/

/-- What `kernel_main` finds: the contents of the VGA buffer, of the memory and of the local arrays of `log_msg`, and
the addresses that the linker fixes. -/
structure BootData where
  vga : ℤ → UInt16
  memory : Mem
  buffer : ℕ → UInt8
  tick : ℕ → UInt8
  identityTables : UInt32
  taskPool : UInt32
  procPool : UInt32
  taskA : UInt32
  taskB : UInt32
  uptimeDisplayCb : Callback

/-- `LOG_INFO`. -/
def logInfo : UInt32 := 1

/-- The messages of `kernel_main` and of what it calls. The last one comes behind the `sti`, here before the first
tick. -/
def bootLogTexts : List String :=
  ["RTOS v3.1 starting", "Initialisation de la pagination...", "Pagination initialisée OK (identity map)",
    "Paging initialized", "Initialisation du système de signaux", "Signals initialized",
    "Initialisation des anneaux x86", "Anneaux x86 initialisés", "x86 Rings initialized", "Enabling interrupts",
    "Kernel ready. CLI active."]

/-- The kernel after `kernel_main`. -/
def bootConsole (b : BootData) : ConsoleKernel where
  kernel :=
    let k := (bootKernel 100 (bootTasking b.taskPool) (bootProcs b.procPool) fun _ => semInit 0 0).kernel
    { k with
      timer := (timerRegisterCallback (some b.uptimeDisplayCb) k.timer).2
      tasking := createTask b.taskB 2 (createTask b.taskA 3 k.tasking) }
  contexts := (signalInit (bootSignals (bootProcs b.procPool))).contexts
  signalLock := mutexInit
  heap := initHeap b.memory
  log := bootLogTexts.foldl (fun log text => logMsg logInfo 0 (.ofString text) b.buffer b.tick log) (logInit bootLog)
  paging := pagingInit (bootPaging b.identityTables b.memory)
  files := vfsInit zeroVfs
  testAllocPtr := 0

/-- `terminal_clear`, `draw_header`, `scrollback_init`, the kernel, and `init_shell`. -/
def kernelMain (b : BootData) : Except ShellStop ConsoleSys := do
  let t ← (terminalClear (bootTerminal b.vga)).mapError .terminal
  let t ← (scrollbackInit (drawHeader t)).mapError .terminal
  let sys ← initShell ⟨bootShell, t, bootConsole b, (0, 0)⟩
  pure { keyboard := initKeyboard, sys := sys }

end RtosKernel
