import RtosKernel.Heap
import RtosKernel.Kernel
import RtosKernel.Log
import RtosKernel.Signal
import RtosKernel.Terminal

/-!
# System calls (`syscall.c`)

`syscall_handler` is what `int 0x80` runs, with the arguments that the caller has in its registers: nothing
checks them on the way. Its state is the kernel with the signals, the heap, the terminal and the log; the
memory is one, so strings are read from the memory of the heap.
-/

namespace RtosKernel

open Lib

/-- The state that system calls work on. -/
structure SysState where
  kernel : Kernel
  contexts : ℕ → SignalCtx
  signalLock : Mutex
  heap : Heap
  terminal : Terminal
  log : Log

/-- Why a system call has not returned. -/
inductive SysStop where
  | stop (e : Stop)
  | bounds (e : OutOfBounds)
  deriving DecidableEq, Repr

/-- What a system call finds besides its arguments: the task that makes it, the timer callbacks, the code
segment and stack pointer of the processor, and the contents of the local arrays of `log_msg`. -/
structure SysEnv where
  caller : Caller
  callbacks : Callbacks
  cs : UInt32
  esp : UInt32
  buffer : ℕ → UInt8
  tick : ℕ → UInt8

/-- `SYS_WRITE`. -/
def sysWrite : UInt32 := 1

/-- `SYS_GETTICKS`. -/
def sysGetticks : UInt32 := 2

/-- `SYS_MALLOC`. -/
def sysMalloc : UInt32 := 3

/-- `SYS_FREE`. -/
def sysFree : UInt32 := 4

/-- `SYS_KILL`. -/
def sysKill : UInt32 := 5

/-- `SYS_PAUSE`. -/
def sysPause : UInt32 := 6

/-- `SYS_GETPID`. -/
def sysGetpid : UInt32 := 10

/-- `SYS_GETPPID`. -/
def sysGetppid : UInt32 := 11

/-- `SYS_EXIT`. -/
def sysExit : UInt32 := 12

/-- `SYS_GETRING`. -/
def sysGetring : UInt32 := 14

/-- `SYS_SIGNAL`. -/
def sysSignal : UInt32 := 15

/-- `SYS_SIGBLOCK`. -/
def sysSigblock : UInt32 := 16

/-- `error_t` as the number that is returned. -/
def ErrorT.code : ErrorT → UInt32
  | .ok => 0
  | .nomem => 1
  | .inval => 2
  | .busy => 3
  | .timeout => 4
  | .perm => 5
  | .noent => 6
  | .exist => 7
  | .badf => 8
  | .nospace => 9
  | .deadlk => 10
  | .unknown => 11

namespace SysState

/-- The part of the state that `signal.c` works on. -/
def signals (s : SysState) : Signals :=
  { procs := s.kernel.procs, contexts := s.contexts, lock := s.signalLock }

/-- What `signal.c` has changed goes back. -/
def setSignals (s : SysState) (g : Signals) : SysState :=
  { s with kernel := { s.kernel with procs := g.procs }, contexts := g.contexts, signalLock := g.lock }

end SysState

/-- A call that cannot leave the scrollback buffer. -/
def ofStop {α : Type} (x : Except Stop α) : Except SysStop α := x.mapError SysStop.stop

/-- One pass of the loop of `print_str`. -/
def printBody (m : Mem) : UInt32 × Terminal → Except SysStop ((UInt32 × Terminal) ⊕ Terminal)
  | (str, t) =>
    if m.byte str = 0 then .ok (.inr t)
    else do
      let t ← (terminalPutchar (m.byte str) t).mapError SysStop.bounds
      pure (.inl (str + 1, t))

/-- `print_str`. -/
def printStr (fuel : ℕ) (m : Mem) (str : UInt32) (t : Terminal) : Except SysStop Terminal :=
  loop (.stop .spent) (printBody m) fuel (str, t)

/-- `get_current_ring()`, from the code segment. -/
def getCurrentRing (cs : UInt32) : UInt32 := cs &&& 0x3

/-- `user_base` of `is_user_accessible` (`ring.c`). -/
def userBase : UInt32 := 0x08000000

/-- `user_top` of `is_user_accessible`. -/
def userTop : UInt32 := 0xC0000000

/-- `is_user_accessible`. -/
def isUserAccessible (ptr len : UInt32) : Int32 :=
  if ptr < userBase ∨ ptr + len > userTop then 0 else 1

/-- `syscall_handler`. It does not read its fourth argument. -/
def syscallHandler (env : SysEnv) (sysNum arg1 arg2 : UInt32) (s : SysState) :
    Except SysStop (UInt32 × SysState) :=
  if sysNum = sysWrite then do
    let t ← printStr env.caller.fuel s.heap.mem arg1 s.terminal
    pure (0, { s with terminal := t })
  else if sysNum = sysGetticks then pure (getTicks s.kernel.timer, s)
  else if sysNum = sysMalloc then do
    let (p, h) ← ofStop (kmalloc env.caller arg1 s.heap)
    pure (p, { s with heap := h })
  else if sysNum = sysFree then do
    let h ← ofStop (kfree env.caller arg1 s.heap)
    pure (0, { s with heap := h })
  else if sysNum = sysKill then do
    let (err, g) ← ofStop (kill env.caller arg1 arg2.toInt32.toInt s.signals)
    pure (err.code, s.setSignals g)
  else if sysNum = sysPause then do
    let k ← ofStop (sleepProcess env.callbacks env.caller.fuel 1 env.esp s.kernel)
    pure (0, { s with kernel := k })
  else if sysNum = sysGetpid then
    pure (((processCurrent s.kernel.procs).map fun i => (s.kernel.procs.pool i).pid).getD 0, s)
  else if sysNum = sysGetppid then
    pure (((processCurrent s.kernel.procs).map fun i => (s.kernel.procs.pool i).ppid).getD 0, s)
  else if sysNum = sysExit then
    match processCurrent s.kernel.procs with
    | none => pure (0, s)
    | some i =>
      let procs := processExit (s.kernel.procs.pool i).pid s.kernel.procs
      pure (0, { s with kernel := { s.kernel with procs := procs } })
  else if sysNum = sysGetring then pure (getCurrentRing env.cs, s)
  else if sysNum = sysSignal then do
    let (old, g) ← ofStop (signal env.caller arg1.toInt32.toInt arg2 s.signals)
    pure (old, s.setSignals g)
  else if sysNum = sysSigblock then do
    let (err, g) ← ofStop (sigblock env.caller arg1 s.signals)
    pure (err.code, s.setSignals g)
  else
    let log := logMsg logWarn (getTicks s.kernel.timer) (.ofString "Syscall inconnu") env.buffer env.tick s.log
    pure (0xFFFFFFFF, { s with log := log })

/-- The static data at boot, with what `kernel_main` initialises before it enables interrupts. -/
def bootSys (m : Mem) : SysState where
  kernel := (bootKernel 100 (bootTasking 0) (bootProcs 0) fun _ => semInit 0 0).kernel
  contexts := fun _ => signalInitCtx
  signalLock := mutexInit
  heap := initHeap m
  terminal := bootTerminal fun _ => 0
  log := bootLog

/-- A call from Ring 3 by a task that is alone. -/
def soloEnv : SysEnv where
  caller := soloCaller .mainTask
  callbacks := fun _ => []
  cs := 0x1B
  esp := 0
  buffer := fun _ => 0
  tick := fun _ => 0

/-! ## Runs of heap calls -/

/-- The state, with the pointers that `SYS_MALLOC` has returned and that were not given to `SYS_FREE`
since. -/
structure UserHeap where
  sys : SysState
  live : List UInt32

/-- A system call that allocates or frees, with any arguments. -/
inductive UserHeapOp where
  | malloc (env : SysEnv) (arg1 arg2 : UInt32)
  | free (env : SysEnv) (arg1 arg2 : UInt32)

/-- The same call with another budget. -/
def SysEnv.withFuel (env : SysEnv) (fuel : ℕ) : SysEnv := { env with caller := env.caller.withFuel fuel }

/-- A system call, with the pointers that are held afterwards. -/
def userHeapStep (fuel : ℕ) (s : UserHeap) : UserHeapOp → Except SysStop UserHeap
  | .malloc env arg1 arg2 => do
    let (p, sys) ← syscallHandler (env.withFuel fuel) sysMalloc arg1 arg2 s.sys
    pure { sys := sys, live := if p = 0 then s.live else p :: s.live }
  | .free env arg1 arg2 => do
    let (_, sys) ← syscallHandler (env.withFuel fuel) sysFree arg1 arg2 s.sys
    pure { sys := sys, live := s.live.filter fun p => p ≠ arg1 }

/-- After `init_heap`, in a system of any contents. -/
def bootUserHeap (s : SysState) : UserHeap := { sys := { s with heap := initHeap s.heap.mem }, live := [] }

end RtosKernel
