import RtosKernel.Basic
import RtosKernel.Lib.Ring
import RtosKernel.Lib.Run

/-!
# The process table (`process.c`)

A static pool of sixteen process control blocks, linked by `next` into a circular list that starts at
`proc_list_head`. `process_schedule` reaps a zombie by setting its state to unused; the slot stays
where it is on the list until `process_create` takes it again and links it in at the end.

The tick count that `process_schedule` and `process_sleep` read is an argument: it is the timer's.
-/

namespace RtosKernel

open Lib

/-- `MAX_PROCESSES`. -/
abbrev maxProcesses : ℕ := 16

/-- `MAX_PROC_NAME`, with the final zero. -/
def maxProcName : ℕ := 32

/-- The words of `stack[PROC_STACK_SIZE]`. -/
def procStackWords : ℕ := 2048

/-- The address `&proc_pool[i]`. -/
abbrev Slot := Fin maxProcesses

/-- `proc_state_t`. -/
inductive ProcState where
  | unused
  | ready
  | running
  | sleeping
  | blocked
  | zombie
  deriving DecidableEq, Repr

/-- `process_t`. The name is given by its bytes before the NUL. -/
structure Process where
  pid : UInt32
  ppid : UInt32
  name : List UInt8
  state : ProcState
  priority : UInt32
  esp : UInt32
  sleepTicks : UInt32
  cpuTime : UInt32
  wakeTick : UInt32
  stack : ℕ → UInt32
  next : Option Slot

/-- The static data of `process.c`. `poolAddr` is the address of `proc_pool`, fixed by the linker. -/
structure Procs where
  pool : Slot → Process
  head : Option Slot
  current : Option Slot
  nextPid : UInt32
  poolAddr : UInt32

namespace Procs

/-- The links of the process list. -/
def next (s : Procs) (i : Slot) : Option Slot := (s.pool i).next

/-- The state of a slot. -/
def state (s : Procs) (i : Slot) : ProcState := (s.pool i).state

/-- `process_pool[i] = p` -/
def setProc (s : Procs) (i : Slot) (p : Process) : Procs :=
  { s with pool := Function.update s.pool i p }

end Procs

/-- `pstrcpy(d, s, max)`: the text that `d` then holds. -/
def pstrcpy (s : List UInt8) (max : ℕ) : List UInt8 := (s.takeWhile (· ≠ 0)).take (max - 1)

/-- `"idle"`. -/
def idleName : List UInt8 := [105, 100, 108, 101]

/-- `sizeof(process_t)` and the offset of `stack` in it. -/
def sizeofProcess : UInt32 := 8260

/-- The offset of `stack` in `process_t`. -/
def procStackOffset : UInt32 := 64

/-- `process_init()`: slot 0 has the idle process, with the pid 0, and the next pid is 1. -/
def processInit (s : Procs) : Procs :=
  let pool : Slot → Process := fun i => { s.pool i with state := .unused, pid := 0 }
  let idle := { pool 0 with
    pid := 0, ppid := 0, priority := 0, state := .ready, esp := 0, sleepTicks := 0, cpuTime := 0,
    wakeTick := 0, next := some 0, name := pstrcpy idleName maxProcName }
  { s with pool := Function.update pool 0 idle, head := some 0, current := some 0, nextPid := 1 }

/-- The slot that `process_create` takes: the first unused one after slot 0. -/
def freeSlot (s : Procs) : Option Slot :=
  (List.finRange maxProcesses).find? fun i => 1 ≤ i.val ∧ s.state i = .unused

/-- The control block that `process_create` fills in, before it is linked in. -/
def newProcess (old : Process) (pid : UInt32) (name : List UInt8) (entry priority ppid : UInt32)
    (stackAddr : UInt32) : Process :=
  let st := buildStack entry procStackWords old.stack
  { old with
    pid := pid, ppid := ppid, priority := priority, state := .ready, sleepTicks := 0, cpuTime := 0,
    wakeTick := 0, name := pstrcpy name maxProcName, stack := st.1,
    esp := stackAddr + 4 * UInt32.ofNat st.2 }

/-- One pass of `while (t->next != proc_list_head) t = t->next;`. -/
def tailBody (s : Procs) (head : Slot) (t : Slot) : Except Stop (Slot ⊕ Slot) :=
  match s.next t with
  | none => .error .null
  | some n => if n = head then .ok (.inr t) else .ok (.inl n)

/-- `t->next = np; np->next = proc_list_head;`. -/
def linkLast (t np : Slot) (s : Procs) : Procs :=
  let s1 := s.setProc t { s.pool t with next := some np }
  s1.setProc np { s1.pool np with next := s1.head }

/-- `process_create`: the returned `int` and the new table. -/
def processCreate (fuel : ℕ) (name : List UInt8) (entry priority ppid : UInt32) (s : Procs) :
    Except Stop (Int32 × Procs) :=
  match freeSlot s with
  | none => pure (-1, s)
  | some np => do
    let stackAddr := s.poolAddr + sizeofProcess * UInt32.ofNat np.val + procStackOffset
    let s1 := { s.setProc np (newProcess (s.pool np) s.nextPid name entry priority ppid stackAddr) with
      nextPid := s.nextPid + 1 }
    match s1.head with
    | none => .error .null
    | some head => do
      let t ← loop .spent (tailBody s1 head) fuel head
      pure (s.nextPid.toInt32, linkLast t np s1)

/-- `process_exit(pid)`. The slot stays on the list, and in use. -/
def processExit (pid : UInt32) (s : Procs) : Procs :=
  match (List.finRange maxProcesses).find? fun i => (s.pool i).pid = pid ∧ s.state i ≠ .unused with
  | none => s
  | some i => s.setProc i { s.pool i with state := .zombie }

/-- `process_get(pid)`: the first slot in use with this pid. -/
def processGet (pid : UInt32) (s : Procs) : Option Slot :=
  (List.finRange maxProcesses).find? fun i => s.state i ≠ .unused ∧ (s.pool i).pid = pid

/-- `process_current()`. -/
def processCurrent (s : Procs) : Option Slot := s.current

/-- What the first loop of `process_schedule` does to one control block. -/
def ageProc (now : UInt32) (p : Process) : Process :=
  let p1 := if p.state = .sleeping ∧ p.wakeTick ≤ now then { p with state := .ready } else p
  let p2 := if p1.state = .zombie then { p1 with state := .unused } else p1
  { p2 with cpuTime := p2.cpuTime + 1 }

/-- What the second loop does with one control block: `(best, best_pri)`. -/
def pickProc (s : Procs) (t : Slot) (b : Option Slot × UInt32) : Option Slot × UInt32 :=
  if s.state t = .ready ∧ b.2 ≤ (s.pool t).priority then (some t, (s.pool t).priority) else b

/-- The first traversal of `process_schedule`, from `proc_list_head` back to it. -/
def agePass (fuel : ℕ) (now : UInt32) (s : Procs) : Except Stop Procs :=
  match s.head with
  | none => .error .null
  | some head =>
    traverse Stop.spent Stop.null Procs.next (fun t s => s.setProc t (ageProc now (s.pool t))) head fuel s

/-- The second traversal of `process_schedule`, from `current_proc->next` back to it. -/
def pickPass (fuel : ℕ) (c : Slot) (s : Procs) : Except Stop (Option Slot × UInt32) :=
  match s.next c with
  | none => .error .null
  | some start =>
    traverse Stop.spent Stop.null (fun _ => s.next) (fun t b => pickProc s t b) start fuel (none, 0)

/-- The head of `process_schedule`: the context of the current process is saved. -/
def saveCurrent (esp : UInt32) (p : Process) : Process :=
  { p with esp := esp, state := if p.state = .running then .ready else p.state }

/-- `process_schedule(current_esp)`, with the value that it returns. Nothing in the kernel calls it. -/
def processSchedule (fuel : ℕ) (currentEsp now : UInt32) (s : Procs) : Except Stop (UInt32 × Procs) :=
  match s.current with
  | none => pure (currentEsp, s)
  | some c => do
    let s1 ← agePass fuel now (s.setProc c (saveCurrent currentEsp (s.pool c)))
    let (best, _) ← pickPass fuel c s1
    let b := best.getD 0
    pure ((s1.pool b).esp,
      { s1.setProc b { s1.pool b with state := .running } with current := some b })

/-- `process_sleep` as far as `process.c` goes; its `int $32` does not reach the process table. -/
def processSleep (ticks now : UInt32) (s : Procs) : Except Stop Procs :=
  if ticks = 0 then pure s
  else
    match s.current with
    | none => .error .null
    | some c =>
      pure (s.setProc c { s.pool c with sleepTicks := ticks, wakeTick := now + ticks, state := .sleeping })

/-! ## Runs -/

/-- A call of the process API, with the tick count at the call where it is read. -/
inductive ProcOp where
  | create (name : List UInt8) (entry priority ppid : UInt32)
  | exit (pid : UInt32)
  | sleep (ticks now : UInt32)
  | schedule (esp now : UInt32)

/-- The static data before `process_init`: all zero, so no slot is taken and no list is there. -/
def bootProcs (poolAddr : UInt32) : Procs where
  pool := fun _ =>
    { pid := 0, ppid := 0, name := [], state := .unused, priority := 0, esp := 0, sleepTicks := 0,
      cpuTime := 0, wakeTick := 0, stack := fun _ => 0, next := none }
  head := none
  current := none
  nextPid := 1
  poolAddr := poolAddr

/-- A call for the process table. -/
def procStep (fuel : ℕ) (s : Procs) : ProcOp → Except Stop Procs
  | .create name entry priority ppid => do
    let (_, s') ← processCreate fuel name entry priority ppid s
    pure s'
  | .exit pid => pure (processExit pid s)
  | .sleep ticks now => processSleep ticks now s
  | .schedule esp now => do
    let (_, s') ← processSchedule fuel esp now s
    pure s'

/-- The processes that are made current by the calls of `process_schedule` in turn, with what happens to the
process table before each of them. -/
def procCurrents (fuel : ℕ) :
    List ((Procs → Procs) × UInt32 × UInt32) → Procs → Except Stop (List (Option Slot))
  | [], _ => pure []
  | (before, esp, now) :: calls, s => do
    let (_, s') ← processSchedule fuel esp now (before s)
    let bs ← procCurrents fuel calls s'
    pure (processCurrent s' :: bs)

/-- The process table, with the tick count at the latest call of `process_schedule`. -/
structure ClockedProcs where
  procs : Procs
  now : UInt32

/-- The tick count that a call of `process_schedule` reads; no other call moves it on. -/
def tickAt (now : UInt32) : ProcOp → UInt32
  | .schedule _ now' => now'
  | _ => now

/-- A call for the process table, with the tick counter. -/
def clockedStep (fuel : ℕ) (x : ClockedProcs) (op : ProcOp) : Except Stop ClockedProcs := do
  let p ← procStep fuel x.procs op
  pure { procs := p, now := tickAt x.now op }

end RtosKernel
