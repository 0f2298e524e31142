import RtosKernel.Protection
import RtosKernel.Switch
import RtosKernel.Syscall

/-!
# The gate of the system calls (`isr128` of `interrupts.s`)

`int $0x80` goes through its gate to `isr128`, which pushes the four registers of the call as the arguments of
`syscall_handler` and returns with `iret`. A C function leaves arbitrary values in ECX, EDX and the flags.

The memory is that of the arena and of the stacks. The tables of the processor and the code are not in it: stores into
them are left out.
-/

namespace RtosKernel

open Lib

/-- The registers that `isr128` pushes. -/
inductive ArgReg where
  | eax
  | ebx
  | ecx
  | edx
  deriving DecidableEq, Repr

/-- The value of the register. -/
def ArgReg.get (r : ArgReg) (c : Cpu) : UInt32 :=
  match r with
  | .eax => c.eax
  | .ebx => c.ebx
  | .ecx => c.ecx
  | .edx => c.edx

/-- What a system call finds besides the processor and the state: what `syscall_handler` finds, the address behind the
call, what the compiled function leaves in the registers that it need not keep, and the flags of an addition. -/
structure GateEnv where
  env : SysEnv
  returnAddr : UInt32
  ecx : UInt32
  edx : UInt32
  eflags : UInt32
  addFlags : UInt32 → UInt32

/-- The state, with other contents of the memory. -/
def SysState.setMem (s : SysState) (m : Mem) : SysState := { s with heap := { s.heap with mem := m } }

/-- Where the frame of the call ends: the stack of the caller, or that of the TSS. -/
def frameTop (cpu : Cpu) : UInt32 := if rpl cpu.cs = 3 then 0x00400000 else cpu.esp

/-- The words that the processor pushes, in order. -/
def frameWords (cpu : Cpu) : List UInt32 :=
  (if rpl cpu.cs = 3 then [cpu.ss.toUInt32, cpu.esp] else []) ++ [cpu.eflags, cpu.cs.toUInt32, cpu.eip]

/-- The memory that `syscall_handler` finds: with the frame, the four arguments and the return address. -/
def calledWith (e : GateEnv) (cpu : Cpu) (m : Mem) : Mem :=
  m.pushAll (frameTop cpu) (frameWords cpu ++ [cpu.edx, cpu.ecx, cpu.ebx, cpu.eax, e.returnAddr])

/-- A system call of a run: the bytes that programs have stored before it, what it finds, and the processor at the
`int`. -/
structure GateCall where
  writes : ByteWrites
  gate : GateEnv
  cpu : Cpu

/-- The same call with another budget. -/
def GateEnv.withFuel (e : GateEnv) (fuel : ℕ) : GateEnv := { e with env := e.env.withFuel fuel }

/-- The state when the call is made. -/
def GateCall.before (c : GateCall) (s : SysState) : SysState := s.setMem (storeBytes c.writes s.heap.mem)

end RtosKernel
