import RtosKernel.SyscallGate
import RtosKernel.Proofs.ProtectionProofs
import RtosKernel.Proofs.SwitchProofs
import RtosKernel.Proofs.SyscallHeapProofs

/-!
# Proofs: the gate of the system calls

The way into `isr128` is a list of pushes on the stack of the caller or on that of the TSS (`int80_entry`), and `iret`
takes the frame of the processor from there (`isr128Exit_eq`). In between `syscall_handler` runs with the registers of
the caller as its arguments, in ring 0.
-/

namespace RtosKernel

open Lib Lib.Mem Lib.BlockList

/-! ## The way in -/

section Entry

variable {cpu : Cpu} {e : GateEnv} {m : Mem} {handler : UInt32}

/-- The caller runs in the kernel's code segment, or in that of ring 3. -/
def InCode (cpu : Cpu) : Prop := cpu.cs = 0x08 ∨ cpu.cs = 0x1B

theorem InCode.ring (h : InCode cpu) :
    (rpl cpu.cs = 0 ∧ cpu.cs = 0x08) ∨ (rpl cpu.cs = 3 ∧ cpu.cs = 0x1B) := by
  rcases h with h | h
  · exact .inl ⟨by rw [h]; decide, h⟩
  · exact .inr ⟨by rw [h]; decide, h⟩

theorem frameWords_length (cpu : Cpu) :
    (frameWords cpu).length = if rpl cpu.cs = 3 then 5 else 3 := by
  rw [frameWords]
  split_ifs <;> rfl

end Entry

/-! ## The way back -/

section Exit

variable {s : Machine} {cpu : Cpu} {addFlags : UInt32 → UInt32}

end Exit

/-! ## The call -/

section Handler

variable {env : SysEnv} {n a b ret : UInt32} {s s' : SysState} {bs : List Block} {h h' : Heap} {c : Caller}
  {ptr x : UInt32}

/-- The word that `kfree` stores first. -/
def InFreeStore (ptr x : UInt32) : Prop := ∃ i < 4, x = ptr - sizeofHeader + 4 + UInt32.ofNat i

end Handler

/-! ## A system call -/

section Call

variable {code : CodeAddrs} {t : Tables} {e : GateEnv} {cpu : Cpu} {s : SysState} {m : Mem}

/-- The words that the gate and `isr128` push. -/
def callWords (e : GateEnv) (cpu : Cpu) : List UInt32 :=
  frameWords cpu ++ [cpu.edx, cpu.ecx, cpu.ebx, cpu.eax, e.returnAddr]

theorem callWords_length (e : GateEnv) (cpu : Cpu) : (callWords e cpu).length = (frameWords cpu).length + 5 := by
  rw [callWords, List.length_append]
  rfl

theorem frameWords_le (cpu : Cpu) : (frameWords cpu).length ≤ 5 := by
  rw [frameWords_length]
  split_ifs <;> decide

/-- The addresses that the gate and `isr128` may push to. -/
def InFrame (cpu : Cpu) (x : ℕ) : Prop := (frameTop cpu).toNat - 40 ≤ x ∧ x < (frameTop cpu).toNat

theorem calledWith_writes (hroom : 40 ≤ (frameTop cpu).toNat) : WritesIn (InFrame cpu) m (calledWith e cpu m) := by
  have hlen := callWords_length e cpu
  have hle := frameWords_le cpu
  have hpush := @pushAll_writes m (frameTop cpu) (callWords e cpu) (by omega)
  refine hpush.mono fun x hx => ?_
  unfold InFrame
  omega

end Call

/-! ## Runs -/

section Runs

variable {code : CodeAddrs} {t : Tables} {e : GateEnv} {cpu : Cpu} {s : SysState} {m : Mem} {bs : List Block}
  {c : GateCall} {fuel : ℕ}

/-- The memory at the entry of `syscall_handler`. -/
def GateCall.called (c : GateCall) (s : SysState) : Mem := calledWith c.gate c.cpu (c.before s).heap.mem

/-- What keeps a system call from doing harm: the stack that its frame goes to has space and is not in the heap, the
programs have not stored into the headers of the blocks before, and a pointer that is freed makes `kfree` store neither
into the other headers nor into the frame. The arena and the frame are the words of the memory here; the IDT, the GDT,
the TSS and the code of the kernel are kept apart from it, so the stores of the programs and of `kfree` are taken to
spare them, too. -/
structure GateSafe (s : Cpu × SysState) (c : GateCall) : Prop where
  code : InCode c.cpu
  room : 40 ≤ (frameTop c.cpu).toNat
  stack : (frameTop c.cpu).toNat ≤ arenaLo ∨ arenaHi ≤ (frameTop c.cpu).toNat - 40
  writes : ∀ bs, BlocksFrom s.2.heap.mem heapStart bs → Tiles 12 arenaLo arenaHi bs →
    ∀ w ∈ c.writes, ∀ b ∈ bs, w.1.toNat < b.addr ∨ b.addr + 12 ≤ w.1.toNat
  free : c.cpu.eax = sysFree → c.cpu.ebx ≠ 0 →
    (∀ bs, BlocksFrom (c.called s.2) heapStart bs → Tiles 12 arenaLo arenaHi bs →
        SparesHeaders (c.called s.2) c.cpu.ebx bs) ∧
      ∀ x, InFreeStore c.cpu.ebx x → ¬ InFrame c.cpu x.toNat

theorem UserHeapInv.setMem (h : UserHeapInv ⟨s, []⟩ bs)
    (hm : ∀ b ∈ bs, Agree s.heap.mem m b.addr (b.addr + 12)) : UserHeapInv ⟨s.setMem m, []⟩ bs where
  blocks := h.blocks.congr h.canonical.tiles (by rw [arenaHi_eq]; norm_num) hm
  canonical := h.canonical
  mutex := h.mutex
  held p hp := absurd hp List.not_mem_nil

theorem UserHeapInv.before {s : Cpu × SysState} (h : UserHeapInv ⟨s.2, []⟩ bs) (hsafe : GateSafe s c) :
    UserHeapInv ⟨c.before s.2, []⟩ bs := by
  refine h.setMem fun b hb x hlo hhi => ?_
  rw [storeBytes_byte, writeBytes_of_notMem fun w hw hwx => ?_]
  have hspare := hsafe.writes bs h.blocks h.canonical.tiles w hw b hb
  rw [hwx] at hspare
  omega

theorem UserHeapInv.called {s : Cpu × SysState} (h : UserHeapInv ⟨s.2, []⟩ bs) (hsafe : GateSafe s c) :
    UserHeapInv ⟨(c.before s.2).setMem (c.called s.2), []⟩ bs := by
  have hbefore := h.before hsafe
  refine hbefore.setMem fun b hb x hlo hhi => ?_
  refine (calledWith_writes hsafe.room).keeps x fun hx => ?_
  have hbd := h.canonical.tiles.bounds hb
  have hstack := hsafe.stack
  unfold InFrame at hx
  omega

end Runs

end RtosKernel
