import RtosKernel.Stubs
import RtosKernel.Proofs.InterruptProofs

/-!
# Proofs: the entry into an interrupt and the return

The entry is a list of pushes, whatever the vector (`runEntry_eq`). The return loads the processor from the
`registers_t` on the stack (`runExit_registers`). Both name the words of the stack by their place in the struct.
-/

namespace RtosKernel

open Lib

theorem setLow_toUInt16 (r : UInt32) (v : UInt16) : (setLow r v).toUInt16 = v := by
  apply UInt16.toBitVec_inj.mp
  apply BitVec.eq_of_getLsbD_eq
  intro i hi
  simp [setLow, hi]

/-! ## The entry -/

section Entry

variable {handler : UInt32} {err : Option UInt32} {n : UInt8} {s : Machine}

theorem foldl_push_words (ws : List UInt32) (s : Machine) :
    ws.foldl (fun s w => s.push w) s =
      { s with
        cpu := { s.cpu with esp := s.cpu.esp - 4 * UInt32.ofNat ws.length }
        mem := s.mem.pushAll s.cpu.esp ws } := by
  induction ws generalizing s with
  | nil => simp [Mem.pushAll]
  | cons w ws ih =>
    have hsp : s.cpu.esp - 4 - 4 * UInt32.ofNat ws.length = s.cpu.esp - 4 * UInt32.ofNat (ws.length + 1) := by
      rw [UInt32.ofNat_add]
      grind
    rw [List.foldl_cons, ih, List.length_cons]
    simp only [Machine.push, hsp, Mem.pushAll]

theorem raiseVector_eq (handler : UInt32) (err : Option UInt32) (s : Machine) :
    raiseVector handler err s =
      { s with
        cpu := { s.cpu with
          esp := s.cpu.esp - 4 * UInt32.ofNat (3 + err.toList.length)
          eip := handler, cs := 0x08, eflags := s.cpu.eflags &&& ~~~gateFlags }
        mem := s.mem.pushAll s.cpu.esp ([s.cpu.eflags, s.cpu.cs.toUInt32, s.cpu.eip] ++ err.toList) } := by
  have hpush : (((s.push s.cpu.eflags).push s.cpu.cs.toUInt32).push s.cpu.eip).pushOption err =
      ([s.cpu.eflags, s.cpu.cs.toUInt32, s.cpu.eip] ++ err.toList).foldl (fun s w => s.push w) s := by
    cases err <;> rfl
  simp only [raiseVector, hpush, foldl_push_words, List.length_append, List.length_cons, List.length_nil]

theorem runEntry_stub (n : UInt8) (s : Machine) :
    runEntry (vectorStub n) s =
      { s with
        cpu := { s.cpu with
          esp := s.cpu.esp - 4 * UInt32.ofNat (stubWords n).length, eflags := s.cpu.eflags &&& ~~~0x200 }
        mem := s.mem.pushAll s.cpu.esp (stubWords n) } := by
  have hpush := foldl_push_words (stubWords n) (execEntry s .cli)
  unfold vectorStub stubWords at *
  split_ifs with h
  · rw [if_pos h] at hpush
    exact hpush
  · rw [if_neg h] at hpush
    exact hpush

/-- The words that the common part of a stub pushes. -/
def commonWords (c : Cpu) : List UInt32 :=
  [c.eax, c.ecx, c.edx, c.ebx, c.esp, c.ebp, c.esi, c.edi, setLow c.eax c.ds]

theorem pusha_eq (s : Machine) :
    pusha s =
      { s with
        cpu := { s.cpu with esp := s.cpu.esp - 4 * 8 }
        mem := s.mem.pushAll s.cpu.esp
          [s.cpu.eax, s.cpu.ecx, s.cpu.edx, s.cpu.ebx, s.cpu.esp, s.cpu.ebp, s.cpu.esi, s.cpu.edi] } :=
  foldl_push_words [s.cpu.eax, s.cpu.ecx, s.cpu.edx, s.cpu.ebx, s.cpu.esp, s.cpu.ebp, s.cpu.esi, s.cpu.edi] s

theorem runEntry_common (s : Machine) :
    runEntry commonEntry s =
      { s with
        cpu := { s.cpu with
          eax := setLow (setLow s.cpu.eax s.cpu.ds) 0x10, esp := s.cpu.esp - 4 * 9
          ds := 0x10, es := 0x10, fs := 0x10, gs := 0x10 }
        mem := s.mem.pushAll s.cpu.esp (commonWords s.cpu) } := by
  have hsp : s.cpu.esp - 4 * 8 - 4 = s.cpu.esp - 4 * 9 := by grind
  have hwords : commonWords s.cpu =
      [s.cpu.eax, s.cpu.ecx, s.cpu.edx, s.cpu.ebx, s.cpu.esp, s.cpu.ebp, s.cpu.esi, s.cpu.edi] ++
        [setLow s.cpu.eax s.cpu.ds] := rfl
  have hlast (m : Mem) (w : UInt32) :
      m.pushAll (s.cpu.esp - 4 * UInt32.ofNat 8) [w] = m.store32 (s.cpu.esp - 4 * 9) w := by
    rw [← hsp]
    rfl
  rw [hwords, Mem.pushAll_append]
  simp only [List.length_cons, List.length_nil, Nat.reduceAdd, hlast]
  simp only [runEntry, commonEntry, List.foldl_cons, List.foldl_nil, execEntry, pusha_eq, Machine.push, loadSeg,
    setLow_toUInt16, hsp]

theorem sub_words (sp : UInt32) (a b : ℕ) :
    sp - 4 * UInt32.ofNat a - 4 * UInt32.ofNat b = sp - 4 * UInt32.ofNat (a + b) := by
  rw [UInt32.ofNat_add]
  grind

/-- **Whatever the vector: the words are pushed, and the C function is called with the kernel's segments.** -/
theorem runEntry_eq (handler : UInt32) (err : Option UInt32) (n : UInt8) (s : Machine) :
    runEntry (vectorStub n ++ commonEntry) (raiseVector handler err s) =
      { s with
        cpu := handlerCpu handler (interruptWords n err s.cpu).length s.cpu
        mem := s.mem.pushAll s.cpu.esp (interruptWords n err s.cpu) } := by
  have happend : runEntry (vectorStub n ++ commonEntry) (raiseVector handler err s) =
      runEntry commonEntry (runEntry (vectorStub n) (raiseVector handler err s)) := List.foldl_append
  have hnine (sp : UInt32) : sp - 4 * 9 = sp - 4 * UInt32.ofNat 9 := rfl
  rw [happend, raiseVector_eq, runEntry_stub, runEntry_common, interruptWords, handlerCpu]
  simp only [commonWords, hnine, sub_words, Mem.pushAll_append, List.length_append, List.length_cons, List.length_nil]

end Entry

/-! ## The return -/

/-- The struct at `a` is what the end of `irq_common_stub` makes `c` of. -/
def SavedAt (m : Mem) (a : UInt32) (c : Cpu) : Prop := (readRegisters m a).resume a c = c

/-- The words of the struct that matter. -/
theorem savedAt_of_words {m : Mem} {a : UInt32} {c : Cpu} {x y n e : UInt32}
    (h : m.WordsAt a [setLow x c.ds, c.edi, c.esi, c.ebp, y, c.ebx, c.edx, c.ecx, c.eax, n, e, c.eip,
      c.cs.toUInt32, c.eflags])
    (hesp : c.esp = a + 56) : SavedAt m a c.flat := by
  have hds : m.load32 a = setLow x c.ds := by
    have hword := h 0 (by simp)
    have hzero : a + 4 * UInt32.ofNat 0 = a := UInt32.add_zero a
    rwa [hzero] at hword
  have hcs : c.cs.toUInt32.toUInt16 = c.cs := UInt16.toUInt16_toUInt32 c.cs
  have hedi : m.load32 (a + 4) = c.edi := h 1 (by simp)
  have hesi : m.load32 (a + 8) = c.esi := h 2 (by simp)
  have hebp : m.load32 (a + 12) = c.ebp := h 3 (by simp)
  have hebx : m.load32 (a + 20) = c.ebx := h 5 (by simp)
  have hedx : m.load32 (a + 24) = c.edx := h 6 (by simp)
  have hecx : m.load32 (a + 28) = c.ecx := h 7 (by simp)
  have heax : m.load32 (a + 32) = c.eax := h 8 (by simp)
  have heip : m.load32 (a + 44) = c.eip := h 11 (by simp)
  have hcode : m.load32 (a + 48) = c.cs.toUInt32 := h 12 (by simp)
  have hflags : m.load32 (a + 52) = c.eflags := h 13 (by simp)
  simp only [SavedAt, Registers.resume, readRegisters, Cpu.flat, hds, hedi, hesi, hebp, hebx, hedx, hecx, heax, heip,
    hcode, hflags, setLow_toUInt16, hcs, hesp]

/-- **The return from an interrupt, to code in the kernel's segment, loads the processor from the struct.** -/
theorem runExit_registers {addFlags : UInt32 → UInt32} {s : Machine} (hcs : s.cpu.cs = 0x08)
    (hto : (readRegisters s.mem s.cpu.eax).cs.toUInt16 = 0x08) :
    (runExit addFlags s).cpu = (readRegisters s.mem s.cpu.eax).resume s.cpu.eax s.cpu ∧
      (runExit addFlags s).mem = s.mem := by
  have hring : ¬ (0x08 : UInt16) &&& 3 < 0x08 &&& 3 := by decide
  simp only [readRegisters] at hto
  simp only [runExit, irqExit, List.foldl_cons, List.foldl_nil, execInstr, popa, iret, Machine.pop, Machine.skip,
    loadSeg, hcs, UInt32.add_assoc, UInt32.reduceAdd, hto, hring, if_false]
  simp only [Registers.resume, readRegisters, hto, and_self]

end RtosKernel
