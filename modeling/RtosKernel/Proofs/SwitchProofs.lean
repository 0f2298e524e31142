import RtosKernel.Switch
import RtosKernel.Proofs.StubProofs
import RtosKernel.Proofs.TaskContextProofs

/-!
# Proofs: the context switch

Between two steps, every task but the running one has its frame on its stack, where `schedule` has noted it, and the
frame holds the processor of the task (`SwitchInv`).
-/

namespace RtosKernel

open Lib Lib.Mem

/-! ## Stacks -/

section Stacks

variable {L : StackLayout} {t u : TaskRef} {a : UInt32} {m m' : Mem} {writes : ByteWrites}

namespace StackLayout

theorem hi_le (L : StackLayout) (t : TaskRef) : L.hi t ≤ 2 ^ 32 := by
  have hpool := L.pool_fits
  cases t with
  | mainTask => exact L.main_fits
  | pool i =>
    have hi : i.val < 8 := i.isLt
    simp only [StackLayout.hi]
    omega

/-- The stacks are apart. -/
theorem InStack.unique (h : L.InStack t a) (h' : L.InStack u a) : t = u := by
  obtain ⟨h1, h2⟩ := h
  obtain ⟨h3, h4⟩ := h'
  have hapart := L.apart
  cases t with
  | mainTask =>
    cases u with
    | mainTask => rfl
    | pool j =>
      have hj : j.val < 8 := j.isLt
      simp only [StackLayout.lo, StackLayout.hi] at h1 h2 h3 h4
      omega
  | pool i =>
    have hi : i.val < 8 := i.isLt
    cases u with
    | mainTask =>
      simp only [StackLayout.lo, StackLayout.hi] at h1 h2 h3 h4
      omega
    | pool j =>
      have hj : j.val < 8 := j.isLt
      simp only [StackLayout.lo, StackLayout.hi] at h1 h2 h3 h4
      have hij : i = j := Fin.ext (by omega)
      rw [hij]

/-- The top of a stack of the pool, and the address that `create_task` starts from. -/
theorem stack_top (i : Fin taskPoolSize) : taskStackAddr L.pool i + 4096 = UInt32.ofNat (L.hi (.pool i)) := by
  have hpool : UInt32.ofNat L.pool.toNat = L.pool := UInt32.ofNat_toNat
  simp only [taskStackAddr, sizeofTask, taskStackOffset, StackLayout.hi, UInt32.ofNat_add, UInt32.ofNat_mul, hpool]
  rfl

theorem top_toNat (i : Fin taskPoolSize) : (UInt32.ofNat (L.hi (.pool i))).toNat = L.hi (.pool i) := by
  have hpool := L.pool_fits
  have hi : i.val < 8 := i.isLt
  simp only [StackLayout.hi]
  rw [UInt32.toNat_ofNat', Nat.mod_eq_of_lt (by omega)]

end StackLayout

theorem byte_store8 (m : Mem) (a : UInt32) (b : UInt8) : (m.store8 a b).byte = Function.update m.byte a b := by
  funext x
  rw [Function.update_apply]
  rfl

theorem storeBytes_byte (writes : ByteWrites) (m : Mem) : (storeBytes writes m).byte = writeBytes writes m.byte := by
  induction writes generalizing m with
  | nil => rfl
  | cons w writes ih =>
    have hrest := ih (m.store8 w.1 w.2)
    rw [byte_store8] at hrest
    exact hrest

/-- A byte after the stores depends only on that byte before. -/
theorem writeBytes_congr {f g : UInt32 → UInt8} (h : f a = g a) : writeBytes writes f a = writeBytes writes g a := by
  induction writes generalizing f g with
  | nil => exact h
  | cons w writes ih =>
    refine ih ?_
    show Function.update f w.1 w.2 a = Function.update g w.1 w.2 a
    rw [Function.update_apply, Function.update_apply, h]

theorem writeBytes_of_notMem {f : UInt32 → UInt8} (h : ∀ w ∈ writes, w.1 ≠ a) : writeBytes writes f a = f a := by
  induction writes generalizing f with
  | nil => rfl
  | cons w writes ih =>
    have hw : a ≠ w.1 := Ne.symm (h w List.mem_cons_self)
    rw [writeBytes, List.foldl_cons, ← writeBytes, ih fun w' hw' => h w' (List.mem_cons_of_mem _ hw'),
      Function.update_of_ne hw]

/-- A frame whose words are unchanged. -/
theorem SavedAt.agree {c : Cpu} (h : SavedAt m a c) (ha : a.toNat + 56 ≤ 2 ^ 32)
    (hm : Agree m m' a.toNat (a.toNat + 56)) : SavedAt m' a c := by
  have hword {k : ℕ} (hk : k < 14) : m'.load32 (a + 4 * UInt32.ofNat k) = m.load32 (a + 4 * UInt32.ofNat k) := by
    have haddr := word_addr (n := 14) ha hk
    exact hm.load32 (by omega) (by omega) (by omega)
  have hzero : a + 4 * UInt32.ofNat 0 = a := UInt32.add_zero a
  have h0 : m'.load32 a = m.load32 a := by
    have h0 := hword (k := 0) (by decide)
    rwa [hzero] at h0
  have hsame : (readRegisters m' a).resume a c = (readRegisters m a).resume a c := by
    have h1 : m'.load32 (a + 4) = m.load32 (a + 4) := hword (k := 1) (by decide)
    have h2 : m'.load32 (a + 8) = m.load32 (a + 8) := hword (k := 2) (by decide)
    have h3 : m'.load32 (a + 12) = m.load32 (a + 12) := hword (k := 3) (by decide)
    have h5 : m'.load32 (a + 20) = m.load32 (a + 20) := hword (k := 5) (by decide)
    have h6 : m'.load32 (a + 24) = m.load32 (a + 24) := hword (k := 6) (by decide)
    have h7 : m'.load32 (a + 28) = m.load32 (a + 28) := hword (k := 7) (by decide)
    have h8 : m'.load32 (a + 32) = m.load32 (a + 32) := hword (k := 8) (by decide)
    have h11 : m'.load32 (a + 44) = m.load32 (a + 44) := hword (k := 11) (by decide)
    have h12 : m'.load32 (a + 48) = m.load32 (a + 48) := hword (k := 12) (by decide)
    have h13 : m'.load32 (a + 52) = m.load32 (a + 52) := hword (k := 13) (by decide)
    simp only [Registers.resume, readRegisters, h0, h1, h2, h3, h5, h6, h7, h8, h11, h12, h13]
  exact hsame.trans h

end Stacks

/-! ## The memory at an interrupt -/

section Interrupt

variable {env : SwitchEnv} {L : StackLayout} {i : Irq} {cpu : Cpu} {mem : Mem} {t : TaskRef} {writes : ByteWrites}

theorem interruptWords_irq (i : Irq) (c : Cpu) :
    (interruptWords i.vector none c).reverse =
      [setLow c.eax c.ds, c.edi, c.esi, c.ebp, c.esp - 4 * UInt32.ofNat 5, c.ebx, c.edx, c.ecx, c.eax,
        i.vector.toUInt32, 0, c.eip, c.cs.toUInt32, c.eflags] := by
  cases i <;> rfl

/-- The frame of the interrupted task. -/
def frameMem (i : Irq) (cpu : Cpu) (mem : Mem) : Mem := mem.pushAll cpu.esp (interruptWords i.vector none cpu)

/-- The memory that `irq_handler` finds. -/
def calledMem (env : SwitchEnv) (i : Irq) (cpu : Cpu) (mem : Mem) : Mem :=
  ((frameMem i cpu mem).store32 (cpu.esp - 60) (cpu.esp - 56)).store32 (cpu.esp - 64) env.returnAddr

theorem enterIrq_eq (env : SwitchEnv) (i : Irq) (cpu : Cpu) (mem : Mem) :
    let m := enterIrq env i cpu mem
    m.mem.load32 m.cpu.esp = cpu.esp - 56 ∧ m.cpu.cs = 0x08 ∧ m.cpu.ss = cpu.ss ∧
      (m.push env.returnAddr).mem = calledMem env i cpu mem := by
  have hlen : (interruptWords i.vector none cpu).length = 14 := by cases i <;> rfl
  have h60 : cpu.esp - 56 - 4 = cpu.esp - 60 := by grind
  have h64 : cpu.esp - 60 - 4 = cpu.esp - 64 := by grind
  have h56 : cpu.esp - 4 * UInt32.ofNat 14 = cpu.esp - 56 := rfl
  simp only [enterIrq, runEntry_eq, hlen]
  simp only [runEntry, List.foldl_cons, List.foldl_nil, execEntry, Machine.push, handlerCpu, h60, h64, h56,
    load32_store32, calledMem, frameMem, and_self]

theorem room_sub (h : L.Room t cpu.esp) :
    (cpu.esp - 56).toNat = cpu.esp.toNat - 56 ∧ (cpu.esp - 60).toNat = cpu.esp.toNat - 60 ∧
      (cpu.esp - 64).toNat = cpu.esp.toNat - 64 := by
  have hlow : 64 ≤ cpu.esp.toNat := by
    have h1 := h.1
    omega
  refine ⟨UInt32.toNat_sub_of_le _ _ (UInt32.le_iff_toNat_le.mpr ?_),
    UInt32.toNat_sub_of_le _ _ (UInt32.le_iff_toNat_le.mpr ?_),
    UInt32.toNat_sub_of_le _ _ (UInt32.le_iff_toNat_le.mpr ?_)⟩
  · exact le_trans (by decide) hlow
  · exact le_trans (by decide) hlow
  · exact hlow

/-- Until the C code runs, the stores are in the 64 bytes below the stack pointer. -/
theorem calledMem_writes (env : SwitchEnv) (i : Irq) (mem : Mem) (h : L.Room t cpu.esp) :
    WritesIn (fun x => cpu.esp.toNat - 64 ≤ x ∧ x < cpu.esp.toNat) mem (calledMem env i cpu mem) ∧
      WritesIn (fun x => cpu.esp.toNat - 64 ≤ x ∧ x < cpu.esp.toNat - 56) (frameMem i cpu mem)
        (calledMem env i cpu mem) := by
  obtain ⟨-, h60, h64⟩ := room_sub h
  have hroom := h.1
  have hlt : cpu.esp.toNat < 2 ^ 32 := cpu.esp.toNat_lt
  have hlen : (interruptWords i.vector none cpu).length = 14 := by cases i <;> rfl
  have hframe : WritesIn (fun x => cpu.esp.toNat - 64 ≤ x ∧ x < cpu.esp.toNat) mem (frameMem i cpu mem) := by
    have hpush := @pushAll_writes mem cpu.esp (interruptWords i.vector none cpu) (by rw [hlen]; omega)
    exact hpush.mono fun x hx => by rw [hlen] at hx; omega
  have hcall : WritesIn (fun x => cpu.esp.toNat - 64 ≤ x ∧ x < cpu.esp.toNat - 56) (frameMem i cpu mem)
      (calledMem env i cpu mem) := by
    refine WritesIn.trans (WritesIn.store32 _ _ ?_ fun x h1 h2 => ?_) (WritesIn.store32 _ _ ?_ fun x h1 h2 => ?_)
    · omega
    · omega
    · omega
    · omega
  exact ⟨hframe.trans (hcall.mono fun x hx => by omega), hcall⟩

/-- What is left of the memory behind the handler: the other stacks, the stack above the stack pointer, and the
frame. -/
theorem handler_agree (env : SwitchEnv) (i : Irq) (mem : Mem) (h : L.Room t cpu.esp)
    (hw : ∀ w ∈ writes, ∀ u, L.InStack u w.1 → u = t ∧ w.1.toNat < cpu.esp.toNat - 56) :
    (∀ u, u ≠ t → Agree mem (storeBytes writes (calledMem env i cpu mem)) (L.lo u) (L.hi u)) ∧
      Agree mem (storeBytes writes (calledMem env i cpu mem)) cpu.esp.toNat (L.hi t) ∧
      Agree (frameMem i cpu mem) (storeBytes writes (calledMem env i cpu mem)) (cpu.esp - 56).toNat
        ((cpu.esp - 56).toNat + 56) := by
  obtain ⟨h56, -, -⟩ := room_sub h
  obtain ⟨hcalled, hframe⟩ := calledMem_writes env i mem h
  obtain ⟨hlo, hhi⟩ := h
  refine ⟨fun u hu x h1 h2 => ?_, fun x h1 h2 => ?_, fun x h1 h2 => ?_⟩
  · rw [storeBytes_byte, writeBytes_of_notMem fun w hwm hwx => ?_]
    · refine hcalled.keeps x fun hx => hu ?_
      exact StackLayout.InStack.unique (L := L) (a := x) ⟨h1, h2⟩ ⟨by omega, by omega⟩
    · rw [← hwx] at h1 h2
      exact hu (hw w hwm u ⟨h1, h2⟩).1
  · rw [storeBytes_byte, writeBytes_of_notMem fun w hwm hwx => ?_]
    · exact hcalled.keeps x fun hx => by omega
    · rw [← hwx] at h1 h2
      have hbelow := (hw w hwm t ⟨by omega, h2⟩).2
      omega
  · rw [storeBytes_byte, writeBytes_of_notMem fun w hwm hwx => ?_]
    · exact hframe.keeps x fun hx => by omega
    · rw [← hwx] at h1 h2
      have hbelow := (hw w hwm t ⟨by omega, by omega⟩).2
      omega

/-- The frame of the interrupted task is still there when the handler returns. -/
theorem frame_saved (h : L.Room t cpu.esp) {m' : Mem}
    (hm : Agree (frameMem i cpu mem) m' (cpu.esp - 56).toNat ((cpu.esp - 56).toNat + 56)) :
    SavedAt m' (cpu.esp - 56) cpu.flat ∧ (cpu.esp - 56).toNat + 56 = cpu.esp.toNat := by
  obtain ⟨h56, -, -⟩ := room_sub h
  have hroom := h.1
  have hlt : cpu.esp.toNat < 2 ^ 32 := cpu.esp.toNat_lt
  have hlen : (interruptWords i.vector none cpu).length = 14 := by cases i <;> rfl
  have hwords : (frameMem i cpu mem).WordsAt (cpu.esp - 56) (interruptWords i.vector none cpu).reverse := by
    have hpush := @pushAll_wordsAt mem cpu.esp (interruptWords i.vector none cpu) (by rw [hlen]; omega)
    rw [hlen] at hpush
    exact hpush
  rw [interruptWords_irq] at hwords
  have hsaved := savedAt_of_words hwords (by grind)
  exact ⟨hsaved.agree (by omega) hm, by omega⟩

end Interrupt

/-! ## The invariant -/

/-- A task that does not run: the frame of its processor, at the stack pointer that is saved. -/
structure Suspended (m : Mem) (esp : UInt32) (c : Cpu) : Prop where
  frame : SavedAt m esp c
  top : esp.toNat + 56 = c.esp.toNat

/-- Between two steps: the states agree, and every task but the running one has its frame on its stack, where `schedule`
has noted it. -/
structure SwitchInv (L : StackLayout) (s : SwitchSys) (v : VirtualSys) : Prop where
  ring : ∃ l, TaskRing s.kernel.tasking l
  pool : s.kernel.tasking.poolAddr = L.pool
  created : s.kernel.tasking.poolIndex = v.created
  bound : v.created ≤ taskPoolSize
  sim : Simulates L s v
  room : ∀ t, v.Exists t → L.Room t (v.cpu t).esp
  code : ∀ t, v.Exists t → (v.cpu t).cs = 0x08 ∧ (v.cpu t).ss = 0x10
  away : ∀ t, v.Exists t → t ≠ v.current → Suspended s.mem (s.kernel.tasking.tasks t).esp (v.cpu t)

section Steps

variable {env : SwitchEnv} {L : StackLayout} {s s' : SwitchSys} {v : VirtualSys} {t : TaskRef} {m m' : Mem}
  {esp : UInt32} {c : Cpu}

theorem SwitchInv.exists_iff (h : SwitchInv L s v) (t : TaskRef) : v.Exists t ↔ Created s.kernel.tasking t := by
  cases t with
  | mainTask => exact Iff.rfl
  | pool i =>
    show i.val < v.created ↔ i.val < s.kernel.tasking.poolIndex
    rw [h.created]

theorem SwitchInv.current_exists (h : SwitchInv L s v) : v.Exists v.current := by
  obtain ⟨l, hl⟩ := h.ring
  rw [h.exists_iff, ← h.sim.current]
  exact (hl.mem _).mp hl.current

/-- The frame of a suspended task is on its stack. -/
theorem Suspended.keep (h : Suspended m esp c) (hroom : L.Room t c.esp) (hm : Agree m m' (L.lo t) (L.hi t)) :
    Suspended m' esp c := by
  have htop := h.top
  have hhi := L.hi_le t
  obtain ⟨h1, h2⟩ := hroom
  exact ⟨h.frame.agree (by omega) (hm.mono (by omega) (by omega)), htop⟩

theorem Room_inStack {sp a : UInt32} (h : L.Room t sp) (h1 : sp ≤ a) (h2 : a.toNat < L.hi t) : L.InStack t a := by
  have hle := UInt32.le_iff_toNat_le.mp h1
  have hlo := h.1
  exact ⟨by omega, h2⟩

theorem agree_byte {lo hi : ℕ} (h : Agree m m' lo hi) {a : UInt32} (h1 : lo ≤ a.toNat) (h2 : a.toNat < hi) :
    m'.byte a = m.byte a := h a h1 h2

/-- The running task executes some instructions. -/
theorem SwitchInv.exec (h : SwitchInv L s v) {cpu : Cpu} {writes : ByteWrites}
    (hsafe : SwitchOp.Safe L s (.exec cpu writes)) :
    ∃ v', VirtualStep L v (.exec cpu writes) v' ∧
      SwitchInv L { s with cpu := cpu, mem := storeBytes writes s.mem } v' := by
  obtain ⟨hcs, hss, hroom, hwrites⟩ := hsafe
  rw [h.sim.current] at hroom hwrites
  -- below the stack pointer the task finds what the interrupts have left there
  let bytes : UInt32 → UInt8 := fun a =>
    if (v.cpu v.current).esp ≤ a then v.stack v.current a else s.mem.byte a
  have hother {u : TaskRef} (hu : u ≠ v.current) : Agree s.mem (storeBytes writes s.mem) (L.lo u) (L.hi u) := by
    intro x h1 h2
    rw [storeBytes_byte, writeBytes_of_notMem]
    intro w hw hwx
    rw [← hwx] at h1 h2
    exact hu ((hwrites w hw).2 u ⟨h1, h2⟩)
  refine ⟨_, .exec cpu writes bytes fun a ha => if_pos ha, h.ring, h.pool, h.created, h.bound,
    ⟨h.sim.current, ?_, fun t ht a h1 h2 => ?_⟩, fun t ht => ?_, fun t ht => ?_, fun t ht hne => ?_⟩
  · dsimp only
    rw [Function.update_self]
  · dsimp only at h1 ⊢
    by_cases hu : t = v.current
    · subst hu
      rw [Function.update_self, storeBytes_byte]
      refine writeBytes_congr ?_
      show s.mem.byte a = bytes a
      simp only [bytes]
      split_ifs with hle
      · exact h.sim.stack _ ht a hle h2
      · rfl
    · rw [Function.update_of_ne hu] at h1 ⊢
      have hin := Room_inStack (h.room t ht) h1 h2
      rw [agree_byte (hother hu) hin.1 hin.2]
      exact h.sim.stack t ht a h1 h2
  · dsimp only
    by_cases hu : t = v.current
    · subst hu
      rw [Function.update_self]
      exact hroom
    · rw [Function.update_of_ne hu]
      exact h.room t ht
  · dsimp only
    by_cases hu : t = v.current
    · subst hu
      rw [Function.update_self]
      exact ⟨hcs, hss⟩
    · rw [Function.update_of_ne hu]
      exact h.code t ht
  · dsimp only at hne ⊢
    rw [Function.update_of_ne hne]
    exact (h.away t ht hne).keep (h.room t ht) (hother hne)

/-- The assignments of `task_sleep`. -/
theorem SwitchInv.sleep (h : SwitchInv L s v) (ticks : UInt32) :
    SwitchInv L { s with kernel := { s.kernel with tasking := markSleeping ticks s.kernel.tasking } } v := by
  obtain ⟨l, hl⟩ := h.ring
  have hsame := markSleeping_same ticks s.kernel.tasking
  refine ⟨⟨l, setTask_ring hl rfl⟩, hsame.poolAddr.trans h.pool, h.created, h.bound,
    ⟨h.sim.current, h.sim.running, h.sim.stack⟩, h.room, h.code, fun t ht hne => ?_⟩
  show Suspended s.mem ((markSleeping ticks s.kernel.tasking).tasks t).esp (v.cpu t)
  rw [hsame.esp]
  exact h.away t ht hne

/-- The stack that `create_task` builds. -/
theorem initialFrame_saved (entry : UInt32) (mem : Mem) (top : UInt32) (h : 56 ≤ top.toNat) :
    Suspended (mem.pushAll top (initialFrame entry)) (top - 56) (entryCpu entry top) := by
  have hsub : (top - 56).toNat = top.toNat - 56 := UInt32.toNat_sub_of_le _ _ (UInt32.le_iff_toNat_le.mpr h)
  have hwords := @pushAll_wordsAt mem top (initialFrame entry) h
  have hds : setLow 0 0x10 = 0x10 := by decide
  have hlist : (initialFrame entry).reverse =
      [setLow 0 0x10, 0, 0, 0, 0, 0, 0, 0, 0, 32, 0, entry, (0x08 : UInt16).toUInt32, 0x202] := by
    rw [hds]
    rfl
  rw [hlist] at hwords
  have hflat : (entryCpu entry top).flat = entryCpu entry top := rfl
  refine ⟨?_, by rw [hsub]; exact Nat.sub_add_cancel h⟩
  rw [← hflat]
  exact savedAt_of_words hwords (UInt32.sub_add_cancel top 56).symm

/-- `create_task` with a free slot of the pool. -/
theorem SwitchInv.create (h : SwitchInv L s v) (entry priority : UInt32) :
    ∃ v', VirtualStep L v (.create entry priority) v' ∧ SwitchInv L (createSwitch entry priority s) v' := by
  obtain ⟨l, hl⟩ := h.ring
  by_cases hp : s.kernel.tasking.poolIndex < taskPoolSize
  · have hx := hl.current_ne_new hp
    let i : Fin taskPoolSize := ⟨s.kernel.tasking.poolIndex, hp⟩
    obtain ⟨-, hcur, hidx, -, hold⟩ := createTask_spec entry priority hp hx
    obtain ⟨-, -, hpool, -, hesp⟩ := createTask_numbers entry priority hp hx
    have htop : taskStackAddr s.kernel.tasking.poolAddr s.kernel.tasking.poolIndex + 4096 =
        UInt32.ofNat (L.hi (.pool i)) := by
      rw [h.pool]
      exact StackLayout.stack_top i
    have hnat := L.top_toNat i
    have hsize : L.lo (.pool i) + 4096 = L.hi (.pool i) := rfl
    have hmem : (createSwitch entry priority s).mem =
        s.mem.pushAll (UInt32.ofNat (L.hi (.pool i))) (initialFrame entry) := by
      rw [createSwitch, if_pos hp, htop]
    have hnew : ∀ t, v.Exists t → t ≠ .pool i := by
      rintro t ht rfl
      have hlt : i.val < v.created := ht
      rw [← h.created] at hlt
      exact Nat.lt_irrefl _ hlt
    -- the pushes are in the stack of the new task
    have hother {u : TaskRef} (hu : u ≠ .pool i) :
        Agree s.mem (createSwitch entry priority s).mem (L.lo u) (L.hi u) := by
      intro x h1 h2
      rw [hmem]
      refine (pushAll_writes ?_).keeps x fun hxm => hu ?_
      · rw [initialFrame_length]
        omega
      · rw [initialFrame_length] at hxm
        exact StackLayout.InStack.unique (L := L) (a := x) ⟨h1, h2⟩ ⟨by omega, by omega⟩
    have hcases {t : TaskRef} (ht : VirtualSys.Exists { v with created := v.created + 1 } t) :
        t = .pool i ∨ v.Exists t := by
      cases t with
      | mainTask => exact .inr trivial
      | pool j =>
        have hlt : j.val < v.created + 1 := ht
        rcases Nat.lt_succ_iff_lt_or_eq.mp hlt with hlt | heq
        · exact .inr hlt
        · exact .inl (congrArg TaskRef.pool (Fin.ext (heq.trans h.created.symm)))
    refine ⟨_, .create entry priority i h.created, hl.create entry priority, hpool.trans h.pool, ?_, ?_,
      ⟨hcur.trans h.sim.current, ?_, fun t ht a h1 h2 => ?_⟩, fun t ht => ?_, fun t ht => ?_, fun t ht hne => ?_⟩
    · show (createTask entry priority s.kernel.tasking).poolIndex = v.created + 1
      rw [hidx, h.created]
    · show v.created + 1 ≤ taskPoolSize
      rw [← h.created]
      exact hp
    · dsimp only
      rw [Function.update_of_ne (hnew _ h.current_exists)]
      exact h.sim.running
    · dsimp only at h1 ⊢
      rcases hcases ht with rfl | ht
      · rw [Function.update_self] at h1
        have hle := UInt32.le_iff_toNat_le.mp h1
        rw [show (entryCpu entry (UInt32.ofNat (L.hi (.pool i)))).esp = UInt32.ofNat (L.hi (.pool i)) from rfl,
          hnat] at hle
        omega
      · rw [Function.update_of_ne (hnew t ht)] at h1
        have hin := Room_inStack (h.room t ht) h1 h2
        rw [agree_byte (hother (hnew t ht)) hin.1 hin.2]
        exact h.sim.stack t ht a h1 h2
    · dsimp only
      rcases hcases ht with rfl | ht
      · rw [Function.update_self]
        show L.lo _ + 64 ≤ (UInt32.ofNat (L.hi (.pool i))).toNat ∧ (UInt32.ofNat (L.hi (.pool i))).toNat ≤ L.hi _
        rw [hnat]
        omega
      · rw [Function.update_of_ne (hnew t ht)]
        exact h.room t ht
    · dsimp only
      rcases hcases ht with rfl | ht
      · rw [Function.update_self]
        exact ⟨rfl, rfl⟩
      · rw [Function.update_of_ne (hnew t ht)]
        exact h.code t ht
    · dsimp only at hne ⊢
      show Suspended _ ((createTask entry priority s.kernel.tasking).tasks t).esp _
      rcases hcases ht with rfl | ht
      · rw [Function.update_self, hesp, hmem]
        have hsaved := initialFrame_saved entry s.mem (UInt32.ofNat (L.hi (.pool i))) (by rw [hnat]; omega)
        have haddr : initialEsp s.kernel.tasking.poolAddr i = UInt32.ofNat (L.hi (.pool i)) - 56 := by
          rw [← htop]
          have hwords : 4 * UInt32.ofNat (taskStackWords - (initialFrame 0).length) = 4096 - 56 := rfl
          rw [initialEsp, hwords, taskStackAddr]
          grind
        rw [haddr]
        exact hsaved
      · obtain ⟨n, hn⟩ := hold t (hnew t ht)
        rw [Function.update_of_ne (hnew t ht), hn]
        exact (h.away t ht hne).keep (h.room t ht) (hother (hnew t ht))
  · have hfull : createTask entry priority s.kernel.tasking = s.kernel.tasking := createTask_full entry priority hp
    have hsame : createSwitch entry priority s = s := by
      simp only [createSwitch, hfull, if_neg hp]
    rw [hsame]
    exact ⟨v, .full entry priority (by rw [← h.created]; exact Nat.le_of_not_lt hp), h⟩

/-- What `irq_handler` returns: the stack pointer of the task that goes on; the one it was given is noted if the
interrupted task does not. -/
structure HandlerReturns (i : Irq) (regs esp : UInt32) (k k' : Tasking) : Prop where
  ring : ∃ l, TaskRing k' l
  poolAddr : k'.poolAddr = k.poolAddr
  poolIndex : k'.poolIndex = k.poolIndex
  saved : ∀ t, t ≠ k'.current → (k'.tasks t).esp = if t = k.current then regs else (k.tasks t).esp
  target : esp = if k'.current = k.current then regs else (k.tasks k'.current).esp
  key : i = .irq1 → k'.current = k.current

theorem irqHandlerRet_returns {k : Kernel} {l : List TaskRef} (hl : TaskRing k.tasking l) {fuel : ℕ} (hf : 9 ≤ fuel)
    (body : Callbacks) (i : Irq) (regs : UInt32) :
    ∃ esp k', irqHandlerRet body fuel i regs k = .ok (esp, k') ∧
      HandlerReturns i regs esp k.tasking k'.tasking := by
  cases i with
  | irq0 =>
    obtain ⟨esp, t, he, hs⟩ := hl.schedule hf regs
    obtain ⟨-, -, hpool, -, hesp, hr⟩ := schedule_frame he
    refine ⟨esp, { k with timer := if k.timerHandler then (timerIrqCallback body k.timer).1 else k.timer, tasking := t },
      ?_, ⟨l, hs.ring hl⟩, hpool, hs.poolIndex, fun u _ => hesp u, ?_, fun h => nomatch h⟩
    · simp only [irqHandlerRet, he, ok_bind, pure_eq_ok]
    · rw [hr]
      exact hesp _
  | irq1 =>
    refine ⟨regs, k, rfl, ⟨l, hl⟩, rfl, rfl, fun u hu => (if_neg hu).symm, (if_pos rfl).symm, fun _ => rfl⟩

/-- `irq_handler` for the timer is that of the kernel model. -/
theorem irqHandlerRet_irq0 (body : Callbacks) (fuel : ℕ) (regs : UInt32) (k : Kernel) :
    (irqHandlerRet body fuel .irq0 regs k).map Prod.snd = irqHandler body fuel regs k := by
  simp only [irqHandlerRet, irqHandler]
  cases schedule fuel regs k.tasking <;> rfl

/-- The processor that the end of the stub loads. -/
theorem runExit_saved {addFlags : UInt32 → UInt32} {mach : Machine} (h : SavedAt mach.mem mach.cpu.eax c)
    (hcs : mach.cpu.cs = 0x08) (hss : mach.cpu.ss = 0x10) (hc : c.cs = 0x08 ∧ c.ss = 0x10) :
    (runExit addFlags mach).cpu = c ∧ (runExit addFlags mach).mem = mach.mem := by
  have hto : (readRegisters mach.mem mach.cpu.eax).cs.toUInt16 = 0x08 := by
    have hfield := congrArg Cpu.cs h
    exact hfield.trans hc.1
  obtain ⟨hcpu, hmem⟩ := @runExit_registers addFlags mach hcs hto
  refine ⟨?_, hmem⟩
  rw [hcpu, ← h]
  simp only [Registers.resume, hss, hc.2]

theorem goOn_self (v : VirtualSys) (next : TaskRef) : (v.goOn next).cpu v.current = (v.cpu v.current).flat :=
  Function.update_self ..

theorem goOn_of_ne (v : VirtualSys) (next : TaskRef) {t : TaskRef} (h : t ≠ v.current) :
    (v.goOn next).cpu t = v.cpu t := Function.update_of_ne h ..

theorem goOn_cpu (v : VirtualSys) (next t : TaskRef) : ((v.goOn next).cpu t).esp = (v.cpu t).esp ∧
    ((v.goOn next).cpu t).cs = (v.cpu t).cs ∧ ((v.goOn next).cpu t).ss = (v.cpu t).ss := by
  by_cases he : t = v.current
  · subst he
    rw [goOn_self]
    exact ⟨rfl, rfl, rfl⟩
  · rw [goOn_of_ne v next he]
    exact ⟨rfl, rfl, rfl⟩

/-- When `irq_handler` returns, every task has its frame on its stack. -/
theorem SwitchInv.all_suspended (h : SwitchInv L s v) {regs : UInt32} {next : TaskRef}
    (hsaved : Suspended m regs s.cpu.flat) (hothers : ∀ u, u ≠ v.current → Agree s.mem m (L.lo u) (L.hi u))
    (ht : v.Exists t) :
    Suspended m (if t = s.kernel.tasking.current then regs else (s.kernel.tasking.tasks t).esp)
      ((v.goOn next).cpu t) := by
  rw [h.sim.current]
  by_cases he : t = v.current
  · subst he
    rw [if_pos rfl, goOn_self, ← h.sim.running]
    exact hsaved
  · rw [if_neg he, goOn_of_ne v next he]
    exact (h.away t ht he).keep (h.room t ht) (hothers t he)

theorem SwitchInv.next_exists (h : SwitchInv L s v) {i : Irq} {regs esp : UInt32} {k : Tasking}
    (hret : HandlerReturns i regs esp s.kernel.tasking k) : v.Exists k.current := by
  obtain ⟨l, hl⟩ := hret.ring
  rw [h.exists_iff]
  have hc := (hl.mem _).mp hl.current
  cases hcase : k.current with
  | mainTask => trivial
  | pool j =>
    rw [hcase] at hc
    show j.val < s.kernel.tasking.poolIndex
    rw [← hret.poolIndex]
    exact hc

/-- The task that `irq_handler` has chosen goes on. -/
theorem SwitchInv.goOn (h : SwitchInv L s v) {i : Irq} {regs esp : UInt32} {k : Kernel}
    (hret : HandlerReturns i regs esp s.kernel.tasking k.tasking) (hsaved : Suspended m regs s.cpu.flat)
    (hothers : ∀ u, u ≠ v.current → Agree s.mem m (L.lo u) (L.hi u))
    (hown : Agree s.mem m s.cpu.esp.toNat (L.hi v.current)) :
    SwitchInv L { kernel := k, cpu := (v.goOn k.tasking.current).cpu k.tasking.current, mem := m }
      (v.goOn k.tasking.current) := by
  refine ⟨hret.ring, hret.poolAddr.trans h.pool, hret.poolIndex.trans h.created, h.bound,
    ⟨rfl, rfl, fun t ht a h1 h2 => ?_⟩, fun t ht => ?_, fun t ht => ?_, fun t ht hne => ?_⟩
  · rw [(goOn_cpu v _ t).1] at h1
    show m.byte a = v.stack t a
    rw [← h.sim.stack t ht a h1 h2]
    by_cases he : t = v.current
    · subst he
      rw [← h.sim.running] at h1
      exact agree_byte hown (UInt32.le_iff_toNat_le.mp h1) h2
    · have hin := Room_inStack (h.room t ht) h1 h2
      exact agree_byte (hothers t he) hin.1 hin.2
  · rw [(goOn_cpu v _ t).1]
    exact h.room t ht
  · rw [(goOn_cpu v _ t).2.1, (goOn_cpu v _ t).2.2]
    exact h.code t ht
  · show Suspended m (k.tasking.tasks t).esp ((v.goOn k.tasking.current).cpu t)
    rw [hret.saved t hne]
    exact h.all_suspended hsaved hothers ht

/-- **An interrupt.** -/
theorem SwitchInv.irq (h : SwitchInv env.layout s v) (hf : 9 ≤ env.fuel) {i : Irq} {call : HandlerCall}
    (hsafe : SwitchOp.Safe env.layout s (.irq i call)) :
    ∃ s' v', irqSwitch env i call s = .ok s' ∧ VirtualStep env.layout v (.irq i call) v' ∧
      SwitchInv env.layout s' v' := by
  obtain ⟨l, hl⟩ := h.ring
  have hcur := h.sim.current
  have hroom : env.layout.Room v.current s.cpu.esp := by
    rw [h.sim.running]
    exact h.room _ h.current_exists
  have hss' : s.cpu.ss = 0x10 := by
    rw [h.sim.running]
    exact (h.code _ h.current_exists).2
  obtain ⟨hregs, hcs, hss, hcalled⟩ := enterIrq_eq env i s.cpu s.mem
  obtain ⟨esp, k, hk, hret⟩ := irqHandlerRet_returns hl hf env.body i (s.cpu.esp - 56)
  have hsafe' : ∀ w ∈ call.writes, ∀ u, env.layout.InStack u w.1 →
      u = v.current ∧ w.1.toNat < s.cpu.esp.toNat - 56 := by
    rw [← hcur]
    exact fun w hw => (hsafe w hw).2
  obtain ⟨hothers, hown, hframe⟩ := handler_agree env i s.mem hroom hsafe'
  obtain ⟨hframe, htop⟩ := frame_saved hroom hframe
  have hsaved : Suspended (storeBytes call.writes (calledMem env i s.cpu s.mem)) (s.cpu.esp - 56) s.cpu.flat :=
    ⟨hframe, htop⟩
  have hnext := h.next_exists hret
  have hload : Suspended _ _ ((v.goOn k.tasking.current).cpu k.tasking.current) :=
    h.all_suspended hsaved hothers hnext
  rw [← hret.target] at hload
  let mach : Machine :=
    { cpu := { (enterIrq env i s.cpu s.mem).cpu with
        eax := esp, ecx := call.ecx, edx := call.edx, eflags := call.eflags }
      mem := storeBytes call.writes (calledMem env i s.cpu s.mem), reads := [] }
  obtain ⟨hcpu, hkept⟩ : (runExit env.addFlags mach).cpu = _ ∧ (runExit env.addFlags mach).mem = mach.mem :=
    runExit_saved hload.frame hcs (hss.trans hss') (by rw [(goOn_cpu v _ _).2.1, (goOn_cpu v _ _).2.2]; exact h.code _ hnext)
  refine ⟨_, _, ?_, .irq i call _ hnext fun hkey => (hret.key hkey).trans hcur, h.goOn hret hsaved hothers hown⟩
  rw [irqSwitch]
  simp only [hregs, hk, hcalled, ok_bind, pure_eq_ok]
  show Except.ok ({ kernel := k, cpu := (runExit env.addFlags mach).cpu, mem := (runExit env.addFlags mach).mem } :
    SwitchSys) = _
  rw [hcpu, hkept]

end Steps

/-! ## Every run -/

theorem switchStep_inv {env : SwitchEnv} {s : SwitchSys} {v : VirtualSys} (hf : 9 ≤ env.fuel)
    (h : SwitchInv env.layout s v) (op : SwitchOp) (hsafe : op.Safe env.layout s) :
    ∃ s' v', switchStep env s op = .ok s' ∧ VirtualStep env.layout v op v' ∧ SwitchInv env.layout s' v' := by
  cases op with
  | exec cpu writes =>
    obtain ⟨v', hv, hinv⟩ := h.exec hsafe
    exact ⟨_, v', rfl, hv, hinv⟩
  | sleep ticks => exact ⟨_, v, rfl, .sleep ticks, h.sleep ticks⟩
  | create entry priority =>
    obtain ⟨v', hv, hinv⟩ := h.create entry priority
    exact ⟨_, v', rfl, hv, hinv⟩
  | irq i call => exact h.irq hf hsafe

/-- Only the main task exists. -/
def bootVirtual (cpu : Cpu) (mem : Mem) : VirtualSys where
  cpu _ := cpu
  stack _ := mem.byte
  current := .mainTask
  created := 0

theorem bootSwitch_inv {L : StackLayout} {k : Kernel} {cpu : Cpu} (mem : Mem) (hpool : k.tasking.poolAddr = L.pool)
    (hcs : cpu.cs = 0x08) (hss : cpu.ss = 0x10) (hroom : L.Room .mainTask cpu.esp) :
    SwitchInv L (bootSwitch k cpu mem) (bootVirtual cpu mem) := by
  have honly : ∀ t, (bootVirtual cpu mem).Exists t → t = .mainTask := by
    intro t ht
    cases t with
    | mainTask => rfl
    | pool i => exact absurd ht (Nat.not_lt_zero _)
  refine ⟨⟨_, initTasking_ring k.tasking⟩, hpool, rfl, Nat.zero_le _, ⟨rfl, rfl, fun _ _ _ _ _ => rfl⟩,
    fun t ht => ?_, fun _ _ => ⟨hcs, hss⟩, fun t ht hne => absurd (honly t ht) hne⟩
  rw [honly t ht]
  exact hroom

/-- **Every task has a processor and a stack of its own**: as long as no stack overflows and no task stores into the
stack of another or into what the switch reads, whatever the tasks do and whenever they are interrupted, the one
processor goes through the states of the specification. -/
theorem tasks_have_own_cpu {env : SwitchEnv} (hf : 9 ≤ env.fuel) {k : Kernel} {cpu : Cpu} (mem : Mem)
    (hpool : k.tasking.poolAddr = env.layout.pool) (hcs : cpu.cs = 0x08) (hss : cpu.ss = 0x10)
    (hroom : env.layout.Room .mainTask cpu.esp) {ops : List SwitchOp}
    (hsafe : AllSteps (switchStep env) (bootSwitch k cpu mem) (fun s op => op.Safe env.layout s) ops) :
    ∃ s v, run (switchStep env) (bootSwitch k cpu mem) ops = .ok s ∧
      Reaches (VirtualStep env.layout) (bootVirtual cpu mem) ops v ∧ Simulates env.layout s v := by
  obtain ⟨s, v, hs, hv, hinv⟩ := run_simulates (bootSwitch_inv mem hpool hcs hss hroom)
    (fun s v op h hC => switchStep_inv hf h op hC) hsafe
  exact ⟨s, v, hs, hv, hinv.sim⟩

/-- The pool at 2 MB, `main_task` behind it, the stack of `boot.s` and the rest of the kernel at 1 MB. -/
def smallLayout : StackLayout :=
  ⟨0x200000, 0x209000, 0x110000, 0x114000, [(0x100000, 0x110000)], by decide, by decide, by decide⟩

/-- No callback is registered; the stubs are in the kernel. -/
def smallEnv : SwitchEnv := ⟨fun _ => [], 9, smallLayout, 0x101000, 0x101010, 0x101020, id⟩

/-- The main task creates a task and loses the CPU to it; the task goes to sleep. -/
theorem tasks_have_own_cpu_first : ∃ s v, run (switchStep smallEnv)
      (bootSwitch ⟨initTimer 100 bootTimer, bootTasking 0x200000, bootProcs 0, fun _ => mutexInit, fun _ => ⟨0, 0⟩, true⟩
        (entryCpu 0x102000 0x114000) zeroMem)
      [.exec (entryCpu 0x102004 0x113000) [(0x113000, 7)], .create 0x103000 3, .irq .irq0 ⟨[], 0, 0, 0⟩, .sleep 5,
        .irq .irq0 ⟨[], 0, 0, 0⟩] = .ok s ∧
    Reaches (VirtualStep smallEnv.layout) (bootVirtual (entryCpu 0x102000 0x114000) zeroMem)
      [.exec (entryCpu 0x102004 0x113000) [(0x113000, 7)], .create 0x103000 3, .irq .irq0 ⟨[], 0, 0, 0⟩, .sleep 5,
        .irq .irq0 ⟨[], 0, 0, 0⟩] v ∧
    Simulates smallEnv.layout s v := by
  refine tasks_have_own_cpu (by decide) zeroMem rfl rfl rfl (by decide) ?_
  rw [allSteps_cons]
  refine ⟨⟨rfl, rfl, by decide, fun w hw => ?_⟩, fun s _ => ?_⟩
  · obtain rfl := List.mem_singleton.mp hw
    exact ⟨by decide, fun t ht => StackLayout.InStack.unique ht (by decide)⟩
  · -- the other operations are safe in every state
    refine allSteps_cons.mpr ⟨trivial, fun s _ => allSteps_cons.mpr ⟨fun w hw => (nomatch hw), fun s _ => ?_⟩⟩
    exact allSteps_cons.mpr ⟨trivial, fun s _ => allSteps_cons.mpr ⟨fun w hw => (nomatch hw), fun _ _ => allSteps_nil⟩⟩

end RtosKernel
