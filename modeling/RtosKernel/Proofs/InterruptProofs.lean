import RtosKernel.Interrupts
import Mathlib.Data.List.GetD

/-!
# Proofs: the first return to a task

The words that `create_task` and `process_create` push are, from the stack pointer upwards, the ones that the
end of `irq_common_stub` pops (`FrameAt`). So the first interrupt that returns to the task enters it.
-/

namespace RtosKernel

open Lib

/-! ## The stores of the construction -/

section Stores

variable {st : ℕ → UInt32} {top : ℕ} {ws : List UInt32}

theorem foldl_push_eq (st : ℕ → UInt32) (top : ℕ) (ws : List UInt32) :
    ws.foldl push (st, top) =
      ((pushStores top ws).foldl (fun st p => Function.update st p.1 p.2) st, top - ws.length) := by
  induction ws generalizing st top with
  | nil => rfl
  | cons w ws ih =>
    rw [List.foldl_cons, push, ih, pushStores, List.foldl_cons, List.length_cons, Nat.sub_sub, Nat.add_comm 1]

theorem pushStores_above {i : ℕ} (hi : top ≤ i) (hws : ws.length ≤ top) :
    (pushStores top ws).foldl (fun st p => Function.update st p.1 p.2) st i = st i := by
  induction ws generalizing st top with
  | nil => rfl
  | cons w ws ih =>
    rw [List.length_cons] at hws
    rw [pushStores, List.foldl_cons, ih (by omega) (by omega), Function.update_of_ne (by omega)]

/-- The words stand in the array from the top downwards. -/
theorem pushStores_apply {k : ℕ} (hk : k < ws.length) (hws : ws.length ≤ top) :
    (pushStores top ws).foldl (fun st p => Function.update st p.1 p.2) st (top - 1 - k) = ws[k] := by
  induction ws generalizing st top k with
  | nil => exact absurd hk (Nat.not_lt_zero k)
  | cons w ws ih =>
    rw [List.length_cons] at hk hws
    rw [pushStores, List.foldl_cons]
    cases k with
    | zero =>
      rw [pushStores_above (by omega) (by omega), Nat.sub_zero, Function.update_self]
      rfl
    | succ k =>
      have hindex : top - 1 - (k + 1) = top - 1 - 1 - k := by omega
      rw [hindex, ih (by omega) (by omega)]
      rfl

theorem mem_pushStores {k : ℕ} (hk : k < ws.length) : (top - 1 - k, ws[k]) ∈ pushStores top ws := by
  induction ws generalizing top k with
  | nil => exact absurd hk (Nat.not_lt_zero k)
  | cons w ws ih =>
    cases k with
    | zero => exact List.mem_cons_self
    | succ k =>
      have hindex : top - 1 - (k + 1) = top - 1 - 1 - k := by omega
      rw [hindex]
      exact List.mem_cons_of_mem _ (ih (Nat.lt_of_succ_lt_succ hk))

end Stores

/-! ## The return -/

/-- The frame stands in memory, from the stack pointer upwards. -/
def FrameAt (m : Mem) (esp entry : UInt32) : Prop :=
  ∀ k < 14, m.load32 (esp + 4 * UInt32.ofNat k) = (initialFrame entry).reverse.getD k 0

/-- The words of the frame that are popped, by their addresses. -/
structure FrameWords (m : Mem) (esp entry : UInt32) : Prop where
  ds : m.load32 esp = 0x10
  edi : m.load32 (esp + 4) = 0
  esi : m.load32 (esp + 8) = 0
  ebp : m.load32 (esp + 12) = 0
  ebx : m.load32 (esp + 20) = 0
  edx : m.load32 (esp + 24) = 0
  ecx : m.load32 (esp + 28) = 0
  eax : m.load32 (esp + 32) = 0
  eip : m.load32 (esp + 44) = entry
  cs : m.load32 (esp + 48) = 0x08
  eflags : m.load32 (esp + 52) = 0x202

theorem FrameAt.words {m : Mem} {esp entry : UInt32} (h : FrameAt m esp entry) : FrameWords m esp entry where
  ds := by
    have hesp : esp + 4 * UInt32.ofNat 0 = esp := UInt32.add_zero esp
    have hword := h 0 (by decide)
    rwa [hesp] at hword
  edi := h 1 (by decide)
  esi := h 2 (by decide)
  ebp := h 3 (by decide)
  ebx := h 5 (by decide)
  edx := h 6 (by decide)
  ecx := h 7 (by decide)
  eax := h 8 (by decide)
  eip := h 11 (by decide)
  cs := h 12 (by decide)
  eflags := h 13 (by decide)

/-- The machine after the stub has popped the frame. -/
theorem runExit_frame {addFlags : UInt32 → UInt32} {s : Machine} {esp entry : UInt32}
    (h : FrameWords s.mem esp entry) (hesp : s.cpu.eax = esp) (hcs : s.cpu.cs = 0x08) :
    runExit addFlags s =
      { cpu := { s.cpu with
          eax := 0, ecx := 0, edx := 0, ebx := 0, ebp := 0, esi := 0, edi := 0, esp := esp + 56, eip := entry,
          eflags := 0x202, cs := 0x08, ds := 0x10, es := 0x10, fs := 0x10, gs := 0x10 }
        mem := s.mem
        reads := [esp + 52, esp + 48, esp + 44, esp + 32, esp + 28, esp + 24, esp + 20, esp + 12, esp + 8,
          esp + 4, esp] ++ s.reads } := by
  -- one pass over the instructions, with the offsets of the pops added up
  simp only [runExit, irqExit, List.foldl_cons, List.foldl_nil, execInstr, popa, iret, Machine.pop, Machine.skip,
    loadSeg, hesp, hcs, UInt32.add_assoc, UInt32.reduceAdd]
  simp only [h.ds, h.edi, h.esi, h.ebp, h.ebx, h.edx, h.ecx, h.eax, h.eip, h.cs, h.eflags]
  rfl

/-! ## The stacks that are built -/

section Build

variable {entry addr : UInt32} {words : ℕ}

theorem initialFrame_length (entry : UInt32) : (initialFrame entry).length = 14 := rfl

/-- The address of the `k`-th word of the frame, from the stack pointer and from the start of the array. -/
theorem frame_addr (hw : 14 ≤ words) {k : ℕ} (hk : k < 14) :
    addr + 4 * UInt32.ofNat (words - 14) + 4 * UInt32.ofNat k = addr + 4 * UInt32.ofNat (words - 1 - (13 - k)) := by
  have hindex : words - 1 - (13 - k) = words - 14 + k := by omega
  rw [hindex, UInt32.ofNat_add, UInt32.mul_add, UInt32.add_assoc]

/-- The words of the frame that are popped, by their number. -/
theorem popped_addrs (esp : UInt32) :
    [esp + 52, esp + 48, esp + 44, esp + 32, esp + 28, esp + 24, esp + 20, esp + 12, esp + 8, esp + 4, esp] =
      [13, 12, 11, 8, 7, 6, 5, 3, 2, 1, 0].map fun k => esp + 4 * UInt32.ofNat k := by
  have hesp : esp + 4 * UInt32.ofNat 0 = esp := UInt32.add_zero esp
  simp only [List.map_cons, List.map_nil, hesp]
  rfl

theorem buildStack_esp (entry : UInt32) (words : ℕ) (old : ℕ → UInt32) :
    (buildStack entry words old).2 = words - 14 := by
  rw [buildStack, foldl_push_eq, initialFrame_length]

theorem buildStack_frame (hw : 14 ≤ words) {old : ℕ → UInt32} {m : Mem}
    (h : StackAt m addr words (buildStack entry words old).1) :
    FrameAt m (addr + 4 * UInt32.ofNat (words - 14)) entry := by
  intro k hk
  have hlast : 13 - k < (initialFrame entry).length := by
    rw [initialFrame_length]
    omega
  have hback : (initialFrame entry).reverse.getD k 0 = (initialFrame entry)[13 - k] := by
    rw [List.getD_eq_getElem _ _ (by rw [List.length_reverse, initialFrame_length]; exact hk), List.getElem_reverse]
    simp only [initialFrame_length]
  rw [frame_addr hw hk, h _ (by omega), buildStack, foldl_push_eq, hback]
  exact pushStores_apply hlast hw

/-- The first return to a stack that was just built enters the task. -/
theorem startsAt_buildStack (hw : 14 ≤ words) (entry addr : UInt32) (old : ℕ → UInt32) :
    StartsAt entry addr words (buildStack entry words old).1
      (addr + 4 * UInt32.ofNat (buildStack entry words old).2) := by
  intro addFlags s hstack hesp hcs hreads
  rw [buildStack_esp] at hesp
  have hwords := (buildStack_frame hw hstack).words
  rw [runExit_frame hwords hesp hcs]
  refine ⟨rfl, rfl, rfl, ⟨rfl, rfl, rfl, rfl⟩, ⟨rfl, rfl, rfl, rfl, rfl, rfl, rfl⟩, ?_, ?_⟩
  · have hend : UInt32.ofNat words = UInt32.ofNat (words - 14) + UInt32.ofNat 14 := by
      rw [← UInt32.ofNat_add, Nat.sub_add_cancel hw]
    rw [hend, UInt32.mul_add, ← UInt32.add_assoc]
    rfl
  · intro a ha
    rw [hreads, List.append_nil, popped_addrs] at ha
    obtain ⟨k, hmem, rfl⟩ := List.mem_map.mp ha
    have hall : ∀ k ∈ [13, 12, 11, 8, 7, 6, 5, 3, 2, 1, 0], k < 14 := by decide
    have hk : k < 14 := hall k hmem
    have hlast : 13 - k < (initialFrame entry).length := by
      rw [initialFrame_length]
      omega
    exact ⟨_, mem_pushStores hlast, frame_addr hw hk⟩

end Build

/-! ## The two constructors -/

/-- The new task, but for its link. -/
theorem createTask_new (s : Tasking) (h : s.poolIndex < taskPoolSize) (entry priority : UInt32) :
    ∃ next, (createTask entry priority s).tasks (.pool ⟨s.poolIndex, h⟩) =
      { newTask (s.tasks (.pool ⟨s.poolIndex, h⟩)) s.nextPid entry priority
          (taskStackAddr s.poolAddr s.poolIndex) with next := next } := by
  rw [createTask, dif_pos h]
  simp only [Tasking.setTask, Tasking.next]
  by_cases hcur : s.current = .pool ⟨s.poolIndex, h⟩
  · refine ⟨some (.pool ⟨s.poolIndex, h⟩), ?_⟩
    rw [hcur, Function.update_self, Function.update_self, Function.update_self]
    rfl
  · refine ⟨(s.tasks s.current).next, ?_⟩
    rw [Function.update_of_ne (Ne.symm hcur), Function.update_self, Function.update_self,
      Function.update_of_ne hcur]
    rfl

theorem createTask_startsAt (s : Tasking) (h : s.poolIndex < taskPoolSize) (entry priority : UInt32) :
    StartsAt entry (taskStackAddr s.poolAddr s.poolIndex) taskStackWords
      ((createTask entry priority s).tasks (.pool ⟨s.poolIndex, h⟩)).stack
      ((createTask entry priority s).tasks (.pool ⟨s.poolIndex, h⟩)).esp := by
  obtain ⟨next, hnew⟩ := createTask_new s h entry priority
  rw [hnew]
  exact startsAt_buildStack (by decide) entry _ _

theorem linkLast_new (t np : Slot) (s : Procs) :
    ∃ next, (linkLast t np s).pool np = { s.pool np with next := next } := by
  refine ⟨s.head, ?_⟩
  simp only [linkLast, Procs.setProc]
  rw [Function.update_self]
  by_cases ht : np = t
  · rw [ht, Function.update_self]
  · rw [Function.update_of_ne ht]

/-- The new process, but for its link. -/
theorem processCreate_new {s s' : Procs} {np : Slot} (hfree : freeSlot s = some np) {fuel : ℕ}
    {name : List UInt8} {entry priority ppid : UInt32} {r : Int32}
    (h : processCreate fuel name entry priority ppid s = .ok (r, s')) :
    ∃ next, s'.pool np = { newProcess (s.pool np) s.nextPid name entry priority ppid
      (procStackAddr s.poolAddr np) with next := next } := by
  simp only [processCreate, hfree] at h
  split at h
  · cases h
  · obtain ⟨t, -, hr⟩ := bind_eq_ok.mp h
    obtain ⟨-, rfl⟩ := Prod.mk.inj (Except.ok.inj hr)
    obtain ⟨next, hlink⟩ := linkLast_new t np
      { s.setProc np (newProcess (s.pool np) s.nextPid name entry priority ppid
        (procStackAddr s.poolAddr np)) with nextPid := s.nextPid + 1 }
    refine ⟨next, hlink.trans ?_⟩
    simp only [Procs.setProc, Function.update_self]

theorem processCreate_startsAt {s s' : Procs} {np : Slot} (hfree : freeSlot s = some np) {fuel : ℕ}
    {name : List UInt8} {entry priority ppid : UInt32} {r : Int32}
    (h : processCreate fuel name entry priority ppid s = .ok (r, s')) :
    StartsAt entry (procStackAddr s.poolAddr np) procStackWords (s'.pool np).stack (s'.pool np).esp := by
  obtain ⟨next, hnew⟩ := processCreate_new hfree h
  rw [hnew]
  exact startsAt_buildStack (by decide) entry _ _

/-! ## The first return -/

/-- **The initial frame is the one that the interrupt return pops**, in every slot. The block of a process is
filled in before it is linked into the list. -/
theorem initial_frame_matches_irq_return :
    (∀ (s : Tasking) (h : s.poolIndex < taskPoolSize) (entry priority : UInt32),
      StartsAt entry (taskStackAddr s.poolAddr s.poolIndex) 1024
        ((createTask entry priority s).tasks (.pool ⟨s.poolIndex, h⟩)).stack
        ((createTask entry priority s).tasks (.pool ⟨s.poolIndex, h⟩)).esp) ∧
    (∀ (old : Process) (name : List UInt8) (pid entry priority ppid poolAddr : UInt32) (np : Slot),
      StartsAt entry (procStackAddr poolAddr np) 2048
        (newProcess old pid name entry priority ppid (procStackAddr poolAddr np)).stack
        (newProcess old pid name entry priority ppid (procStackAddr poolAddr np)).esp) ∧
    (∀ (fuel : ℕ) (name : List UInt8) (entry priority ppid : UInt32) (s s' : Procs) (np : Slot) (r : Int32),
      freeSlot s = some np → processCreate fuel name entry priority ppid s = .ok (r, s') →
        StartsAt entry (procStackAddr s.poolAddr np) 2048 (s'.pool np).stack (s'.pool np).esp) :=
  ⟨createTask_startsAt, fun old _ _ entry _ _ _ _ => startsAt_buildStack (by decide) entry _ old.stack,
    fun _ _ _ _ _ _ _ _ _ hfree h => processCreate_startsAt hfree h⟩

/-- Memory that holds a stack array at an address. -/
def stackMem (addr : UInt32) (stack : ℕ → UInt32) : Mem where
  byte x := Mem.byteOf (stack ((x - addr).toNat / 4)) ((x - addr).toNat % 4)

theorem stackMem_byte {i k : ℕ} (hi : i < 2 ^ 30) (hk : k < 4) (addr : UInt32) (stack : ℕ → UInt32) :
    (stackMem addr stack).byte (addr + 4 * UInt32.ofNat i + UInt32.ofNat k) = Mem.byteOf (stack i) k := by
  have hoff : addr + 4 * UInt32.ofNat i + UInt32.ofNat k - addr = UInt32.ofNat (4 * i + k) := by
    rw [UInt32.ofNat_add, UInt32.ofNat_mul]
    have hfour : UInt32.ofNat 4 = 4 := rfl
    rw [hfour]
    grind
  have hnat : (UInt32.ofNat (4 * i + k)).toNat = 4 * i + k := by
    rw [UInt32.toNat_ofNat', Nat.mod_eq_of_lt (by omega)]
  have hdiv : (4 * i + k) / 4 = i := by omega
  have hmod : (4 * i + k) % 4 = k := by omega
  simp only [stackMem]
  rw [hoff, hnat, hdiv, hmod]

theorem stackMem_stackAt {words : ℕ} (hw : words ≤ 2 ^ 30) (addr : UInt32) (stack : ℕ → UInt32) :
    StackAt (stackMem addr stack) addr words stack := by
  intro i hi
  have hbyte := fun {k : ℕ} (hk : k < 4) => stackMem_byte (hi.trans_le hw) hk addr stack
  have h0 : addr + 4 * UInt32.ofNat i + UInt32.ofNat 0 = addr + 4 * UInt32.ofNat i := UInt32.add_zero _
  have hfirst := hbyte (show 0 < 4 by decide)
  rw [h0] at hfirst
  have hone : UInt32.ofNat 1 = 1 := rfl
  have htwo : UInt32.ofNat 2 = 2 := rfl
  have hthree : UInt32.ofNat 3 = 3 := rfl
  rw [Mem.load32, hfirst, ← hone, ← htwo, ← hthree, hbyte (by decide), hbyte (by decide), hbyte (by decide),
    Mem.byteOf_toNat, UInt32.ofNat_toNat]

/-- The processor in the kernel, with a stack pointer in EAX. -/
def kernelCpu (eax : UInt32) : Cpu :=
  { eax := eax, ecx := 0, edx := 0, ebx := 0, esp := 0, ebp := 0, esi := 0, edi := 0, eip := 0, eflags := 0,
    cs := 0x08, ss := 0x10, ds := 0x10, es := 0x10, fs := 0x10, gs := 0x10 }

/-- The first task that is created, and the first process. -/
theorem initial_frame_matches_irq_return_first :
    (∃ s : Machine, AtEntry 0x101000 (taskStackAddr 0x200000 0) 1024 (runExit id s)) ∧
    ∃ (s' : Procs) (r : Int32),
      processCreate 1 [] 0x101000 1 0 (processInit (bootProcs 0x300000)) = .ok (r, s') ∧
      StartsAt 0x101000 (procStackAddr 0x300000 1) 2048 (s'.pool 1).stack (s'.pool 1).esp := by
  obtain ⟨htask, -, hproc⟩ := initial_frame_matches_irq_return
  have hpool : (initTasking (bootTasking 0x200000)).poolIndex < taskPoolSize := by decide
  constructor
  · have hstart := htask (initTasking (bootTasking 0x200000)) hpool 0x101000 1
    exact ⟨⟨kernelCpu _, stackMem (taskStackAddr 0x200000 0) _, []⟩,
      hstart id _ (stackMem_stackAt (by decide) _ _) rfl rfl rfl⟩
  · exact ⟨_, _, rfl, hproc 1 [] 0x101000 1 0 (processInit (bootProcs 0x300000)) _ 1 _ rfl rfl⟩

end RtosKernel
