import RtosKernel.Protection
import RtosKernel.Lib.WordBits
import RtosKernel.Proofs.StubProofs

/-!
# Proofs: segments, gates and rings

The boot leaves flat segments for both rings, a gate for each stub, and the task register loaded (`TablesInv`), and the
later calls keep this. The checks of the processor are then evaluated once, for every vector (`gateTarget_eq`).
-/

namespace RtosKernel

open Lib

/-! ## Entries -/

/-- A segment of 4 GB from address 0 on. -/
def flatSegment (access : UInt8) : GdtEntry := ⟨0xFFFF, 0, 0, access, 0xCF, 0⟩

theorem gdtSetGate_self (num : Fin gdtEntries) (base limit : UInt32) (access gran : UInt8) (gdt : Gdt) :
    (gdtSetGate num base limit access gran gdt num).base = base ∧
      (gdtSetGate num base limit access gran gdt num).access = access := by
  rw [gdtSetGate, Function.update_self]
  exact ⟨word_parts base, rfl⟩

theorem gdtSetGate_of_ne {num i : Fin gdtEntries} (h : i ≠ num) (base limit : UInt32) (access gran : UInt8) (gdt : Gdt) :
    gdtSetGate num base limit access gran gdt i = gdt i := Function.update_of_ne h ..

/-- A gate to a stub in the kernel's code segment. -/
def stubGate (stub : UInt32) (flags : UInt8) : IdtEntry :=
  ⟨(stub &&& 0xFFFF).toUInt16, 0x08, 0, flags, ((stub >>> 16) &&& 0xFFFF).toUInt16⟩

theorem stubGate_offset (stub : UInt32) (flags : UInt8) : (stubGate stub flags).offset = stub := word_halves stub

/-- The flags of the gates: only the one for system calls is open to ring 3. -/
def gateAccess (n : UInt8) : UInt8 := if n = 0x80 then 0xEE else 0x8E

theorem stubGate_kind (stub : UInt32) (n : UInt8) :
    (stubGate stub (gateAccess n)).interruptGate = true ∧ (stubGate stub (gateAccess n)).present = true ∧
      (stubGate stub (gateAccess n)).dpl = if n = 0x80 then 3 else 0 := by
  have hflags : (stubGate stub (gateAccess n)).flags = gateAccess n := rfl
  rw [IdtEntry.interruptGate, IdtEntry.present, IdtEntry.dpl, hflags, gateAccess]
  split_ifs <;> decide

/-- A loop that fills the entries below `k`. -/
theorem foldl_update_range {α : Type} (f : UInt8 → α) (g : UInt8 → α) {k : ℕ} (hk : k ≤ 256) (n : UInt8) :
    (List.range k).foldl (fun f i => Function.update f (UInt8.ofNat i) (g (UInt8.ofNat i))) f n =
      if n.toNat < k then g n else f n := by
  induction k with
  | zero => rfl
  | succ k ih =>
    have hnat : (UInt8.ofNat k).toNat = k := by rw [UInt8.toNat_ofNat', Nat.mod_eq_of_lt (by omega)]
    rw [List.range_succ, List.foldl_append, List.foldl_cons, List.foldl_nil]
    by_cases hn : n = UInt8.ofNat k
    · have hlt : n.toNat < k + 1 := by rw [hn, hnat]; omega
      rw [if_pos hlt, hn, Function.update_self]
    · have hne : n.toNat ≠ k := fun he => hn (UInt8.toNat_inj.mp (by rw [hnat]; exact he))
      have hiff : n.toNat < k + 1 ↔ n.toNat < k := by omega
      rw [Function.update_of_ne hn, ih (by omega)]
      simp only [hiff]

/-! ## The invariant -/

/-- The vectors that have a stub. -/
def HasStub (n : UInt8) : Prop := n < 34 ∨ n = 0x80

instance (n : UInt8) : Decidable (HasStub n) := inferInstanceAs (Decidable (n < 34 ∨ n = 0x80))

/-- The segments and the gates. -/
structure TablesSet (code : CodeAddrs) (t : Tables) : Prop where
  kernelCode : t.gdt 1 = flatSegment 0x9A
  kernelData : t.gdt 2 = flatSegment 0x92
  userCode : t.gdt 3 = flatSegment 0xFA
  userData : t.gdt 4 = flatSegment 0xF2
  gates : ∀ n, t.idt n =
    if HasStub n then stubGate (code.stub n) (gateAccess n) else ⟨0, 0, 0, 0, 0⟩

/-- With the task register and the TSS. -/
structure TablesInv (code : CodeAddrs) (t : Tables) : Prop extends TablesSet code t where
  tss : t.tss = setupTss
  task : t.tr = some (code.kernelTss, sizeofTss - 1)

section Tables

variable {code : CodeAddrs} {t t' : Tables} {cpl : UInt8} {n : UInt8}

/-- `init_gdt` and `init_idt`. -/
theorem initIdt_set (code : CodeAddrs) : TablesSet code (initIdt code (initGdt zeroTables)) := by
  refine ⟨rfl, rfl, rfl, rfl, fun n => ?_⟩
  have hloop := foldl_update_range (fun _ => ⟨0, 0, 0, 0, 0⟩) (fun n => stubGate (code.stub n) 0x8E) (k := 34)
    (by decide) n
  show Function.update (_ : Idt) 0x80 (stubGate (code.stub 0x80) 0xEE) n = _
  by_cases h80 : n = 0x80
  · subst h80
    rw [Function.update_self, if_pos (.inr rfl), gateAccess, if_pos rfl]
  · rw [Function.update_of_ne h80]
    refine hloop.trans ?_
    have hiff : n.toNat < 34 ↔ n < 34 := (UInt8.lt_iff_toNat_lt (b := 34)).symm
    by_cases hlt : n < 34
    · rw [if_pos (hiff.mpr hlt), if_pos (.inl hlt), gateAccess, if_neg h80]
    · rw [if_neg fun h => hlt (hiff.mp h), if_neg fun h => h.elim hlt h80]

theorem TablesSet.register (h : TablesSet code t) (n : UInt8) (handler : Handler) :
    TablesSet code (registerInterruptHandler n handler t) :=
  ⟨h.kernelCode, h.kernelData, h.userCode, h.userData, h.gates⟩

theorem TablesSet.panicHandlers (h : TablesSet code t) : TablesSet code (initPanicHandlers t) := by
  rw [initPanicHandlers]
  generalize List.range 32 = l
  induction l generalizing t with
  | nil => exact h
  | cons n l ih => exact ih (h.register _ _)

/-- The descriptor of the TSS is not among them. -/
theorem TablesSet.agree (h : TablesSet code t) (hgdt : ∀ i : Fin gdtEntries, i ≠ 5 → t'.gdt i = t.gdt i)
    (hidt : t'.idt = t.idt) : TablesSet code t' where
  kernelCode := (hgdt 1 (by decide)).trans h.kernelCode
  kernelData := (hgdt 2 (by decide)).trans h.kernelData
  userCode := (hgdt 3 (by decide)).trans h.userCode
  userData := (hgdt 4 (by decide)).trans h.userData
  gates n := (congrFun hidt n).trans (h.gates n)

/-- The descriptor that `gdt_set_tss` writes. -/
theorem gdtSetTss_descriptor (base : UInt32) (t : Tables) :
    ((gdtSetTss base (sizeofTss - 1) t).gdt 5).base = base ∧
      ((gdtSetTss base (sizeofTss - 1) t).gdt 5).limit = sizeofTss - 1 ∧
      ((gdtSetTss base (sizeofTss - 1) t).gdt 5).access = 0x89 := by
  have hself : (gdtSetTss base (sizeofTss - 1) t).gdt 5 = gdtSetGate 5 base (sizeofTss - 1) 0x89 0x00 t.gdt 5 := rfl
  obtain ⟨hbase, haccess⟩ := gdtSetGate_self 5 base (sizeofTss - 1) 0x89 0x00 t.gdt
  refine ⟨by rw [hself, hbase], ?_, by rw [hself, haccess]⟩
  have hlow : (gdtSetGate 5 base (sizeofTss - 1) 0x89 0x00 t.gdt 5).limitLow = 8295 := by
    rw [gdtSetGate, Function.update_self]
    rfl
  have hgranularity : (gdtSetGate 5 base (sizeofTss - 1) 0x89 0x00 t.gdt 5).granularity = 0 := by
    rw [gdtSetGate, Function.update_self]
    rfl
  rw [hself, GdtEntry.limit, GdtEntry.limitField, hlow, hgranularity]
  decide

/-- `ring_init` finds the descriptor that it has just written. -/
theorem ringInit_ok (h : TablesSet code t) :
    ∃ t', ringInit code t = .ok t' ∧ TablesInv code t' ∧ t'.handlers = t.handlers := by
  let t₁ := gdtSetTss code.kernelTss (sizeofTss - 1) { t with tss := setupTss }
  obtain ⟨hbase, hlimit, haccess⟩ := gdtSetTss_descriptor code.kernelTss { t with tss := setupTss }
  have havail : (t₁.gdt 5).availableTss = true := by
    rw [GdtEntry.availableTss, haccess]
    decide
  have hpresent : (t₁.gdt 5).present = true := by
    rw [GdtEntry.present, haccess]
    decide
  have hload : loadTr 0x28 t₁ = .ok
      { t₁ with
        gdt := Function.update t₁.gdt 5 { t₁.gdt 5 with access := (t₁.gdt 5).access ||| 2 }
        tr := some ((t₁.gdt 5).base, (t₁.gdt 5).limit) } := by
    have hidx : (⟨((0x28 : UInt16) >>> 3).toNat, by decide⟩ : Fin gdtEntries) = 5 := rfl
    rw [loadTr, if_neg (by decide), if_neg (by decide), dif_pos (by decide)]
    simp only [hidx, havail, hpresent, not_true, if_false]
    rfl
  refine ⟨_, hload, ⟨h.agree (fun i hi => ?_) rfl, rfl, ?_⟩, rfl⟩
  · show Function.update (gdtSetGate 5 _ _ _ _ t.gdt) 5 _ i = t.gdt i
    rw [Function.update_of_ne hi, gdtSetGate_of_ne hi]
  · show some ((t₁.gdt 5).base, (t₁.gdt 5).limit) = _
    rw [hbase, hlimit]

theorem initPanicHandlers_handlers (t : Tables) (n : UInt8) :
    (initPanicHandlers t).handlers n = if n < 32 then some .exceptionHandler else t.handlers n := by
  have hfold : ∀ (l : List ℕ) (t : Tables),
      (l.foldl (fun t n => registerInterruptHandler (UInt8.ofNat n) .exceptionHandler t) t).handlers =
        l.foldl (fun f i => Function.update f (UInt8.ofNat i) (some .exceptionHandler)) t.handlers := by
    intro l
    induction l with
    | nil => exact fun _ => rfl
    | cons i l ih => exact fun t => ih _
  rw [initPanicHandlers, hfold,
    foldl_update_range t.handlers (fun _ => some .exceptionHandler) (by decide)]
  simp only [UInt8.lt_iff_toNat_lt]
  rfl

/-- The boot does not fault. -/
theorem bootTables_inv (code : CodeAddrs) : ∃ t, bootTables code = .ok t ∧ TablesInv code t ∧
    ∀ n, t.handlers n = if n < 32 then some .exceptionHandler else none := by
  obtain ⟨t, ht, hinv, hhandlers⟩ := ringInit_ok (initIdt_set code).panicHandlers
  refine ⟨t, ht, hinv, fun n => ?_⟩
  rw [hhandlers, initPanicHandlers_handlers]
  rfl

/-! ## The gates -/

/-- What the gates are meant to do: every stub can be reached by the processor, only `isr128` by a program in ring 3,
and from ring 3 the stack is the one in the TSS. -/
def gateSpec (code : CodeAddrs) (cpl : UInt8) (soft : Bool) (n : UInt8) : Except CpuFault GateTarget :=
  if HasStub n ∧ ¬ (soft ∧ cpl = 3 ∧ n ≠ 0x80) then
    pure ⟨code.stub n, 0x08, if cpl = 3 then some (0x10, 0x00400000) else none⟩
  else .error (.protection (8 * n.toUInt32 + 2 + if soft then 0 else 1))

theorem TablesInv.stack (h : TablesInv code t) : innerStack t = .ok (0x10, 0x00400000) := by
  have hdescriptor : descriptor t 0x10 = some (flatSegment 0x92) := congrArg some h.kernelData
  have hss0 : t.tss.ss0.toUInt16 = 0x10 := by
    rw [h.tss]
    rfl
  have hesp0 : t.tss.esp0 = 0x00400000 := by
    rw [h.tss]
    rfl
  rw [innerStack, h.task]
  simp only [hss0, hesp0, hdescriptor]
  rfl

/-- The checks, for every vector. -/
theorem TablesInv.gateTarget_eq (h : TablesInv code t) (hcpl : cpl = 0 ∨ cpl = 3) (soft : Bool) (n : UInt8) :
    gateTarget t cpl soft n = gateSpec code cpl soft n := by
  by_cases hstub : HasStub n
  · have hgate : t.idt n = stubGate (code.stub n) (gateAccess n) := by rw [h.gates, if_pos hstub]
    obtain ⟨hkind, hpresent, hdpl⟩ := stubGate_kind (code.stub n) n
    have hsel : (stubGate (code.stub n) (gateAccess n)).sel = 0x08 := rfl
    have hdescriptor : descriptor t 0x08 = some (flatSegment 0x9A) := congrArg some h.kernelCode
    have hbelow : (soft = true ∧ (if n = 0x80 then 3 else 0 : UInt8) < cpl) ↔
        (soft = true ∧ cpl = 3 ∧ n ≠ 0x80) := by
      rcases hcpl with rfl | rfl <;> by_cases h80 : n = 0x80 <;> simp [h80]
    have hcode : (flatSegment 0x9A).isCode = true := by decide
    have hringZero : (flatSegment 0x9A).dpl = 0 := by decide
    have hcodePresent : (flatSegment 0x9A).present = true := by decide
    have hplain : (flatSegment 0x9A).conforming = false := by decide
    have hcodeSel : selectorCode 0x08 ≠ 0 := by decide
    simp only [gateTarget, gateSpec, hgate, hkind, hpresent, hdpl, hsel, hdescriptor, hcode, hringZero, hcodePresent,
      hplain, hcodeSel, stubGate_offset, hbelow, h.stack, hstub, not_true, if_false, true_and, Bool.false_eq_true,
      false_or]
    by_cases hclosed : soft = true ∧ cpl = 3 ∧ n ≠ 0x80
    · rw [if_pos hclosed, if_neg (not_not.mpr hclosed)]
    · rw [if_neg hclosed, if_pos hclosed]
      rcases hcpl with rfl | rfl <;> rfl
  · have hgate : t.idt n = ⟨0, 0, 0, 0, 0⟩ := by rw [h.gates, if_neg hstub]
    have hkind : IdtEntry.interruptGate ⟨0, 0, 0, 0, 0⟩ = false := rfl
    simp only [gateTarget, gateSpec, hgate, hkind, hstub, Bool.false_eq_true, not_false_iff, if_true, false_and, if_false]

/-! ## Runs -/

/-- The calls do not fault, and only registrations change the handlers. -/
theorem TablesInv.step (h : TablesInv code t) (op : TableOp) :
    ∃ t', tableStep code t op = .ok t' ∧ TablesInv code t' ∧
      ∀ n, (∀ handler, op ≠ .registerInterruptHandler n handler) → t'.handlers n = t.handlers n := by
  cases op with
  | registerInterruptHandler m handler =>
    refine ⟨_, rfl, ⟨h.toTablesSet.register m handler, h.tss, h.task⟩, fun n hn => ?_⟩
    exact Function.update_of_ne (fun hnm => hn handler (by rw [hnm])) ..
  | gdtSetTss base limit =>
    exact ⟨_, rfl, ⟨h.toTablesSet.agree (fun i hi => gdtSetGate_of_ne hi ..) rfl, h.tss, h.task⟩, fun _ _ => rfl⟩
  | ringInit =>
    obtain ⟨t', ht', hinv, hhandlers⟩ := ringInit_ok h.toTablesSet
    exact ⟨t', ht', hinv, fun n _ => congrFun hhandlers n⟩

theorem TablesInv.run (h : TablesInv code t) (ops : List TableOp) :
    ∃ t', ops.foldlM (tableStep code) t = .ok t' ∧ TablesInv code t' ∧
      ∀ n, (∀ handler, .registerInterruptHandler n handler ∉ ops) → t'.handlers n = t.handlers n := by
  induction ops generalizing t with
  | nil => exact ⟨t, rfl, h, fun _ _ => rfl⟩
  | cons op ops ih =>
    obtain ⟨t₁, ht₁, hinv₁, hhandlers₁⟩ := h.step op
    obtain ⟨t', ht', hinv, hhandlers⟩ := ih hinv₁
    refine ⟨t', ?_, hinv, fun n hn => ?_⟩
    · rw [List.foldlM_cons, ht₁]
      exact ht'
    · rw [hhandlers n fun handler hmem => hn handler (List.mem_cons_of_mem _ hmem)]
      exact hhandlers₁ n fun handler hop => hn handler (by rw [hop]; exact List.mem_cons_self)

theorem tableRun_inv (code : CodeAddrs) (ops : List TableOp) :
    ∃ t, tableRun code ops = .ok t ∧ TablesInv code t ∧
      ∀ n < 32, (∀ handler, .registerInterruptHandler n handler ∉ ops) → t.handlers n = some .exceptionHandler := by
  obtain ⟨t₀, ht₀, hinv₀, hhandlers₀⟩ := bootTables_inv code
  obtain ⟨t, ht, hinv, hhandlers⟩ := hinv₀.run ops
  refine ⟨t, ?_, hinv, fun n hn hops => ?_⟩
  · rw [tableRun, ht₀]
    exact ht
  · rw [hhandlers n hops, hhandlers₀, if_pos hn]

/-- **After any calls, an interrupt in ring 0 or 3 goes where it is meant to go.** -/
theorem gates_reach_stubs (code : CodeAddrs) (ops : List TableOp) (hcpl : cpl = 0 ∨ cpl = 3) (soft : Bool) (n : UInt8) :
    ∃ t, tableRun code ops = .ok t ∧ gateTarget t cpl soft n = gateSpec code cpl soft n := by
  obtain ⟨t, ht, hinv, -⟩ := tableRun_inv code ops
  exact ⟨t, ht, hinv.gateTarget_eq hcpl soft n⟩

theorem gates_reach_stubs_first :
    ∃ t, tableRun ⟨fun n => 0x00100000 + 16 * n.toUInt32, 0x00120000⟩ [.registerInterruptHandler 32 .timerIrqCallback] =
        .ok t ∧
      gateTarget t 3 true 14 = gateSpec ⟨fun n => 0x00100000 + 16 * n.toUInt32, 0x00120000⟩ 3 true 14 :=
  gates_reach_stubs _ _ (.inr rfl) true 14

end Tables

/-! ## `switch_to_ring3` -/

section Ring3

variable {code : CodeAddrs} {t : Tables} {userEntry : UInt32} {s : Ring3State}

end Ring3

end RtosKernel
