import RtosKernel.Proofs.TranslationProofs

/-!
# Proofs: the identity map

`paging_init` fills the sixteen identity tables entry by entry (`Filled`), so that every address below 64 MB
translates to itself. The calls of the allocator touch no table, and a call of `map_page` or `unmap_page` for
an address from 64 MB on writes to another table. As long as no such table lies in the identity tables
(`SparesIdentity`), the map stays as it is (`IdentityInv`).
-/

namespace RtosKernel

open Lib

/-! ## The loops of `paging_init` -/

/-- The entries of the tables before `t`, and the first `n` of table `t`, are those of the identity map. -/
def Filled (base : UInt32) (t n : ℕ) (m : Mem) : Prop :=
  ∀ t' < numPageTables, ∀ e < 1024, t' < t ∨ t' = t ∧ e < n →
    m.load32 (identitySlot base t' e) = identityEntry t' e

section Fill

variable {base : UInt32} {m : Mem} {t n : ℕ}

/-- One pass of the inner loop. -/
theorem Filled.store (h : Filled base t n m) (hb : TablesPlaced base) (ht : t < numPageTables) (hn : n < 1024) :
    Filled base t (n + 1) (m.store32 (identitySlot base t n) (identityEntry t n)) := by
  intro t' ht' e he hbefore
  by_cases hsame : t' = t ∧ e = n
  · obtain ⟨rfl, rfl⟩ := hsame
    exact Mem.load32_store32 ..
  · have hslot := hb.slot_toNat ht hn
    have hslot' := hb.slot_toNat ht' he
    have hin := hb.inside
    have h16 : t < 16 := ht
    have h16' : t' < 16 := ht'
    have hload : (m.store32 (identitySlot base t n) (identityEntry t n)).load32 (identitySlot base t' e) =
        m.load32 (identitySlot base t' e) := by
      apply Mem.load32_store32_of_disjoint
      · omega
      · omega
      · omega
    rw [hload]
    exact h t' ht' e he (by omega)

/-- Both loops. -/
theorem fillIdentityTables_filled (hb : TablesPlaced base) (m : Mem) :
    Filled base numPageTables 0 (fillIdentityTables base m) := by
  refine foldl_range (P := fun t m => Filled base t 0 m) ?_ ?_
  · intro t' _ e _ hbefore
    omega
  · intro t ht m hm
    have hrow := foldl_range (P := fun n m => Filled base t n m) hm fun n hn m' hm' => hm'.store hb ht hn
    intro t' ht' e he hbefore
    exact hrow t' ht' e he (by omega)

end Fill

/-! ## Addresses below 64 MB -/

/-- The tables and the entries of the identity map. Every other table lies outside the identity tables. -/
structure IdentityInv (base : UInt32) (s : Paging) : Prop where
  lock : s.lock = mutexInit
  tables : ∀ i < numPageTables, s.pageTables i = identitySlot base i 0
  entries : Filled base numPageTables 0 s.mem
  others : ∀ i, numPageTables ≤ i → s.pageTables i = 0 ∨
    4096 ∣ (s.pageTables i).toNat ∧ ((s.pageTables i).toNat + 4096 ≤ base.toNat ∨
      base.toNat + 65536 ≤ (s.pageTables i).toNat)

/-- Every address below 64 MB translates to itself. -/
def IdentityMapped (s : Paging) : Prop := ∀ v < 0x4000000, getPhysicalAddr v s = v

section Map

variable {base : UInt32} {s : Paging}

theorem pagingInit_identityInv (hb : TablesPlaced s.identityTables) :
    IdentityInv s.identityTables (pagingInit s) := by
  refine ⟨rfl, fun i hi => if_pos hi, ?_, fun i hi => .inl (pagingInit_noTable (Nat.not_lt.mpr hi))⟩
  simp only [pagingInit]
  exact fillIdentityTables_filled hb s.mem

/-- The frame of an identity entry. -/
theorem identityEntry_eq (t e : ℕ) :
    identityEntry t e = mapValue (UInt32.ofNat t * 4096 * 1024 + UInt32.ofNat e * 4096) 3 := by
  rw [identityEntry, mapValue, UInt32.or_assoc]
  rfl

theorem identityFrame_toNat {t e : ℕ} (ht : t < numPageTables) (he : e < 1024) :
    (UInt32.ofNat t * 4096 * 1024 + UInt32.ofNat e * 4096).toNat = t * 4194304 + e * 4096 := by
  have h16 : t < 16 := ht
  have h4096 : (4096 : UInt32).toNat = 4096 := rfl
  have h1024 : (1024 : UInt32).toNat = 1024 := rfl
  rw [UInt32.toNat_add, UInt32.toNat_mul, UInt32.toNat_mul, UInt32.toNat_mul, h4096, h1024,
    ofNat_toNat_of_lt (by omega), ofNat_toNat_of_lt (by omega)]
  omega

/-- The entry for the page of an address gives the address back. -/
theorem entryAddr_identity {v : UInt32} (hv : v.toNat / 4194304 < numPageTables) :
    entryAddr (identityEntry (v.toNat / 4194304) (v.toNat / 4096 % 1024)) v = v := by
  have hlt : v.toNat / 4096 % 1024 < 1024 := Nat.mod_lt _ (by decide)
  have hframe := identityFrame_toNat hv hlt
  rw [identityEntry_eq, ← UInt32.toNat_inj, entryAddr_toNat, mapValue_toNat (by rw [hframe]; omega), hframe,
    show (3 : UInt32).toNat = 3 from rfl]
  rw [if_neg (by omega)]
  omega

/-- The slot of the entry of an address below 64 MB. -/
theorem IdentityInv.slot (h : IdentityInv base s) (hb : TablesPlaced base) {v : UInt32}
    (hv : v.toNat / 4194304 < numPageTables) :
    entrySlot s v = identitySlot base (v.toNat / 4194304) (v.toNat / 4096 % 1024) := by
  have hlt : v.toNat / 4096 % 1024 < 1024 := Nat.mod_lt _ (by decide)
  have hzero := hb.slot_toNat hv (by decide : 0 < 1024)
  have hdvd : 4096 ∣ (identitySlot base (v.toNat / 4194304) 0).toNat := by
    rw [hzero]
    exact dvd_add (dvd_add hb.aligned (dvd_mul_left ..)) (dvd_zero 4096)
  rw [entrySlot, pdIdx_toNat, h.tables _ hv, ← UInt32.toNat_inj, slot_toNat hdvd, hzero, hb.slot_toNat hv hlt]
  omega

theorem IdentityInv.mapped (h : IdentityInv base s) (hb : TablesPlaced base) : IdentityMapped s := by
  intro v hv
  have hlt : v.toNat < 67108864 := hv
  have h16 : v.toNat / 4194304 < numPageTables := by
    show v.toNat / 4194304 < 16
    omega
  have hne : s.pageTables (pdIdx v).toNat ≠ 0 := by
    rw [pdIdx_toNat, h.tables _ h16]
    intro h0
    have hz := congrArg UInt32.toNat h0
    rw [hb.slot_toNat h16 (by decide)] at hz
    apply hb.notNull
    rw [← UInt32.toNat_inj]
    have h0' : (0 : UInt32).toNat = 0 := rfl
    omega
  rw [getPhysicalAddr_eq, if_neg hne, h.slot hb h16,
    h.entries _ h16 _ (Nat.mod_lt _ (by decide)) (.inl h16)]
  exact entryAddr_identity h16

/-- From 64 MB on there is no table after `paging_init`. -/
theorem pagingInit_unmapped {v : UInt32} (hv : ¬ v < 0x4000000) : getPhysicalAddr v (pagingInit s) = 0 := by
  have hge : 67108864 ≤ v.toNat := Nat.not_lt.mp hv
  have hnone : ¬ (pdIdx v).toNat < numPageTables := by
    rw [pdIdx_toNat]
    show ¬ v.toNat / 4194304 < 16
    omega
  rw [getPhysicalAddr_eq, if_pos (pagingInit_noTable hnone)]

end Map

/-! ## Every run -/

/-- The call is one of the allocator, or one of the mapping functions for an address from 64 MB on. -/
def MapsAbove : PagingOp → Prop
  | .page _ => True
  | .mapPage _ virt _ _ => 0x4000000 ≤ virt
  | .unmapPage _ virt => 0x4000000 ≤ virt
  | .allocPageUser _ => False
  | .allocPageKernel _ => False

/-- The same, where the page of a new table does not lie in the identity tables, and others do not write to
these. -/
def SparesIdentity (base : UInt32) (s : Paging) : WalkOp → Prop
  | .page _ => True
  | .mapPage _ virt _ _ => 0x4000000 ≤ virt ∧ (s.pageTables (pdIdx virt).toNat = 0 →
      ∀ m, LowestFree s m → m * 4096 + 4096 ≤ base.toNat ∨ base.toNat + 65536 ≤ m * 4096)
  | .unmapPage _ virt => 0x4000000 ≤ virt
  | .memory m => Mem.Agree s.mem m base.toNat (base.toNat + 65536)

section Steps

variable {base virt : UInt32} {s s' : Paging} {fuel : ℕ} {c : Caller}

theorem IdentityInv.same (h : IdentityInv base s) (hs : SameTables s s') : IdentityInv base s' := by
  refine ⟨hs.lock.trans h.lock, ?_, ?_, ?_⟩
  · rw [hs.tables]
    exact h.tables
  · rw [hs.mem]
    exact h.entries
  · rw [hs.tables]
    exact h.others

/-- What is stored outside the identity tables does not change their entries. -/
theorem Filled.agree {m m' : Mem} {t n : ℕ} (h : Filled base t n m) (hb : TablesPlaced base)
    (hm : Mem.Agree m m' base.toNat (base.toNat + 65536)) : Filled base t n m' := by
  intro t' ht' e he hbefore
  have hslot := hb.slot_toNat ht' he
  have hin := hb.inside
  have h16 : t' < 16 := ht'
  rw [hm.load32 (by omega) (by omega) (by omega)]
  exact h t' ht' e he hbefore

/-- The index of the table of an address from 64 MB on. -/
theorem pdIdx_above (hv : 0x4000000 ≤ virt) : numPageTables ≤ (pdIdx virt).toNat := by
  have hge : 67108864 ≤ virt.toNat := hv
  rw [pdIdx_toNat]
  show 16 ≤ virt.toNat / 4194304
  omega

/-- An entry for an address from 64 MB on is not one of the identity map. -/
theorem IdentityInv.putEntry (h : IdentityInv base s) (hb : TablesPlaced base) (hv : 0x4000000 ≤ virt)
    (htable : s.pageTables (pdIdx virt).toNat ≠ 0) (entry : UInt32) :
    IdentityInv base (putEntry s virt entry) := by
  refine ⟨h.lock, h.tables, h.entries.agree hb ?_, h.others⟩
  rcases h.others _ (pdIdx_above hv) with hnull | ⟨hal, hout⟩
  · exact absurd hnull htable
  · have hslot := slot_toNat hal virt
    have hlt := (s.pageTables (pdIdx virt).toNat).toNat_lt
    have hw : Mem.WritesIn (fun x => (entrySlot s virt).toNat ≤ x ∧ x < (entrySlot s virt).toNat + 4) s.mem
        (s.mem.store32 (entrySlot s virt) entry) :=
      Mem.WritesIn.store32 _ _ (by rw [entrySlot]; omega) fun x h1 h2 => ⟨h1, h2⟩
    refine hw.agree fun x h1 h2 h3 => ?_
    rw [entrySlot] at h3
    omega

/-- A new table for an address from 64 MB on. -/
theorem IdentityInv.tableTaken (h : IdentityInv base s) {i m : ℕ} (hi : numPageTables ≤ i) (hm : m < totalPages)
    (hout : m * 4096 + 4096 ≤ base.toNat ∨ base.toNat + 65536 ≤ m * 4096) :
    IdentityInv base (tableTaken s i m) := by
  refine ⟨h.lock, fun j hj => ?_, h.entries, fun j hj => ?_⟩
  · have hne : j ≠ i := by omega
    rw [RtosKernel.tableTaken, addTable]
    simp only [Function.update_of_ne hne]
    exact h.tables j hj
  · rw [RtosKernel.tableTaken, addTable]
    by_cases hji : j = i
    · subst hji
      simp only [Function.update_self]
      rw [pageAddr_toNat hm]
      exact .inr ⟨dvd_mul_left .., hout⟩
    · simp only [Function.update_of_ne hji]
      exact h.others j hj

/-- A call of `map_page` that returns has found its table. -/
theorem IdentityInv.mapPage (h : IdentityInv base s) (hb : TablesPlaced base) (hf : 0 < c.fuel)
    (hv : 0x4000000 ≤ virt) {phys flags : UInt32} {r : ErrorT × Paging}
    (hr : mapPage c virt phys flags s = .ok r) : IdentityInv base r.2 := by
  by_cases ha : virt % pageSize = 0 ∧ phys % pageSize = 0
  · by_cases hnull : s.pageTables (pdIdx virt).toNat = 0
    · rw [mapPage_missing h.lock hf ha.1 ha.2 hnull] at hr
      cases hr
    · rw [mapPage_putEntry h.lock hf ha.1 ha.2 hnull] at hr
      rw [← Except.ok.inj hr]
      exact h.putEntry hb hv hnull _
  · rw [mapPage_unaligned ha] at hr
    rw [← Except.ok.inj hr]
    exact h

/-- With the lock available the call may create the table. -/
theorem IdentityInv.mapPageOpen (h : IdentityInv base s) (hb : TablesPlaced base) (hf : 0 < c.fuel)
    (hv : 0x4000000 ≤ virt) (phys flags : UInt32) (hplace : s.pageTables (pdIdx virt).toNat = 0 →
      ∀ m, LowestFree s m → m * 4096 + 4096 ≤ base.toNat ∨ base.toNat + 65536 ≤ m * 4096) :
    ∃ e s', mapPageOpen c virt phys flags s = .ok (e, s') ∧ IdentityInv base s' := by
  by_cases ha : virt % pageSize = 0 ∧ phys % pageSize = 0
  · by_cases hnull : s.pageTables (pdIdx virt).toNat = 0
    · rcases mapPageOpen_missing h.lock hf ha.1 ha.2 hnull with ⟨-, s1, hcall, hsame⟩ | ⟨m, hm, h0, hcall⟩
      · exact ⟨.nomem, s1, hcall, h.same hsame⟩
      · have hlt := (mem_clearBits.mp hm.1).1
        have htaken := h.tableTaken (pdIdx_above hv) hlt (hplace hnull m hm)
        refine ⟨.ok, _, hcall, htaken.putEntry hb hv ?_ (mapValue phys flags)⟩
        rw [RtosKernel.tableTaken, addTable]
        simp only [Function.update_self]
        exact fun hz => h0 ((pageAddr_region hlt).2.2 hz)
    · exact ⟨.ok, _, mapPageOpen_ready h.lock hf ha.1 ha.2 hnull, h.putEntry hb hv hnull (mapValue phys flags)⟩
  · refine ⟨.inval, s, ?_, h⟩
    rw [RtosKernel.mapPageOpen, if_pos (by tauto), pure_eq_ok]

theorem IdentityInv.unmapPage (h : IdentityInv base s) (hb : TablesPlaced base) (hf : 0 < c.fuel)
    (hv : 0x4000000 ≤ virt) : ∃ e s', unmapPage c virt s = .ok (e, s') ∧ IdentityInv base s' := by
  by_cases ha : virt % pageSize = 0
  · by_cases hnull : s.pageTables (pdIdx virt).toNat = 0
    · refine ⟨.ok, s, ?_, h⟩
      rw [RtosKernel.unmapPage, if_neg (by simp [ha]), if_neg (indices_in_range virt),
        locked_pure (clearEntry_ignoresLock virt) h.lock hf, clearEntry, if_pos hnull]
    · exact ⟨.ok, _, unmapPage_putEntry h.lock hf ha hnull, h.putEntry hb hv hnull 0⟩
  · exact ⟨.inval, s, by rw [RtosKernel.unmapPage, if_pos ha, pure_eq_ok], h⟩

/-- A call that returns, as the code is. -/
theorem pagingStep_identity (hb : TablesPlaced base) (hf : 0 < fuel) {op : PagingOp} (h : IdentityInv base s)
    (hop : MapsAbove op) (hs : pagingStep fuel s op = .ok s') : IdentityInv base s' := by
  cases op with
  | page op =>
    obtain ⟨t, ht, hsame⟩ := pageStep_sameTables hf h.lock op
    simp only [pagingStep, ht, ok_bind, pure_eq_ok] at hs
    rw [← Except.ok.inj hs]
    exact h.same hsame
  | mapPage who virt phys flags =>
    obtain ⟨r, hr, hs⟩ := bind_eq_ok.mp hs
    rw [← Except.ok.inj hs]
    exact h.mapPage hb (by exact hf) hop hr
  | unmapPage who virt =>
    obtain ⟨e, s1, hr, h1⟩ := @IdentityInv.unmapPage base virt s (who.withFuel fuel) h hb hf hop
    simp only [pagingStep, hr, ok_bind, pure_eq_ok] at hs
    rw [← Except.ok.inj hs]
    exact h1
  | allocPageUser who => exact absurd hop id
  | allocPageKernel who => exact absurd hop id

/-- A call with the lock available. -/
theorem walkStep_identity (hb : TablesPlaced base) (hf : 0 < fuel) (s : Paging) (op : WalkOp)
    (h : IdentityInv base s) (hop : SparesIdentity base s op) :
    ∃ s', walkStep fuel s op = .ok s' ∧ IdentityInv base s' := by
  cases op with
  | page op =>
    obtain ⟨t, ht, hsame⟩ := pageStep_sameTables hf h.lock op
    exact ⟨t.paging, by simp only [walkStep, ht, ok_bind, pure_eq_ok], h.same hsame⟩
  | mapPage who virt phys flags =>
    obtain ⟨e, s1, hr, h1⟩ :=
      @IdentityInv.mapPageOpen base virt s (who.withFuel fuel) h hb hf hop.1 phys flags hop.2
    exact ⟨s1, by simp only [walkStep, hr, ok_bind, pure_eq_ok], h1⟩
  | unmapPage who virt =>
    obtain ⟨e, s1, hr, h1⟩ := @IdentityInv.unmapPage base virt s (who.withFuel fuel) h hb hf hop
    exact ⟨s1, by simp only [walkStep, hr, ok_bind, pure_eq_ok], h1⟩
  | memory m => exact ⟨{ s with mem := m }, rfl, h.lock, h.tables, h.entries.agree hb hop, h.others⟩

end Steps

/-- **After `paging_init` the addresses below 64 MB translate to themselves and the others to nothing, and the
pages below 64 MB are the ones in use. Every state that calls of the allocator, and mapping calls for
addresses from 64 MB on, reach from there keeps that translation**; also if the lock is taken to be available
in `map_page`, as long as the tables that it creates do not lie in the identity tables. -/
theorem identity_map_kept {fuel : ℕ} (hf : 0 < fuel) {s₀ : Paging} (hb : TablesPlaced s₀.identityTables) :
    (∀ v, getPhysicalAddr v (pagingInit s₀) = if v < 0x4000000 then v else 0) ∧
    (∀ p < totalPages, pagingIsPageFree (UInt32.ofNat p) (pagingInit s₀).pageBitmap = false ↔
      p * 4096 < 0x4000000) ∧
    (∀ ops, (∀ op ∈ ops, MapsAbove op) → Whenever (pagingStep fuel) (pagingInit s₀) IdentityMapped ops) ∧
    ∀ ops, AllSteps (walkStep fuel) (pagingInit s₀) (SparesIdentity s₀.identityTables) ops →
      Along (walkStep fuel) (pagingInit s₀) IdentityMapped ops := by
  have hinit := pagingInit_identityInv hb
  refine ⟨fun v => ?_, fun p hp => ?_, fun ops hops => ?_, fun ops hops => ?_⟩
  · by_cases hv : v < 0x4000000
    · rw [if_pos hv]
      exact hinit.mapped hb v hv
    · rw [if_neg hv]
      exact pagingInit_unmapped hv
  · have hmem : p ∈ freeSet (pagingInit s₀) ↔ firstPage ≤ p ∧ p < totalPages := mem_freeSet_pagingInit
    have hfirst := firstPage_eq
    rw [← Bool.not_eq_true, hit_iff hp, hmem]
    omega
  · intro pre hpre s hr
    have hI : IdentityInv s₀.identityTables s := by
      refine run_of_allReturned (C := fun _ => MapsAbove) hinit ?_ ?_ hr
      · exact fun t op t' ht hop hs => pagingStep_identity hb hf ht hop hs
      · exact allReturned_of_allSteps (allSteps_of_forall fun op hop => hops op (hpre.subset hop))
    exact hI.mapped hb
  · exact along_of_allSteps hinit (fun s h => h.mapped hb) (fun s op => walkStep_identity hb hf s op) hops

theorem identity_map_kept_map_above :
    (∀ v, getPhysicalAddr v (pagingInit (bootPaging 0x110000 zeroMem)) = if v < 0x4000000 then v else 0) ∧
      Along (walkStep 1) (pagingInit (bootPaging 0x110000 zeroMem)) IdentityMapped
        [.mapPage (soloCaller .mainTask) 0x4000000 0x5000 3, .unmapPage (soloCaller .mainTask) 0x4000000] := by
  obtain ⟨h1, -, -, h2⟩ := @identity_map_kept 1 one_pos (bootPaging 0x110000 zeroMem)
    ⟨by decide, by decide, by decide⟩
  have habove : (0x4000000 : UInt32) ≤ 0x4000000 := UInt32.le_refl _
  refine ⟨h1, h2 _ (allSteps_cons.mpr ⟨⟨habove, fun _ m hm => ?_⟩, fun s _ =>
    allSteps_cons.mpr ⟨habove, fun _ _ => allSteps_nil⟩⟩)⟩
  have hge := (mem_freeSet_pagingInit.mp hm.1).1
  have hfirst := firstPage_eq
  have hbase : (bootPaging 0x110000 zeroMem).identityTables.toNat = 1114112 := rfl
  omega

end RtosKernel
