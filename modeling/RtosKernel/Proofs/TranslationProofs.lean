import RtosKernel.Proofs.PagingWalkProofs

/-!
# Proofs: what the mapping calls do to the translation

`map_page`, `unmap_page` and `get_physical_addr` split an address in the same way: the page of the address
fixes the table and the entry in it, and the offset goes through. So a store to one entry changes the
translation of one page (`putEntry_inside`, `putEntry_outside`), provided that no two tables share a page
(`TablesApart`).

A page table that `map_page` creates is a page from the allocator, with whatever the page held before. Only
one of its entries is written, so the other pages of its region are mapped as those contents say
(`CleanTable`).
-/

namespace RtosKernel

open Lib

/-! ## Entries and their slots -/

/-- Every page table fills a page, and no two tables the same one. -/
structure TablesApart (s : Paging) : Prop where
  aligned : ∀ i < 1024, 4096 ∣ (s.pageTables i).toNat
  apart : ∀ i < 1024, ∀ j < 1024, i ≠ j → s.pageTables i ≠ 0 → s.pageTables i ≠ s.pageTables j

/-- The physical address that an entry gives to an address of its page. -/
def entryAddr (entry virt : UInt32) : UInt32 :=
  if entry &&& pagePresent = 0 then 0 else (entry &&& 0xFFFFF000) + (virt &&& 0xFFF)

/-- The state with another entry for the page of an address. -/
def putEntry (s : Paging) (virt entry : UInt32) : Paging :=
  { s with mem := s.mem.store32 (entrySlot s virt) entry }

section Slots

variable {s : Paging} {virt a : UInt32}

theorem pdIdx_lt (virt : UInt32) : (pdIdx virt).toNat < 1024 := by
  have hv := virt.toNat_lt
  rw [pdIdx_toNat]
  omega

theorem getPhysicalAddr_eq (virt : UInt32) (s : Paging) :
    getPhysicalAddr virt s =
      if s.pageTables (pdIdx virt).toNat = 0 then 0 else entryAddr (s.mem.load32 (entrySlot s virt)) virt := by
  rw [getPhysicalAddr, if_neg (indices_in_range virt)]
  rfl

/-- Adding the offset of an entry to the address of its table does not wrap around. -/
theorem slot_toNat {table : UInt32} (h : 4096 ∣ table.toNat) (virt : UInt32) :
    (table + 4 * ptIdx virt).toNat = table.toNat + 4 * (virt.toNat / 4096 % 1024) := by
  have hidx := ptIdx_toNat virt
  have htab := table.toNat_lt
  have h4 : (4 : UInt32).toNat = 4 := rfl
  rw [UInt32.toNat_add, UInt32.toNat_mul, hidx, h4]
  omega

theorem TablesApart.slot_toNat (h : TablesApart s) (virt : UInt32) :
    (entrySlot s virt).toNat =
      (s.pageTables (pdIdx virt).toNat).toNat + 4 * (virt.toNat / 4096 % 1024) :=
  RtosKernel.slot_toNat (h.aligned _ (pdIdx_lt virt)) virt

theorem TablesApart.slot_le (h : TablesApart s) (virt : UInt32) : (entrySlot s virt).toNat + 4 ≤ 2 ^ 32 := by
  have hal := h.aligned _ (pdIdx_lt virt)
  have hlt := (s.pageTables (pdIdx virt).toNat).toNat_lt
  rw [h.slot_toNat]
  omega

/-- The entries of two pages do not overlap. -/
theorem TablesApart.slots_disjoint (h : TablesApart s) (htable : s.pageTables (pdIdx virt).toNat ≠ 0)
    (hne : a.toNat / 4096 ≠ virt.toNat / 4096) :
    (entrySlot s virt).toNat + 4 ≤ (entrySlot s a).toNat ∨
      (entrySlot s a).toNat + 4 ≤ (entrySlot s virt).toNat := by
  have hv := h.aligned _ (pdIdx_lt virt)
  have ha := h.aligned _ (pdIdx_lt a)
  rw [h.slot_toNat, h.slot_toNat]
  by_cases hpd : (pdIdx virt).toNat = (pdIdx a).toNat
  · -- one table: the indices in it differ
    rw [hpd]
    rw [pdIdx_toNat, pdIdx_toNat] at hpd
    omega
  · -- two tables, and so two pages
    have hneq := h.apart _ (pdIdx_lt virt) _ (pdIdx_lt a) hpd htable
    have hneq' : (s.pageTables (pdIdx virt).toNat).toNat ≠ (s.pageTables (pdIdx a).toNat).toNat :=
      fun he => hneq (UInt32.toNat_inj.mp he)
    omega

/-- The page of an address is translated by its new entry. -/
theorem putEntry_inside (htable : s.pageTables (pdIdx virt).toNat ≠ 0) (entry : UInt32)
    (hpage : a.toNat / 4096 = virt.toNat / 4096) :
    getPhysicalAddr a (putEntry s virt entry) = entryAddr entry a := by
  have hpd : pdIdx a = pdIdx virt := by
    rw [← UInt32.toNat_inj, pdIdx_toNat, pdIdx_toNat]
    omega
  have hpt : ptIdx a = ptIdx virt := by
    rw [← UInt32.toNat_inj, ptIdx_toNat, ptIdx_toNat, hpage]
  have hslot : entrySlot (putEntry s virt entry) a = entrySlot s virt := by
    rw [entrySlot, entrySlot, hpd, hpt]
    rfl
  have hload : (putEntry s virt entry).mem.load32 (entrySlot s virt) = entry := Mem.load32_store32 ..
  have htable' : (putEntry s virt entry).pageTables (pdIdx a).toNat ≠ 0 := by
    rw [hpd]
    exact htable
  rw [getPhysicalAddr_eq, if_neg htable', hslot, hload]

/-- Every other page is translated as before. -/
theorem putEntry_outside (h : TablesApart s) (htable : s.pageTables (pdIdx virt).toNat ≠ 0) (entry : UInt32)
    (hpage : a.toNat / 4096 ≠ virt.toNat / 4096) :
    getPhysicalAddr a (putEntry s virt entry) = getPhysicalAddr a s := by
  have hload : (putEntry s virt entry).mem.load32 (entrySlot s a) = s.mem.load32 (entrySlot s a) :=
    Mem.load32_store32_of_disjoint _ _ (h.slot_le virt) (h.slot_le a) (h.slots_disjoint htable hpage)
  rw [getPhysicalAddr_eq, getPhysicalAddr_eq]
  show (if s.pageTables (pdIdx a).toNat = 0 then 0
    else entryAddr ((putEntry s virt entry).mem.load32 (entrySlot s a)) a) = _
  rw [hload]

theorem TablesApart.putEntry (h : TablesApart s) (virt entry : UInt32) : TablesApart (putEntry s virt entry) :=
  ⟨h.aligned, h.apart⟩

end Slots

/-! ## The entry that `map_page` writes -/

section MapEntry

variable {virt phys flags o : UInt32}

theorem aligned_iff (virt : UInt32) : virt % pageSize = 0 ↔ 4096 ∣ virt.toNat := by
  rw [← UInt32.toNat_inj, UInt32.toNat_mod]
  exact Nat.dvd_iff_mod_eq_zero.symm

/-- The value that `map_page` stores for a frame and its flags. -/
def mapValue (phys flags : UInt32) : UInt32 := (phys &&& 0xFFFFF000) ||| (flags &&& 0xFFF)

theorem setEntry_eq (s : Paging) (virt phys flags : UInt32) :
    setEntry s virt phys flags = putEntry s virt (mapValue phys flags) := rfl

theorem mapValue_toNat (hp : 4096 ∣ phys.toNat) :
    (mapValue phys flags).toNat = phys.toNat + flags.toNat % 4096 := by
  have hframe : (phys &&& 0xFFFFF000).toNat = phys.toNat / 4096 * 4096 := and_highMask (k := 12) (by decide) rfl
  have hflags : (flags &&& 0xFFF).toNat = flags.toNat % 4096 := and_lowMask (k := 12) rfl
  rw [mapValue, or_low (k := 12) (by rw [hframe]; exact dvd_mul_left ..) (by rw [hflags]; omega), hframe, hflags,
    Nat.div_mul_cancel hp]

/-- An entry is present if its lowest bit is set. -/
theorem present_iff (entry : UInt32) : entry &&& pagePresent = 0 ↔ entry.toNat % 2 = 0 := by
  have hbit : (entry &&& pagePresent).toNat = entry.toNat % 2 := and_lowMask (k := 1) rfl
  rw [← UInt32.toNat_inj, hbit]
  rfl

theorem entryAddr_toNat (entry virt : UInt32) :
    (entryAddr entry virt).toNat =
      if entry.toNat % 2 = 0 then 0 else entry.toNat / 4096 * 4096 + virt.toNat % 4096 := by
  have hframe : (entry &&& 0xFFFFF000).toNat = entry.toNat / 4096 * 4096 := and_highMask (k := 12) (by decide) rfl
  have hoff : (virt &&& 0xFFF).toNat = virt.toNat % 4096 := and_lowMask (k := 12) rfl
  have hlt := entry.toNat_lt
  rw [entryAddr]
  by_cases hp : entry &&& pagePresent = 0
  · rw [if_pos hp, if_pos ((present_iff entry).mp hp)]
    rfl
  · rw [if_neg hp, if_neg fun h => hp ((present_iff entry).mpr h), UInt32.toNat_add, hframe, hoff]
    omega

/-- An offset into a page. -/
theorem offset_toNat (hv : 4096 ∣ virt.toNat) (ho : o < 4096) : (virt + o).toNat = virt.toNat + o.toNat := by
  have hlt := virt.toNat_lt
  have ho' : o.toNat < 4096 := ho
  rw [UInt32.toNat_add]
  omega

/-- The new entry translates an offset of its page to the same offset of the frame. -/
theorem entryAddr_mapValue (hv : 4096 ∣ virt.toNat) (hp : 4096 ∣ phys.toNat) (ho : o < 4096) :
    entryAddr (mapValue phys flags) (virt + o) = if flags &&& pagePresent ≠ 0 then phys + o else 0 := by
  have ho' : o.toNat < 4096 := ho
  rw [← UInt32.toNat_inj, entryAddr_toNat, mapValue_toNat hp, offset_toNat hv ho]
  by_cases hf : flags &&& pagePresent = 0
  · have hbit := (present_iff flags).mp hf
    rw [if_pos (by omega), if_neg (by simp [hf])]
    rfl
  · have hbit : flags.toNat % 2 ≠ 0 := fun h => hf ((present_iff flags).mpr h)
    rw [if_neg (by omega), if_pos hf, offset_toNat hp ho]
    omega

end MapEntry

/-! ## The laws -/

/-- From `s` to `s'` the page at `virt` gets the translation `f`, and every other address keeps its own. -/
structure TranslatesPage (s s' : Paging) (virt : UInt32) (f : UInt32 → UInt32) : Prop where
  inside : ∀ o < 4096, getPhysicalAddr (virt + o) s' = f o
  outside : ∀ a, ¬ (virt.toNat ≤ a.toNat ∧ a.toNat < virt.toNat + 4096) →
    getPhysicalAddr a s' = getPhysicalAddr a s

section Laws

variable {s : Paging} {c : Caller} {virt phys flags : UInt32}

/-- With its page table there, `map_page` puts the entry into it. -/
theorem mapPage_putEntry (hl : s.lock = mutexInit) (hf : 0 < c.fuel) (hv : virt % pageSize = 0)
    (hp : phys % pageSize = 0) (htable : s.pageTables (pdIdx virt).toNat ≠ 0) :
    mapPage c virt phys flags s = .ok (.ok, putEntry s virt (mapValue phys flags)) :=
  mapPage_setEntry hl hf hv hp htable

/-- `unmap_page` clears the entry. -/
theorem unmapPage_putEntry (hl : s.lock = mutexInit) (hf : 0 < c.fuel) (hv : virt % pageSize = 0)
    (htable : s.pageTables (pdIdx virt).toNat ≠ 0) :
    unmapPage c virt s = .ok (.ok, putEntry s virt 0) := by
  have hcall : unmapPage c virt s = .ok (clearEntry virt s) := by
    rw [unmapPage, if_neg (by simp [hv]), if_neg (indices_in_range virt)]
    exact locked_pure (clearEntry_ignoresLock virt) hl hf
  rw [hcall, clearEntry, if_neg htable]
  rfl

/-- Putting an entry changes the translation of its page. -/
theorem translatesPage_put {f : UInt32 → UInt32} {entry : UInt32} (h : TablesApart s)
    (htable : s.pageTables (pdIdx virt).toNat ≠ 0) (hv : 4096 ∣ virt.toNat)
    (hentry : ∀ o < 4096, entryAddr entry (virt + o) = f o) :
    TranslatesPage s (putEntry s virt entry) virt f := by
  refine ⟨fun o ho => ?_, fun a ha => ?_⟩
  · have ho' : o.toNat < 4096 := ho
    have hpage : (virt + o).toNat / 4096 = virt.toNat / 4096 := by
      rw [offset_toNat hv ho]
      omega
    rw [putEntry_inside htable entry hpage]
    exact hentry o ho
  · apply putEntry_outside h htable entry
    intro he
    apply ha
    omega

/-- The second of two entries for a page is the one that counts. -/
theorem putEntry_override (h : TablesApart s) (htable : s.pageTables (pdIdx virt).toNat ≠ 0)
    (entry entry' a : UInt32) :
    getPhysicalAddr a (putEntry (putEntry s virt entry) virt entry') =
      getPhysicalAddr a (putEntry s virt entry') := by
  have htable1 : (putEntry s virt entry).pageTables (pdIdx virt).toNat ≠ 0 := htable
  by_cases hpage : a.toNat / 4096 = virt.toNat / 4096
  · rw [putEntry_inside htable1 entry' hpage, putEntry_inside htable entry' hpage]
  · rw [putEntry_outside (h.putEntry virt entry) htable1 entry' hpage, putEntry_outside h htable entry hpage,
      putEntry_outside h htable entry' hpage]

/-- **The laws of the translation. With its page table there, `map_page` returns `E_OK` and changes the
translation of its page only: to the frame, if the entry is present, and to nothing otherwise. An
`unmap_page` after it takes the translation away, and a second `map_page` overrides the first.** -/
theorem translation_laws {c' : Caller} (hl : s.lock = mutexInit) (hf : 0 < c.fuel) (hf' : 0 < c'.fuel)
    (h : TablesApart s) (hv : virt % pageSize = 0) (hp : phys % pageSize = 0)
    (htable : s.pageTables (pdIdx virt).toNat ≠ 0) (flags : UInt32) :
    ∃ s1, mapPage c virt phys flags s = .ok (.ok, s1) ∧
      TranslatesPage s s1 virt (fun o => if flags &&& pagePresent ≠ 0 then phys + o else 0) ∧
      (∃ s2, unmapPage c' virt s1 = .ok (.ok, s2) ∧ TranslatesPage s1 s2 virt fun _ => 0) ∧
      ∀ phys' flags', phys' % pageSize = 0 → ∃ s2, mapPage c' virt phys' flags' s1 = .ok (.ok, s2) ∧
        TranslatesPage s1 s2 virt (fun o => if flags' &&& pagePresent ≠ 0 then phys' + o else 0) ∧
        ∃ s3, mapPage c' virt phys' flags' s = .ok (.ok, s3) ∧
          ∀ a, getPhysicalAddr a s2 = getPhysicalAddr a s3 := by
  have hv' := (aligned_iff virt).mp hv
  have hp' := (aligned_iff phys).mp hp
  have h1 := h.putEntry virt (mapValue phys flags)
  have htable1 : (putEntry s virt (mapValue phys flags)).pageTables (pdIdx virt).toNat ≠ 0 := htable
  refine ⟨_, mapPage_putEntry hl hf hv hp htable, ?_, ⟨_, unmapPage_putEntry hl hf' hv htable1, ?_⟩, ?_⟩
  · exact translatesPage_put h htable hv' fun o ho => entryAddr_mapValue hv' hp' ho
  · exact translatesPage_put h1 htable1 hv' fun _ _ => rfl
  · intro phys' flags' hphys
    have hphys' := (aligned_iff phys').mp hphys
    refine ⟨_, mapPage_putEntry hl hf' hv hphys htable1, ?_, _, mapPage_putEntry hl hf' hv hphys htable, ?_⟩
    · exact translatesPage_put h1 htable1 hv' fun o ho => entryAddr_mapValue hv' hphys' ho
    · exact putEntry_override h htable (mapValue phys flags) (mapValue phys' flags')

end Laws

theorem pagingInit_tablesApart {s : Paging} (hb : TablesPlaced s.identityTables) :
    TablesApart (pagingInit s) := by
  refine ⟨fun i _ => ((pagingInit_dirInv hb).entry i).aligned, fun i _ j _ hij hi => ?_⟩
  have hlt : i < numPageTables := by
    by_contra hge
    exact hi (pagingInit_noTable hge)
  intro he
  by_cases hj : j < numPageTables
  · have hi' := (hb.table hlt).1
    have hj' := (hb.table hj).1
    rw [he] at hi'
    omega
  · rw [pagingInit_noTable hj] at he
    exact hi he

theorem translation_laws_identity_map :
    ∃ s1, mapPage ((soloCaller .mainTask).withFuel 1) 0x400000 0x9000 3
        (pagingInit (bootPaging 0x110000 zeroMem)) = .ok (.ok, s1) ∧
      TranslatesPage (pagingInit (bootPaging 0x110000 zeroMem)) s1 0x400000 (fun o => 0x9000 + o) := by
  obtain ⟨s1, h1, h2, -⟩ := @translation_laws (pagingInit (bootPaging 0x110000 zeroMem))
    ((soloCaller .mainTask).withFuel 1) 0x400000 0x9000 ((soloCaller .mainTask).withFuel 1) rfl one_pos one_pos
    (pagingInit_tablesApart ⟨by decide, by decide, by decide⟩) (by decide) (by decide) (by decide) 3
  exact ⟨s1, h1, h2⟩

/-! ## A new page table -/

/-- A `map_page` that creates a page table and returns `E_OK` leaves every other page of the region of its
address without a translation. -/
def MapsNothingElse (c : Caller) (virt phys flags : UInt32) (s : Paging) : Prop :=
  ∀ s', mapPageOpen c virt phys flags s = .ok (.ok, s') →
    ∀ a, pdIdx a = pdIdx virt → a.toNat / 4096 ≠ virt.toNat / 4096 → getPhysicalAddr a s' = 0

/-- The page that the allocator hands out next holds no word with the bit `PAGE_PRESENT`, except perhaps
where `map_page` writes the entry. (Page 0 is not used: its address is the null pointer.) -/
def CleanTable (virt : UInt32) (s : Paging) : Prop :=
  ∀ m, LowestFree s m → m ≠ 0 → ∀ j < 1024, j ≠ (ptIdx virt).toNat →
    s.mem.load32 (UInt32.ofNat m * pageSize + 4 * UInt32.ofNat j) &&& pagePresent = 0

section NewTable

variable {s : Paging} {c : Caller} {virt phys flags a : UInt32}

/-- The slot of an address in the new table. -/
theorem tableTaken_slot {m : ℕ} (hm : m < totalPages) (hpd : pdIdx a = pdIdx virt) :
    (entrySlot (tableTaken s (pdIdx virt).toNat m) a).toNat = m * 4096 + 4 * (a.toNat / 4096 % 1024) := by
  have hslot : entrySlot (tableTaken s (pdIdx virt).toNat m) a = UInt32.ofNat m * pageSize + 4 * ptIdx a := by
    rw [entrySlot, hpd, tableTaken, addTable]
    simp only [Function.update_self]
  rw [hslot, slot_toNat, pageAddr_toNat hm]
  rw [pageAddr_toNat hm]
  exact dvd_mul_left ..

/-- Another page of the region is translated by what the new table held before. -/
theorem tableTaken_translates {m : ℕ} (hm : m < totalPages) (h0 : m ≠ 0) (hpd : pdIdx a = pdIdx virt)
    (hpage : a.toNat / 4096 ≠ virt.toNat / 4096) (entry : UInt32) :
    getPhysicalAddr a (putEntry (tableTaken s (pdIdx virt).toNat m) virt entry) =
      entryAddr (s.mem.load32 (UInt32.ofNat m * pageSize + 4 * ptIdx a)) a := by
  have hpd' : a.toNat / 4194304 = virt.toNat / 4194304 := by
    rw [← pdIdx_toNat, ← pdIdx_toNat, hpd]
  have htot := totalPages_eq
  have hsa := tableTaken_slot (s := s) hm hpd
  have hsv := tableTaken_slot (s := s) hm (rfl : pdIdx virt = pdIdx virt)
  have htable : (tableTaken s (pdIdx virt).toNat m).pageTables (pdIdx a).toNat = UInt32.ofNat m * pageSize := by
    rw [hpd, tableTaken, addTable]
    simp only [Function.update_self]
  have hne : UInt32.ofNat m * pageSize ≠ 0 := fun hz => h0 ((pageAddr_region hm).2.2 hz)
  have hload : (putEntry (tableTaken s (pdIdx virt).toNat m) virt entry).mem.load32
      (entrySlot (tableTaken s (pdIdx virt).toNat m) a) =
      s.mem.load32 (entrySlot (tableTaken s (pdIdx virt).toNat m) a) := by
    apply Mem.load32_store32_of_disjoint
    · omega
    · omega
    · omega
  rw [getPhysicalAddr_eq]
  show (if (tableTaken s (pdIdx virt).toNat m).pageTables (pdIdx a).toNat = 0 then 0 else
    entryAddr ((putEntry (tableTaken s (pdIdx virt).toNat m) virt entry).mem.load32
      (entrySlot (tableTaken s (pdIdx virt).toNat m) a)) a) = _
  rw [hload, htable, if_neg hne, entrySlot, htable]

/-- The translation of an address at offset 1 says whether its entry is present. -/
theorem entryAddr_eq_zero {entry : UInt32} (ha : a.toNat % 4096 = 1) (h : entryAddr entry a = 0) :
    entry &&& pagePresent = 0 := by
  have hz := congrArg UInt32.toNat h
  have h0 : (0 : UInt32).toNat = 0 := rfl
  rw [entryAddr_toNat, h0] at hz
  rw [present_iff]
  by_contra hodd
  rw [if_neg hodd] at hz
  omega

/-- The address at offset 1 of page `j` of the region of `virt`. -/
theorem probe_toNat (virt : UInt32) {j : ℕ} (hj : j < 1024) :
    (UInt32.ofNat (virt.toNat / 4194304 * 4194304 + j * 4096 + 1)).toNat =
      virt.toNat / 4194304 * 4194304 + j * 4096 + 1 := by
  have hv := virt.toNat_lt
  exact ofNat_toNat_of_lt (by omega)

/-- An entry of the new table that was present before is one after the call. -/
theorem cleanTable_of_maps (hl : s.lock = mutexInit) (hf : 0 < c.fuel) (hv : virt % pageSize = 0)
    (hp : phys % pageSize = 0) (hnull : s.pageTables (pdIdx virt).toNat = 0)
    (h : MapsNothingElse c virt phys flags s) : CleanTable virt s := by
  intro m hm h0 j hj hne
  rcases @mapPageOpen_missing s c virt phys flags hl hf hv hp hnull with ⟨hfail, -⟩ | ⟨m', hm', -, hcall⟩
  · exact absurd (hfail m hm) h0
  · obtain rfl : m = m' := le_antisymm (hm.2 m' hm'.1) (hm'.2 m hm.1)
    set a := UInt32.ofNat (virt.toNat / 4194304 * 4194304 + j * 4096 + 1) with ha
    have haddr : a.toNat = virt.toNat / 4194304 * 4194304 + j * 4096 + 1 := probe_toNat virt hj
    have hpd : pdIdx a = pdIdx virt := by
      rw [← UInt32.toNat_inj, pdIdx_toNat, pdIdx_toNat]
      omega
    have hjn : (UInt32.ofNat j).toNat = j := ofNat_toNat_of_lt (by omega)
    have hpt : ptIdx a = UInt32.ofNat j := by
      rw [← UInt32.toNat_inj, ptIdx_toNat, hjn]
      omega
    have hpage : a.toNat / 4096 ≠ virt.toNat / 4096 := by
      intro he
      apply hne
      rw [ptIdx_toNat]
      omega
    have hzero := h _ hcall a hpd hpage
    rw [setEntry_eq, tableTaken_translates (mem_clearBits.mp hm.1).1 h0 hpd hpage, hpt] at hzero
    exact entryAddr_eq_zero (by omega) hzero

/-- If the page was clean, the new entry is the only one of its table. -/
theorem maps_of_cleanTable (hl : s.lock = mutexInit) (hf : 0 < c.fuel) (hv : virt % pageSize = 0)
    (hp : phys % pageSize = 0) (hnull : s.pageTables (pdIdx virt).toNat = 0) (h : CleanTable virt s) :
    MapsNothingElse c virt phys flags s := by
  intro s' hs' a hpd hpage
  rcases @mapPageOpen_missing s c virt phys flags hl hf hv hp hnull with ⟨-, s1, hcall, -⟩ | ⟨m, hm, h0, hcall⟩
  · rw [hcall] at hs'
    cases hs'
  · rw [hcall] at hs'
    obtain rfl : putEntry (tableTaken s (pdIdx virt).toNat m) virt (mapValue phys flags) = s' :=
      congrArg Prod.snd (Except.ok.inj hs')
    have hpd' : a.toNat / 4194304 = virt.toNat / 4194304 := by
      rw [← pdIdx_toNat, ← pdIdx_toNat, hpd]
    have hidx := ptIdx_toNat a
    have hne : (ptIdx a).toNat ≠ (ptIdx virt).toNat := by
      rw [hidx, ptIdx_toNat]
      omega
    have hclean := h m hm h0 (ptIdx a).toNat (by omega) hne
    rw [UInt32.ofNat_toNat] at hclean
    rw [tableTaken_translates (mem_clearBits.mp hm.1).1 h0 hpd hpage, entryAddr, if_pos hclean]

/-- **A `map_page` that creates a page table, with the lock taken to be available, leaves the rest of its
region without a translation exactly when the page that it gets from the allocator has no word with the bit
`PAGE_PRESENT` in it.** The page is not cleared. -/
theorem new_table_maps_nothing_else_iff (hl : s.lock = mutexInit) (hf : 0 < c.fuel) (hv : virt % pageSize = 0)
    (hp : phys % pageSize = 0) (hnull : s.pageTables (pdIdx virt).toNat = 0) :
    MapsNothingElse c virt phys flags s ↔ CleanTable virt s :=
  ⟨cleanTable_of_maps hl hf hv hp hnull, maps_of_cleanTable hl hf hv hp hnull⟩

end NewTable

theorem lowestFree_pagingInit (s : Paging) : LowestFree (pagingInit s) firstPage := by
  have hlt : firstPage < totalPages := by
    rw [totalPages_eq, firstPage_eq]
    omega
  exact ⟨mem_freeSet_pagingInit.mpr ⟨le_rfl, hlt⟩, fun q hq => (mem_freeSet_pagingInit.mp hq).1⟩

/-- The state after `paging_init` with the memory `m`, to which others may have written. -/
def bootedWith (m : Mem) : Paging := { pagingInit (bootPaging 0x110000 zeroMem) with mem := m }

theorem bootedWith_lowestFree (m : Mem) : LowestFree (bootedWith m) firstPage := by
  have hfree : freeSet (bootedWith m) = freeSet (pagingInit (bootPaging 0x110000 zeroMem)) := by
    rw [freeSet, freeSet, bootedWith]
  rw [LowestFree, hfree]
  exact lowestFree_pagingInit _

theorem new_table_maps_nothing_else_zeroed :
    MapsNothingElse ((soloCaller .mainTask).withFuel 1) 0x4000000 0x9000 3 (bootedWith zeroMem) := by
  refine (new_table_maps_nothing_else_iff rfl one_pos (by decide) (by decide) (by decide)).mpr ?_
  intro m _ _ j _ _
  have hload : ∀ a, (bootedWith zeroMem).mem.load32 a = 0 := fun _ => rfl
  rw [hload]
  rfl

/-- A word that a client left in the page is taken for the entry of the next page. -/
theorem new_table_keeps_contents :
    ¬ MapsNothingElse ((soloCaller .mainTask).withFuel 1) 0x4000000 0x9000 3
      (bootedWith (zeroMem.store32 0x4000004 0x5003)) := by
  intro h
  have hclean := cleanTable_of_maps rfl one_pos (by decide) (by decide) (by decide) h
  have hword := hclean firstPage (bootedWith_lowestFree _) (by decide) 1 (by decide) (by decide)
  have hload : (bootedWith (zeroMem.store32 0x4000004 0x5003)).mem.load32
      (UInt32.ofNat firstPage * pageSize + 4 * UInt32.ofNat 1) = 0x5003 := Mem.load32_store32 ..
  rw [hload] at hword
  exact absurd hword (by decide)

end RtosKernel
