import RtosKernel.Lib.WordBits
import RtosKernel.Proofs.PagingLockProofs

/-!
# Proofs: the page tables that the software and the CPU see

The kernel finds a page table through `kernel_paging.page_tables`, the CPU through `page_directory`. Each
entry of the one belongs to an entry of the other (`DirEntry`): both are empty, or the directory entry is
the address of the table with the bits `PAGE_PRESENT` and `PAGE_WRITE`. `paging_init` and `map_page` are the
only ones to write them, and they write both. So `get_physical_addr` is the walk of the CPU.

No directory entry gets the bit `PAGE_USER`, so no page is accessible in Ring 3, whatever its own entry
says.
-/

namespace RtosKernel

open Lib

/-! ## The two indices and the entry -/

section Indices

variable {virt table pde : UInt32}

theorem pdIdx_eq_shift (virt : UInt32) : virt >>> 22 = pdIdx virt := by
  have h22 : (22 : UInt32).toNat % 32 = 22 := rfl
  rw [← UInt32.toNat_inj, pdIdx_toNat, UInt32.toNat_shiftRight, h22, Nat.shiftRight_eq_div_pow]

theorem ptIdx_toNat (virt : UInt32) : (ptIdx virt).toNat = virt.toNat / 4096 % 1024 := by
  rw [ptIdx, UInt32.toNat_mod, div_pageSize]
  rfl

theorem ptIdx_eq_field (virt : UInt32) : (virt >>> 12) &&& (0x3FF : UInt32) = ptIdx virt := by
  have h12 : (12 : UInt32).toNat % 32 = 12 := rfl
  rw [← UInt32.toNat_inj, ptIdx_toNat, and_lowMask (k := 10) rfl, UInt32.toNat_shiftRight, h12,
    Nat.shiftRight_eq_div_pow]
  rfl

/-- The slot of an entry, with the table and the index put side by side or added up. -/
theorem or_index_eq_add (h : 4096 ∣ table.toNat) (virt : UInt32) :
    table ||| (ptIdx virt <<< (2 : UInt32)) = table + 4 * ptIdx virt := by
  have hidx := ptIdx_toNat virt
  have hlt : (ptIdx virt).toNat < 1024 := by omega
  have hshift : (ptIdx virt <<< (2 : UInt32)).toNat = 4 * (ptIdx virt).toNat := by
    have h2 : (2 : UInt32).toNat % 32 = 2 := rfl
    rw [UInt32.toNat_shiftLeft, h2, Nat.shiftLeft_eq]
    omega
  have hmul : (4 * ptIdx virt).toNat = 4 * (ptIdx virt).toNat := by
    have h4 : (4 : UInt32).toNat = 4 := rfl
    rw [UInt32.toNat_mul, h4]
    omega
  have htab := table.toNat_lt
  rw [← UInt32.toNat_inj, or_low (k := 12) h (by omega), UInt32.toNat_add, hshift, hmul]
  omega

/-- The address of a page frame and the offset in it, put side by side or added up. -/
theorem or_offset_eq_add (pte virt : UInt32) :
    (pte &&& 0xFFFFF000) ||| (virt &&& 0xFFF) = (pte &&& 0xFFFFF000) + (virt &&& 0xFFF) := by
  have hframe : (pte &&& 0xFFFFF000).toNat = pte.toNat / 4096 * 4096 := and_highMask (k := 12) (by decide) rfl
  have hoff : (virt &&& 0xFFF).toNat = virt.toNat % 4096 := and_lowMask (k := 12) rfl
  have hpte := pte.toNat_lt
  rw [← UInt32.toNat_inj, or_low (k := 12) (by rw [hframe]; exact dvd_mul_left ..) (by rw [hoff]; omega),
    UInt32.toNat_add, hframe, hoff]
  omega

end Indices

/-! ## Directory entries -/

/-- The pair of an entry of `page_directory` and one of `page_tables`. -/
def DirEntry (pde table : UInt32) : Prop :=
  (table = 0 ∧ pde = 0) ∨ (table ≠ 0 ∧ 4096 ∣ table.toNat ∧ pde = table ||| pagePresent ||| pageWrite)

section Entry

variable {pde table : UInt32}

theorem dirEntry_toNat (h : 4096 ∣ table.toNat) :
    (table ||| pagePresent ||| pageWrite).toNat = table.toNat + 3 := by
  have h3 : pagePresent ||| pageWrite = 3 := rfl
  rw [UInt32.or_assoc, h3, or_low (k := 12) h (by decide)]
  rfl

theorem DirEntry.present (h : DirEntry pde table) : pde &&& pagePresent ≠ 0 ↔ table ≠ 0 := by
  rcases h with ⟨rfl, rfl⟩ | ⟨h0, hal, rfl⟩
  · decide
  · refine iff_of_true (fun he => ?_) h0
    have hbit : ((table ||| pagePresent ||| pageWrite) &&& pagePresent).toNat = (table.toNat + 3) % 2 := by
      rw [and_lowMask (k := 1) rfl, dirEntry_toNat hal]
      rfl
    rw [he] at hbit
    have hz : (0 : UInt32).toNat = 0 := rfl
    omega

theorem DirEntry.address (h : DirEntry pde table) : pde &&& 0xFFFFF000 = table := by
  rcases h with ⟨rfl, rfl⟩ | ⟨h0, hal, rfl⟩
  · decide
  · rw [← UInt32.toNat_inj, and_highMask (k := 12) (by decide) rfl, dirEntry_toNat hal]
    omega

theorem DirEntry.aligned (h : DirEntry pde table) : 4096 ∣ table.toNat := by
  rcases h with ⟨rfl, -⟩ | ⟨-, hal, -⟩
  · exact dvd_zero 4096
  · exact hal

/-- No directory entry is accessible in Ring 3. -/
theorem DirEntry.not_user (h : DirEntry pde table) : pde &&& pageUser = 0 := by
  rcases h with ⟨rfl, rfl⟩ | ⟨h0, hal, rfl⟩
  · decide
  · have hnot : ¬ HasBit (table ||| pagePresent ||| pageWrite) 2 := by
      rw [hasBit_iff (by decide), dirEntry_toNat hal]
      obtain ⟨a, ha⟩ := hal
      simp only [ha, Nat.testBit_eq_decide_div_mod_eq, decide_eq_true_eq, Nat.reducePow]
      omega
    exact not_not.mp hnot

end Entry

/-! ## Every run -/

/-- The linker places `identity_page_tables` on a page boundary (its attribute `aligned(4096)`), as a whole
below 4 GB and not at the null pointer. -/
structure TablesPlaced (base : UInt32) : Prop where
  aligned : 4096 ∣ base.toNat
  notNull : base ≠ 0
  inside : base.toNat + 65536 ≤ 2 ^ 32

/-- The pointers of the kernel and the directory of the CPU name the same page tables, so that
`get_physical_addr` is the walk of the CPU, with 0 where the walk finds an entry that is not present. -/
structure WalksAgree (s : Paging) : Prop where
  present : ∀ i < 1024, s.pageDirectory i &&& pagePresent ≠ 0 ↔ s.pageTables i ≠ 0
  table : ∀ i < 1024, s.pageTables i ≠ 0 → s.pageDirectory i &&& 0xFFFFF000 = s.pageTables i
  walk : ∀ virt, getPhysicalAddr virt s = (x86Walk s virt).getD 0

/-- Between two calls. -/
structure DirInv (s : Paging) : Prop where
  lock : s.lock = mutexInit
  entry : ∀ i, DirEntry (s.pageDirectory i) (s.pageTables i)

theorem DirInv.agree {s : Paging} (h : DirInv s) : WalksAgree s := by
  refine ⟨fun i _ => (h.entry i).present, fun i _ _ => (h.entry i).address, fun virt => ?_⟩
  have hentry := h.entry (pdIdx virt).toNat
  simp only [getPhysicalAddr, if_neg (indices_in_range virt), x86Walk, pdIdx_eq_shift, ptIdx_eq_field,
    hentry.address, or_index_eq_add hentry.aligned, or_offset_eq_add, entrySlot]
  by_cases h0 : s.pageTables (pdIdx virt).toNat = 0
  · have hpde : s.pageDirectory (pdIdx virt).toNat &&& pagePresent = 0 := by
      by_contra hne
      exact hentry.present.mp hne h0
    simp only [h0, hpde, if_true, Option.getD_none]
  · simp only [h0, hentry.present.mpr h0, if_false]
    by_cases hpte : s.mem.load32 (s.pageTables (pdIdx virt).toNat + 4 * ptIdx virt) &&& pagePresent = 0
    · simp only [hpte, if_true, Option.getD_none]
    · simp only [hpte, if_false, Option.getD_some]

/-- The address of `identity_page_tables[t][e]` does not wrap around. -/
theorem TablesPlaced.slot_toNat {base : UInt32} (hb : TablesPlaced base) {t e : ℕ} (ht : t < numPageTables)
    (he : e < 1024) : (identitySlot base t e).toNat = base.toNat + t * 4096 + e * 4 := by
  have hin := hb.inside
  have h16 : t < 16 := ht
  have h4096 : (4096 : UInt32).toNat = 4096 := rfl
  have h4 : (4 : UInt32).toNat = 4 := rfl
  rw [identitySlot, UInt32.toNat_add, UInt32.toNat_add, UInt32.toNat_mul, UInt32.toNat_mul, h4096, h4,
    ofNat_toNat_of_lt (by omega), ofNat_toNat_of_lt (by omega)]
  omega

/-- The sixteen tables of `paging_init`, and no others. -/
theorem TablesPlaced.table {s : Paging} (hb : TablesPlaced s.identityTables) {i : ℕ} (hi : i < numPageTables) :
    ((pagingInit s).pageTables i).toNat = s.identityTables.toNat + i * 4096 ∧
      (pagingInit s).pageTables i ≠ 0 := by
  have htable : (pagingInit s).pageTables i = identitySlot s.identityTables i 0 := if_pos hi
  have hslot := hb.slot_toNat hi (by decide : 0 < 1024)
  rw [htable]
  refine ⟨hslot, fun h0 => hb.notNull (UInt32.toNat_inj.mp ?_)⟩
  have hz := congrArg UInt32.toNat h0
  have h0' : (0 : UInt32).toNat = 0 := rfl
  omega

theorem pagingInit_noTable {s : Paging} {i : ℕ} (hi : ¬ i < numPageTables) : (pagingInit s).pageTables i = 0 :=
  if_neg hi

/-- The state after `paging_init`. -/
theorem pagingInit_dirInv {s : Paging} (hb : TablesPlaced s.identityTables) : DirInv (pagingInit s) := by
  refine ⟨rfl, fun i => ?_⟩
  by_cases hi : i < numPageTables
  · obtain ⟨hval, hne⟩ := hb.table hi
    refine .inr ⟨hne, ?_, ?_⟩
    · rw [hval]
      exact dvd_add hb.aligned (dvd_mul_left ..)
    · simp only [pagingInit, hi, if_true]
  · refine .inl ⟨pagingInit_noTable hi, ?_⟩
    simp only [pagingInit, hi, if_false]

section Steps

variable {s : Paging} {c : Caller} {fuel : ℕ} {virt phys flags : UInt32}

/-- Only the tables of the two states matter. -/
theorem DirInv.congr {s' : Paging} (h : DirInv s) (hl : s'.lock = mutexInit)
    (ht : s'.pageTables = s.pageTables) (hd : s'.pageDirectory = s.pageDirectory) : DirInv s' := by
  refine ⟨hl, fun i => ?_⟩
  rw [ht, hd]
  exact h.entry i

/-- The lock, the tables and the memory in which they lie are the same. -/
structure SameTables (s s' : Paging) : Prop where
  lock : s'.lock = s.lock
  tables : s'.pageTables = s.pageTables
  directory : s'.pageDirectory = s.pageDirectory
  mem : s'.mem = s.mem

theorem SameTables.refl (s : Paging) : SameTables s s := ⟨rfl, rfl, rfl, rfl⟩

theorem SameTables.dirInv {s' : Paging} (h : SameTables s s') (hd : DirInv s) : DirInv s' :=
  hd.congr (h.lock.trans hd.lock) h.tables h.directory

/-- The allocator does not touch the tables. -/
theorem pageStep_sameTables (hf : 0 < fuel) (hl : s.lock = mutexInit) (op : PageOp) :
    ∃ t, pageStep fuel { paging := s, held := [] } op = .ok t ∧ SameTables s t.paging := by
  cases op with
  | allocPage who =>
    have hcall := @allocPage_eq s (who.withFuel fuel) hl hf
    rcases takePage_cases s with ⟨-, he⟩ | ⟨m, -, -, he⟩
    · rw [he] at hcall
      exact ⟨_, pageStep_allocPage_of hcall, .refl s⟩
    · rw [he] at hcall
      exact ⟨_, pageStep_allocPage_of hcall, rfl, rfl, rfl, rfl⟩
  | allocPages who count =>
    by_cases h0 : count = 0
    · subst h0
      exact ⟨_, pageStep_allocPages_of allocPages_zero, .refl s⟩
    · have hcall := @allocPages_eq s (who.withFuel fuel) count hl hf h0
      rcases takePages_cases s h0 with ⟨-, he⟩ | ⟨a, -, -, he⟩
      · rw [he] at hcall
        exact ⟨_, pageStep_allocPages_of hcall, .refl s⟩
      · rw [he] at hcall
        exact ⟨_, pageStep_allocPages_of hcall, rfl, rfl, rfl, rfl⟩
  | freePage who ptr =>
    have hcases := @freePage_cases s (who.withFuel fuel) hl hf ptr
    rcases hcases with ⟨-, he⟩ | ⟨-, -, he⟩
    · exact ⟨_, pageStep_freePage_of he, .refl s⟩
    · exact ⟨_, pageStep_freePage_of he, rfl, rfl, rfl, rfl⟩
  | freePages who ptr count =>
    have hcases := @freePages_cases s (who.withFuel fuel) hl hf ptr count
    rcases hcases with ⟨-, he⟩ | ⟨-, -, -, he⟩
    · exact ⟨_, pageStep_freePages_of he, .refl s⟩
    · exact ⟨_, pageStep_freePages_of he, rfl, rfl, rfl, rfl⟩

/-- A new page table in the pointers and in the directory. -/
def addTable (s : Paging) (i : ℕ) (table : UInt32) : Paging :=
  { s with
    pageTables := Function.update s.pageTables i table
    pageDirectory := Function.update s.pageDirectory i (table ||| pagePresent ||| pageWrite) }

/-- The entry of an address in its page table. -/
def setEntry (s : Paging) (virt phys flags : UInt32) : Paging :=
  { s with mem := s.mem.store32 (entrySlot s virt) ((phys &&& 0xFFFFF000) ||| (flags &&& 0xFFF)) }

theorem DirInv.addTable (h : DirInv s) (i : ℕ) {table : UInt32} (h0 : table ≠ 0) (hal : 4096 ∣ table.toNat) :
    DirInv (addTable s i table) := by
  refine ⟨h.lock, fun j => ?_⟩
  by_cases hj : j = i
  · subst hj
    simp only [RtosKernel.addTable, Function.update_self]
    exact .inr ⟨h0, hal, rfl⟩
  · simp only [RtosKernel.addTable, Function.update_of_ne hj]
    exact h.entry j

section Entries

variable {alloc : Paging → Except Stop (UInt32 × Paging)} {s1 : Paging} {p : UInt32}

theorem mapEntry_ready (htable : s.pageTables (pdIdx virt).toNat ≠ 0) :
    mapEntry alloc virt phys flags s = .ok (.ok, setEntry s virt phys flags) := by
  simp only [mapEntry, htable, if_false, ok_bind, pure_eq_ok, if_true, setEntry]

theorem mapEntry_nomem (hnull : s.pageTables (pdIdx virt).toNat = 0) (ha : alloc s = .ok (0, s1)) :
    mapEntry alloc virt phys flags s = .ok (.nomem, s1) := by
  simp only [mapEntry, hnull, if_true, ha, ok_bind, pure_eq_ok, Bool.false_eq_true, if_false]

theorem mapEntry_new (hnull : s.pageTables (pdIdx virt).toNat = 0) (ha : alloc s = .ok (p, s1)) (hp : p ≠ 0) :
    mapEntry alloc virt phys flags s =
      .ok (.ok, setEntry (addTable s1 (pdIdx virt).toNat p) virt phys flags) := by
  simp only [mapEntry, hnull, if_true, ha, ok_bind, hp, if_false, pure_eq_ok, setEntry, addTable]

end Entries

/-- The state with page `m` taken and made the table `i`. -/
def tableTaken (s : Paging) (i m : ℕ) : Paging :=
  addTable { s with
    pageBitmap := pagingLockPage (UInt32.ofNat m) s.pageBitmap
    numFreePages := s.numFreePages - 1 } i (UInt32.ofNat m * pageSize)

theorem mapPageOpen_aligned (hv : virt % pageSize = 0) (hp : phys % pageSize = 0) :
    mapPageOpen c virt phys flags s = locked c (mapEntry (allocPageOpen c) virt phys flags) s := by
  rw [mapPageOpen, if_neg (by simp [hv, hp]), if_neg (indices_in_range virt)]

/-- With its page table there, `map_page` makes the entry. -/
theorem mapPageOpen_ready (hl : s.lock = mutexInit) (hf : 0 < c.fuel) (hv : virt % pageSize = 0)
    (hp : phys % pageSize = 0) (htable : s.pageTables (pdIdx virt).toNat ≠ 0) :
    mapPageOpen c virt phys flags s = .ok (.ok, setEntry s virt phys flags) := by
  rw [mapPageOpen_aligned hv hp, locked, hl, mutexLock_init c rfl hf, ok_bind, mapEntry_ready (by exact htable),
    ok_bind]
  simp only [setEntry, mutexUnlock_heldBy, pure_eq_ok, entrySlot, ← hl]

/-- Without its page table, `map_page` makes the lowest free page the table; it fails if there is no free
page, or only page 0. -/
theorem mapPageOpen_missing (hl : s.lock = mutexInit) (hf : 0 < c.fuel) (hv : virt % pageSize = 0)
    (hp : phys % pageSize = 0) (hnull : s.pageTables (pdIdx virt).toNat = 0) :
    ((∀ m, LowestFree s m → m = 0) ∧
      ∃ s1, mapPageOpen c virt phys flags s = .ok (.nomem, s1) ∧ SameTables s s1) ∨
    ∃ m, LowestFree s m ∧ m ≠ 0 ∧ mapPageOpen c virt phys flags s =
      .ok (.ok, setEntry (tableTaken s (pdIdx virt).toNat m) virt phys flags) := by
  have hgive : mutexUnlock c.task s.lock = s.lock := by
    rw [hl]
    rfl
  -- the allocator finds the lock free
  have halloc : allocPageOpen c { s with lock := heldBy c.task } = .ok (takePage s) := by
    rw [allocPageOpen, ← allocPage_eq hl hf]
    exact congrArg (allocPage c) (Paging.with_lock hl)
  rw [mapPageOpen_aligned hv hp, locked, hl, mutexLock_init c rfl hf, ok_bind]
  rcases takePage_cases s with ⟨hempty, he⟩ | ⟨m, hm, hlow, he⟩
  · rw [he] at halloc
    rw [mapEntry_nomem (by exact hnull) halloc, ok_bind]
    refine .inl ⟨fun m hm => ?_, _, rfl, hgive, rfl, rfl, rfl⟩
    have hmem := hm.1
    rw [hempty] at hmem
    exact absurd hmem (Finset.notMem_empty m)
  · rw [he] at halloc
    by_cases h0 : m = 0
    · subst h0
      rw [show UInt32.ofNat 0 * pageSize = 0 from rfl] at halloc
      rw [mapEntry_nomem (by exact hnull) halloc, ok_bind]
      refine .inl ⟨fun q hq => ?_, _, rfl, hgive, rfl, rfl, rfl⟩
      exact Nat.le_zero.mp (hq.2 0 hm)
    · have hne : UInt32.ofNat m * pageSize ≠ 0 := fun hz =>
        h0 ((pageAddr_region (mem_clearBits.mp hm).1).2.2 hz)
      rw [mapEntry_new (by exact hnull) halloc hne, ok_bind]
      refine .inr ⟨m, ⟨hm, hlow⟩, h0, ?_⟩
      simp only [setEntry, tableTaken, RtosKernel.addTable, entrySlot, hgive, pure_eq_ok]

theorem DirInv.tableTaken (h : DirInv s) (i : ℕ) {m : ℕ} (hm : m < totalPages) (h0 : m ≠ 0) :
    DirInv (tableTaken s i m) := by
  have htaken : DirInv { s with
      pageBitmap := pagingLockPage (UInt32.ofNat m) s.pageBitmap
      numFreePages := s.numFreePages - 1 } := h.congr h.lock rfl rfl
  refine htaken.addTable i (fun hz => h0 ((pageAddr_region hm).2.2 hz)) ?_
  rw [pageAddr_toNat hm]
  exact dvd_mul_left ..

/-- With the lock available `map_page` returns: it fails and leaves the tables alone, or it makes the
entry, in a state in which the table is there. -/
theorem DirInv.mapPageOpen (h : DirInv s) (hf : 0 < c.fuel) (virt phys flags : UInt32) :
    (∃ e s1, mapPageOpen c virt phys flags s = .ok (e, s1) ∧ e ≠ .ok ∧ DirInv s1) ∨
    ∃ s1, mapPageOpen c virt phys flags s = .ok (.ok, setEntry s1 virt phys flags) ∧ DirInv s1 := by
  by_cases ha : virt % pageSize = 0 ∧ phys % pageSize = 0
  · by_cases hnull : s.pageTables (pdIdx virt).toNat = 0
    · rcases mapPageOpen_missing h.lock hf ha.1 ha.2 hnull with ⟨-, s1, hcall, hsame⟩ | ⟨m, hm, h0, hcall⟩
      · exact .inl ⟨.nomem, s1, hcall, by decide, hsame.dirInv h⟩
      · exact .inr ⟨_, hcall, h.tableTaken _ (mem_clearBits.mp hm.1).1 h0⟩
    · exact .inr ⟨s, mapPageOpen_ready h.lock hf ha.1 ha.2 hnull, h⟩
  · refine .inl ⟨.inval, s, ?_, by decide, h⟩
    rw [RtosKernel.mapPageOpen, if_pos (by tauto), pure_eq_ok]

theorem DirInv.setEntry (h : DirInv s) (virt phys flags : UInt32) : DirInv (setEntry s virt phys flags) :=
  h.congr h.lock rfl rfl

theorem unmapPage_dirInv (h : DirInv s) (hf : 0 < c.fuel) (virt : UInt32) :
    ∃ e s', unmapPage c virt s = .ok (e, s') ∧ DirInv s' := by
  by_cases hv : virt % pageSize = 0
  · refine ⟨(clearEntry virt s).1, (clearEntry virt s).2, ?_, ?_⟩
    · rw [unmapPage, if_neg (by simp [hv]), if_neg (indices_in_range virt)]
      exact locked_pure (clearEntry_ignoresLock virt) h.lock hf
    · rw [clearEntry]
      split
      · exact h
      · exact h.congr h.lock rfl rfl
  · exact ⟨.inval, s, by rw [unmapPage, if_pos hv, pure_eq_ok], h⟩

/-- Every call returns and keeps the tables together. -/
theorem walkStep_dirInv (hf : 0 < fuel) (s : Paging) (op : WalkOp) (h : DirInv s) :
    ∃ s', walkStep fuel s op = .ok s' ∧ DirInv s' := by
  cases op with
  | page op =>
    obtain ⟨t, ht, hsame⟩ := pageStep_sameTables hf h.lock op
    exact ⟨t.paging, by simp only [walkStep, ht, ok_bind, pure_eq_ok], hsame.dirInv h⟩
  | mapPage who virt phys flags =>
    have hcases := @DirInv.mapPageOpen s (who.withFuel fuel) h hf virt phys flags
    rcases hcases with ⟨e, s1, hm, -, h1⟩ | ⟨s1, hm, h1⟩
    · exact ⟨s1, by simp only [walkStep, hm, ok_bind, pure_eq_ok], h1⟩
    · exact ⟨_, by simp only [walkStep, hm, ok_bind, pure_eq_ok], h1.setEntry virt phys flags⟩
  | unmapPage who virt =>
    obtain ⟨e, s', hm, h'⟩ := @unmapPage_dirInv s (who.withFuel fuel) h hf virt
    exact ⟨s', by simp only [walkStep, hm, ok_bind, pure_eq_ok], h'⟩
  | memory m => exact ⟨{ s with mem := m }, rfl, h.congr h.lock rfl rfl⟩

/-- With its page table there, `map_page` makes the entry. -/
theorem mapPage_setEntry (hl : s.lock = mutexInit) (hf : 0 < c.fuel) (hv : virt % pageSize = 0)
    (hp : phys % pageSize = 0) (htable : s.pageTables (pdIdx virt).toNat ≠ 0) :
    mapPage c virt phys flags s = .ok (.ok, setEntry s virt phys flags) := by
  rw [mapPage_aligned hv hp, locked, hl, mutexLock_init c rfl hf, ok_bind, mapEntry_ready (by exact htable),
    ok_bind]
  simp only [setEntry, mutexUnlock_heldBy, pure_eq_ok, entrySlot, ← hl]

/-- A call of `map_page` that returns has not asked for the lock a second time, so it is the same with the
lock available. -/
theorem mapPageOpen_of_mapPage {r : ErrorT × Paging} (hl : s.lock = mutexInit) (hf : 0 < c.fuel)
    (hm : mapPage c virt phys flags s = .ok r) : mapPageOpen c virt phys flags s = .ok r := by
  by_cases ha : virt % pageSize = 0 ∧ phys % pageSize = 0
  · by_cases hnull : s.pageTables (pdIdx virt).toNat = 0
    · rw [mapPage_missing hl hf ha.1 ha.2 hnull] at hm
      cases hm
    · rw [mapPage_setEntry hl hf ha.1 ha.2 hnull] at hm
      rw [mapPageOpen_ready hl hf ha.1 ha.2 hnull]
      exact hm
  · rw [mapPage_unaligned ha] at hm
    rw [mapPageOpen, if_pos (by tauto), pure_eq_ok]
    exact hm

end Steps

/-- **After every run of calls from `paging_init`, with the lock available and whatever the tables hold, the
kernel and the CPU see the same page tables, and `get_physical_addr` is the walk of the CPU.** -/
theorem page_walks_agree {fuel : ℕ} (hf : 0 < fuel) {s₀ : Paging} (hb : TablesPlaced s₀.identityTables)
    (ops : List WalkOp) : Along (walkStep fuel) (pagingInit s₀) WalksAgree ops :=
  along_of_total (pagingInit_dirInv hb) (fun _ => DirInv.agree) (fun s op => walkStep_dirInv hf s op) ops

theorem page_walks_agree_map_above :
    Along (walkStep 1) (pagingInit (bootPaging 0x110000 zeroMem)) WalksAgree
      [.mapPage (soloCaller .mainTask) 0x4000000 0x5000 3, .page (.freePage (soloCaller .mainTask) 0x4000000),
        .unmapPage (soloCaller .mainTask) 0x4000000] :=
  page_walks_agree one_pos ⟨by decide, by decide, by decide⟩ _

/-! ## Ring 3 -/

/-- The two entries that the CPU reads for an address let a user-mode access through. -/
def UserAccess (s : Paging) (virt : UInt32) : Prop :=
  let pde := s.pageDirectory (pdIdx virt).toNat
  let pte := s.mem.load32 (entrySlot s virt)
  (pde &&& pagePresent ≠ 0 ∧ pde &&& pageUser ≠ 0) ∧ pte &&& pagePresent ≠ 0 ∧ pte &&& pageUser ≠ 0

/-- The flags of a new entry are those of the call. -/
theorem setEntry_flag {s : Paging} {virt phys flags : UInt32} {k : ℕ} (hk : k < 12) (h : HasBit flags k) :
    HasBit ((setEntry s virt phys flags).mem.load32 (entrySlot (setEntry s virt phys flags) virt)) k := by
  have hload : (setEntry s virt phys flags).mem.load32 (entrySlot (setEntry s virt phys flags) virt) =
      (phys &&& 0xFFFFF000) ||| (flags &&& 0xFFF) := Mem.load32_store32 ..
  have hmask : HasBit 0xFFF k := by
    have hval : (0xFFF : UInt32).toNat = 2 ^ 12 - 1 := rfl
    rw [hasBit_iff (by omega), hval, Nat.testBit_two_pow_sub_one]
    exact decide_eq_true hk
  rw [hload, hasBit_or (by omega), hasBit_and (v := flags) (by omega)]
  exact .inr ⟨h, hmask⟩

theorem DirInv.not_userAccess {s : Paging} (h : DirInv s) (virt : UInt32) : ¬ UserAccess s virt :=
  fun hu => hu.1.2 (h.entry _).not_user

/-- **No page is accessible in Ring 3: after any run of paging calls, a `map_page` with `PAGE_PRESENT` and
`PAGE_USER` that returns `E_OK` puts both bits into the entry of the page table, but the directory entry is
without `PAGE_USER`**, also if the lock is taken to be available in the call. -/
theorem user_page_inaccessible {fuel : ℕ} (hf : 0 < fuel) {s₀ s : Paging}
    (hb : TablesPlaced s₀.identityTables) {ops : List WalkOp}
    (hr : run (walkStep fuel) (pagingInit s₀) ops = .ok s) {c : Caller} (hc : 0 < c.fuel)
    {virt phys flags : UInt32} (hflags : flags &&& pagePresent ≠ 0 ∧ flags &&& pageUser ≠ 0) {s' : Paging}
    (hm : mapPage c virt phys flags s = .ok (.ok, s') ∨ mapPageOpen c virt phys flags s = .ok (.ok, s')) :
    (s'.mem.load32 (entrySlot s' virt) &&& pagePresent ≠ 0 ∧
      s'.mem.load32 (entrySlot s' virt) &&& pageUser ≠ 0) ∧
      ¬ UserAccess s' virt := by
  have hI : DirInv s := by
    refine run_inv (I := DirInv) (fun t op t' ht hs => ?_) (pagingInit_dirInv hb) hr
    obtain ⟨t'', hs', h'⟩ := walkStep_dirInv hf t op ht
    rw [hs] at hs'
    rwa [Except.ok.inj hs']
  have hopen : mapPageOpen c virt phys flags s = .ok (.ok, s') := hm.elim (mapPageOpen_of_mapPage hI.lock hc) id
  rcases hI.mapPageOpen hc virt phys flags with ⟨e, s1, he, hne, -⟩ | ⟨s1, he, h1⟩
  · rw [hopen] at he
    exact absurd (congrArg Prod.fst (Except.ok.inj he)).symm hne
  · rw [hopen] at he
    obtain rfl : s' = setEntry s1 virt phys flags := congrArg Prod.snd (Except.ok.inj he)
    have hbits : HasBit flags 0 ∧ HasBit flags 2 := hflags
    refine ⟨⟨?_, ?_⟩, (h1.setEntry virt phys flags).not_userAccess virt⟩
    · exact setEntry_flag (by decide) hbits.1
    · exact setEntry_flag (by decide) hbits.2

/-- `map_page(0x400000, 0x400000, PAGE_PRESENT | PAGE_WRITE | PAGE_USER)` right after `paging_init`. -/
theorem user_page_inaccessible_identity_map :
    ∃ s', mapPage ((soloCaller .mainTask).withFuel 1) 0x400000 0x400000 7
        (pagingInit (bootPaging 0x110000 zeroMem)) = .ok (.ok, s') ∧
      (s'.mem.load32 (entrySlot s' 0x400000) &&& pagePresent ≠ 0 ∧
        s'.mem.load32 (entrySlot s' 0x400000) &&& pageUser ≠ 0) ∧ ¬ UserAccess s' 0x400000 := by
  obtain ⟨m, hm⟩ := @mapPage_ready (pagingInit (bootPaging 0x110000 zeroMem))
    ((soloCaller .mainTask).withFuel 1) 0x400000 0x400000 7 rfl one_pos (by decide) (by decide) (by decide)
  have hr : run (walkStep 1) (pagingInit (bootPaging 0x110000 zeroMem)) [] =
      .ok (pagingInit (bootPaging 0x110000 zeroMem)) := rfl
  refine ⟨_, hm, ?_⟩
  exact user_page_inaccessible one_pos ⟨by decide, by decide, by decide⟩ hr one_pos
    ⟨by decide, by decide⟩ (.inl hm)

/-- That call returns `E_OK`, and the page is not accessible. -/
theorem user_page_mapped_not_accessible :
    ¬ ∀ s', mapPage ((soloCaller .mainTask).withFuel 1) 0x400000 0x400000 7
        (pagingInit (bootPaging 0x110000 zeroMem)) = .ok (.ok, s') → UserAccess s' 0x400000 := by
  intro h
  obtain ⟨m, hm⟩ := @mapPage_ready (pagingInit (bootPaging 0x110000 zeroMem))
    ((soloCaller .mainTask).withFuel 1) 0x400000 0x400000 7 rfl one_pos (by decide) (by decide) (by decide)
  have hpde : (pagingInit (bootPaging 0x110000 zeroMem)).pageDirectory (pdIdx 0x400000).toNat &&&
      pageUser = 0 := by
    decide
  exact (h _ hm).1.2 hpde

end RtosKernel
