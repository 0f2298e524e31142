import RtosKernel.Proofs.PageRunProofs

/-!
# Runs of the paging calls: the lock

`map_page` calls `alloc_page` with `paging_lock` held when the 4 MB region of its address has no page
table yet. `alloc_page` takes the same lock, which is not re-entrant, so the call waits for itself:
`mapPage_missing`. With the table there, no allocation is made and the call returns: `mapPage_ready`.
So the calls of a run all return exactly when each `map_page` finds its table (`TableReady`), and no
table is ever added to the sixteen of `paging_init`.
-/

namespace RtosKernel

open Lib

section MapPage

variable {s : Paging} {c : Caller} {virt phys flags : UInt32}

theorem pdIdx_toNat (virt : UInt32) : (pdIdx virt).toNat = virt.toNat / 4194304 := by
  rw [pdIdx, UInt32.toNat_div]
  rfl

/-- The second check of `map_page` never fails: both indices of an address are in range. -/
theorem indices_in_range (virt : UInt32) : ¬ (pageTablesCount ≤ pdIdx virt ∨ pagesPerTable ≤ ptIdx virt) := by
  have hv := virt.toNat_lt
  have h1 : pageTablesCount.toNat = 1024 := rfl
  have h2 : pagesPerTable.toNat = 1024 := rfl
  rw [UInt32.le_iff_toNat_le, UInt32.le_iff_toNat_le, pdIdx_toNat, h1, h2, ptIdx, UInt32.toNat_mod, h2]
  omega

theorem mapPage_aligned (hv : virt % pageSize = 0) (hp : phys % pageSize = 0) :
    mapPage c virt phys flags s = locked c (mapEntry (allocPage c) virt phys flags) s := by
  rw [mapPage, if_neg (by simp [hv, hp]), if_neg (indices_in_range virt)]

/-- **Without its page table, `map_page` waits for the lock that it holds.** -/
theorem mapPage_missing (hl : s.lock = mutexInit) (hf : 0 < c.fuel) (hv : virt % pageSize = 0)
    (hp : phys % pageSize = 0) (hnull : s.pageTables (pdIdx virt).toNat = 0) :
    mapPage c virt phys flags s = .error (.waiting (some c.task)) := by
  have hinner : mapEntry (allocPage c) virt phys flags { s with lock := heldBy c.task } =
      .error (.waiting (some c.task)) := by
    simp only [mapEntry, hnull, if_true, allocPage, locked, mutexLock_heldBy, error_bind]
  rw [mapPage_aligned hv hp, locked, hl, mutexLock_init c rfl hf, ok_bind, hinner, error_bind]

/-- With its page table, `map_page` returns and gives the lock back. -/
theorem mapPage_ready (hl : s.lock = mutexInit) (hf : 0 < c.fuel) (hv : virt % pageSize = 0)
    (hp : phys % pageSize = 0) (htable : s.pageTables (pdIdx virt).toNat ≠ 0) :
    ∃ m, mapPage c virt phys flags s = .ok (.ok, { s with mem := m }) := by
  refine ⟨s.mem.store32 (entrySlot s virt) ((phys &&& 0xFFFFF000) ||| (flags &&& 0xFFF)), ?_⟩
  have hinner : mapEntry (allocPage c) virt phys flags { s with lock := heldBy c.task } =
      .ok (.ok, { s with
        mem := s.mem.store32 (entrySlot s virt) ((phys &&& 0xFFFFF000) ||| (flags &&& 0xFFF))
        lock := heldBy c.task }) := by
    simp only [mapEntry, htable, if_false, ok_bind, pure_eq_ok, if_true, entrySlot]
  rw [mapPage_aligned hv hp, locked, hl, mutexLock_init c rfl hf, ok_bind, hinner, ok_bind]
  simp only [mutexUnlock_heldBy, pure_eq_ok]

theorem mapPage_unaligned (h : ¬ (virt % pageSize = 0 ∧ phys % pageSize = 0)) :
    mapPage c virt phys flags s = .ok (.inval, s) := by
  rw [mapPage, if_pos (by tauto), pure_eq_ok]

/-- `map_page` returns if its address is not aligned or its table is there. -/
theorem mapPage_returns (hl : s.lock = mutexInit) (hf : 0 < c.fuel) (phys flags : UInt32)
    (h : virt % pageSize = 0 → phys % pageSize = 0 → s.pageTables (pdIdx virt).toNat ≠ 0) :
    ∃ e m, mapPage c virt phys flags s = .ok (e, { s with mem := m }) := by
  by_cases ha : virt % pageSize = 0 ∧ phys % pageSize = 0
  · obtain ⟨m, hm⟩ := mapPage_ready hl hf ha.1 ha.2 (h ha.1 ha.2)
    exact ⟨.ok, m, hm⟩
  · exact ⟨.inval, s.mem, mapPage_unaligned ha⟩

end MapPage

/-! ## Allocating a page and mapping it -/

/-- Page `m` is the one that `alloc_page` takes. -/
def LowestFree (s : Paging) (m : ℕ) : Prop := m ∈ freeSet s ∧ ∀ q ∈ freeSet s, m ≤ q

section AllocMapped

variable {s : Paging} {c : Caller} {flags : UInt32}

/-- The address of page `m`: aligned, and in the region `m / 1024`. -/
theorem pageAddr_region {m : ℕ} (hm : m < totalPages) :
    UInt32.ofNat m * pageSize % pageSize = 0 ∧ (pdIdx (UInt32.ofNat m * pageSize)).toNat = m / 1024 ∧
      (UInt32.ofNat m * pageSize = 0 → m = 0) := by
  have haddr := pageAddr_toNat hm
  have hsize : pageSize.toNat = 4096 := rfl
  have h0 : (0 : UInt32).toNat = 0 := rfl
  refine ⟨?_, ?_, fun h => ?_⟩
  · rw [← UInt32.toNat_inj, UInt32.toNat_mod, haddr, hsize, h0]
    omega
  · rw [pdIdx_toNat, haddr]
    omega
  · rw [← UInt32.toNat_inj, haddr, h0] at h
    omega

theorem allocPageMapped_zero {s1 : Paging} (h : allocPage c s = .ok (0, s1)) :
    allocPageMapped flags c s = .ok (0, s1) := by
  simp only [allocPageMapped, h, ok_bind, if_true, pure_eq_ok]

theorem allocPageMapped_map {p : UInt32} {s1 : Paging} (h : allocPage c s = .ok (p, s1)) (hp : p ≠ 0) :
    allocPageMapped flags c s =
      (do let r ← mapPage c p p flags s1
          pure (p, r.2)) := by
  simp only [allocPageMapped, h, ok_bind, hp, if_false]

/-- `alloc_page` with the lock free: no page, or the lowest one, and the tables as they were. -/
theorem allocPage_cases (hl : s.lock = mutexInit) (hf : 0 < c.fuel) :
    (freeSet s = ∅ ∧ allocPage c s = .ok (0, s)) ∨
    ∃ m s1, LowestFree s m ∧ m < totalPages ∧ allocPage c s = .ok (UInt32.ofNat m * pageSize, s1) ∧
      s1.lock = mutexInit ∧ s1.pageTables = s.pageTables := by
  have hcall := allocPage_eq hl hf
  rcases takePage_cases s with ⟨hemp, he⟩ | ⟨m, hm, hlow, he⟩
  · exact .inl ⟨hemp, by rw [hcall, he]⟩
  · rw [he] at hcall
    exact .inr ⟨m, _, ⟨hm, hlow⟩, (mem_clearBits.mp hm).1, hcall, hl, rfl⟩

/-- `alloc_page_user` and `alloc_page_kernel` return if there is no page to map, or its table is there. -/
theorem allocPageMapped_returns (hl : s.lock = mutexInit) (hf : 0 < c.fuel)
    (h : ∀ m, LowestFree s m → m ≠ 0 → s.pageTables (m / 1024) ≠ 0) :
    ∃ r s', allocPageMapped flags c s = .ok (r, s') ∧ s'.lock = mutexInit := by
  rcases allocPage_cases hl hf with ⟨-, hcall⟩ | ⟨m, s1, hm, hlt, hcall, hl1, htabs⟩
  · exact ⟨_, _, allocPageMapped_zero hcall, hl⟩
  · obtain ⟨-, hregion, hzero⟩ := pageAddr_region hlt
    by_cases h0 : m = 0
    · subst h0
      exact ⟨_, _, allocPageMapped_zero hcall, hl1⟩
    · have htable : s1.pageTables (pdIdx (UInt32.ofNat m * pageSize)).toNat ≠ 0 := by
        rw [htabs, hregion]
        exact h m hm h0
      obtain ⟨e, mem, hmap⟩ := mapPage_returns hl1 hf (UInt32.ofNat m * pageSize) flags fun _ _ => htable
      refine ⟨UInt32.ofNat m * pageSize, { s1 with mem := mem }, ?_, hl1⟩
      rw [allocPageMapped_map hcall fun hz => h0 (hzero hz), hmap]
      rfl

/-- They wait for the lock that they hold if the page that `alloc_page` took has no table. -/
theorem allocPageMapped_missing (hl : s.lock = mutexInit) (hf : 0 < c.fuel) {m : ℕ} (hm : LowestFree s m)
    (h0 : m ≠ 0) (hnull : s.pageTables (m / 1024) = 0) :
    allocPageMapped flags c s = .error (.waiting (some c.task)) := by
  rcases allocPage_cases hl hf with ⟨hemp, -⟩ | ⟨m', s1, hm', hlt, hcall, hl1, htabs⟩
  · exact absurd hm.1 (by simp [hemp])
  · obtain rfl : m = m' := le_antisymm (hm.2 m' hm'.1) (hm'.2 m hm.1)
    obtain ⟨halign, hregion, hzero⟩ := pageAddr_region hlt
    have hnull1 : s1.pageTables (pdIdx (UInt32.ofNat m * pageSize)).toNat = 0 := by
      rw [htabs, hregion, hnull]
    rw [allocPageMapped_map hcall fun hz => h0 (hzero hz), mapPage_missing hl1 hf halign halign hnull1,
      error_bind]

end AllocMapped

/-! ## Every run -/

/-- A `map_page` of aligned addresses finds the page table of its region, also the `map_page` that
`alloc_page_user` and `alloc_page_kernel` make of the lowest free page. -/
def TableReady (s : Paging) : PagingOp → Prop
  | .mapPage _ virt phys _ =>
    virt % pageSize = 0 → phys % pageSize = 0 → s.pageTables (pdIdx virt).toNat ≠ 0
  | .allocPageUser _ => ∀ m, LowestFree s m → m ≠ 0 → s.pageTables (m / 1024) ≠ 0
  | .allocPageKernel _ => ∀ m, LowestFree s m → m ≠ 0 → s.pageTables (m / 1024) ≠ 0
  | _ => True

section Runs

variable {s s' : Paging} {fuel : ℕ}

/-- The calls of the allocator return and give the lock back. -/
theorem pageStep_returns {t : PageSys} (hf : 0 < fuel) (hl : t.paging.lock = mutexInit) (op : PageOp) :
    ∃ t', pageStep fuel t op = .ok t' ∧ t'.paging.lock = mutexInit := by
  cases op with
  | allocPage who =>
    obtain ⟨t', ht, htook⟩ := pageStep_allocPage hl hf who
    exact ⟨t', ht, htook.lock.trans hl⟩
  | allocPages who count =>
    obtain ⟨t', ht, htook⟩ := pageStep_allocPages hl hf who count
    exact ⟨t', ht, htook.lock.trans hl⟩
  | freePage who ptr =>
    have hcases := @freePage_cases t.paging (who.withFuel fuel) hl hf ptr
    rcases hcases with ⟨-, he⟩ | ⟨-, -, he⟩
    · exact ⟨_, pageStep_freePage_of he, hl⟩
    · exact ⟨_, pageStep_freePage_of he, hl⟩
  | freePages who ptr count =>
    have hcases := @freePages_cases t.paging (who.withFuel fuel) hl hf ptr count
    rcases hcases with ⟨-, he⟩ | ⟨-, -, -, he⟩
    · exact ⟨_, pageStep_freePages_of he, hl⟩
    · exact ⟨_, pageStep_freePages_of he, hl⟩

theorem unmapPage_returns {c : Caller} (hl : s.lock = mutexInit) (hf : 0 < c.fuel) (virt : UInt32) :
    ∃ e s', unmapPage c virt s = .ok (e, s') ∧ s'.lock = mutexInit := by
  by_cases hv : virt % pageSize = 0
  · refine ⟨(clearEntry virt s).1, (clearEntry virt s).2, ?_, ((clearEntry_ignoresLock virt).keeps s).trans hl⟩
    rw [unmapPage, if_neg (by simp [hv]), if_neg (indices_in_range virt)]
    exact locked_pure (clearEntry_ignoresLock virt) hl hf
  · exact ⟨.inval, s, by rw [unmapPage, if_pos hv, pure_eq_ok], hl⟩

/-- A call that finds its table returns and gives the lock back. -/
theorem pagingStep_returns (hf : 0 < fuel) (s : Paging) (op : PagingOp) (hl : s.lock = mutexInit)
    (hC : TableReady s op) : ∃ s', pagingStep fuel s op = .ok s' ∧ s'.lock = mutexInit := by
  cases op with
  | page op =>
    obtain ⟨t', ht, hl'⟩ := pageStep_returns (t := { paging := s, held := [] }) hf hl op
    exact ⟨t'.paging, by simp only [pagingStep, ht, ok_bind, pure_eq_ok], hl'⟩
  | mapPage who virt phys flags =>
    have hret := @mapPage_returns s (who.withFuel fuel) virt hl hf phys flags hC
    obtain ⟨e, m, he⟩ := hret
    exact ⟨{ s with mem := m }, by simp only [pagingStep, he, ok_bind, pure_eq_ok], hl⟩
  | unmapPage who virt =>
    have hret := @unmapPage_returns s (who.withFuel fuel) hl hf virt
    obtain ⟨e, s', he, hl'⟩ := hret
    exact ⟨s', by simp only [pagingStep, he, ok_bind, pure_eq_ok], hl'⟩
  | allocPageUser who =>
    have hret := @allocPageMapped_returns s (who.withFuel fuel) (pagePresent ||| pageWrite ||| pageUser) hl hf hC
    obtain ⟨r, s', he, hl'⟩ := hret
    exact ⟨s', by simp only [pagingStep, allocPageUser, he, ok_bind, pure_eq_ok], hl'⟩
  | allocPageKernel who =>
    have hret := @allocPageMapped_returns s (who.withFuel fuel) (pagePresent ||| pageWrite) hl hf hC
    obtain ⟨r, s', he, hl'⟩ := hret
    exact ⟨s', by simp only [pagingStep, allocPageKernel, he, ok_bind, pure_eq_ok], hl'⟩

/-- A call that returns has found its table. -/
theorem tableReady_of_step (hf : 0 < fuel) (op : PagingOp) (hl : s.lock = mutexInit)
    (hs : pagingStep fuel s op = .ok s') : TableReady s op := by
  cases op with
  | page op => trivial
  | unmapPage who virt => trivial
  | mapPage who virt phys flags =>
    intro hv hp hnull
    have he := @mapPage_missing s (who.withFuel fuel) virt phys flags hl hf hv hp hnull
    rw [pagingStep, he, error_bind] at hs
    cases hs
  | allocPageUser who =>
    intro m hm h0 hnull
    have he := @allocPageMapped_missing s (who.withFuel fuel) (pagePresent ||| pageWrite ||| pageUser) hl hf
      m hm h0 hnull
    rw [pagingStep, allocPageUser, he, error_bind] at hs
    cases hs
  | allocPageKernel who =>
    intro m hm h0 hnull
    have he := @allocPageMapped_missing s (who.withFuel fuel) (pagePresent ||| pageWrite) hl hf m hm h0 hnull
    rw [pagingStep, allocPageKernel, he, error_bind] at hs
    cases hs

end Runs

/-- **In a run of paging calls from `paging_init` every call returns and leaves `paging_lock` free,
exactly when every `map_page` of the run finds its page table.** -/
theorem paging_calls_return_iff {fuel : ℕ} (hf : 0 < fuel) (s₀ : Paging) (ops : List PagingOp) :
    Along (pagingStep fuel) (pagingInit s₀) (fun s => s.lock = mutexInit) ops ↔
      AllSteps (pagingStep fuel) (pagingInit s₀) TableReady ops := by
  refine along_iff (I := fun s : Paging => s.lock = mutexInit) rfl (fun _ hl => hl) (pagingStep_returns hf) ?_ ops
  exact fun s op s' hl hs _ => tableReady_of_step hf op hl hs

theorem paging_calls_return_in_identity_map :
    0 < 1 ∧ Along (pagingStep 1) (pagingInit (bootPaging 0x110000 zeroMem)) (fun s => s.lock = mutexInit)
      [.mapPage (soloCaller .mainTask) 0x400000 0x400000 3, .unmapPage (soloCaller .mainTask) 0x400000] := by
  refine ⟨one_pos, (paging_calls_return_iff one_pos _ _).mpr ?_⟩
  refine allSteps_cons.mpr ⟨fun _ _ => ?_, fun s _ => allSteps_cons.mpr ⟨trivial, fun s _ => allSteps_nil⟩⟩
  decide

/-- `map_page(0x4000000, ...)` right after `paging_init`: the region has no table, and no budget is
enough for the call. -/
theorem map_page_self_deadlock :
    ¬ ∃ fuel, 0 < fuel ∧ Along (pagingStep fuel) (pagingInit (bootPaging 0x110000 zeroMem))
      (fun s => s.lock = mutexInit) [.mapPage (soloCaller .mainTask) 0x4000000 0x4000000 3] := by
  rintro ⟨fuel, hf, h⟩
  obtain ⟨s, hs, -⟩ := h _ List.prefix_rfl
  rw [run_singleton] at hs
  exact tableReady_of_step hf _ rfl hs (by decide) (by decide) (by decide)

end RtosKernel
