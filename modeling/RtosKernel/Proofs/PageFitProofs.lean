import RtosKernel.Proofs.PageRunProofs

/-!
# Proofs: first fit in `alloc_pages`, and the range check of `free_pages`

`alloc_pages` takes the lowest run of free pages that is long enough, and for one page it does what
`alloc_page` does, which alone logs its failure.

`free_pages` adds the page number and the count in 32 bits. The page number is below `2^20`, so a sum that
wraps around is small and passes the check, and the call then frees nearly all of memory.
-/

namespace RtosKernel

open Lib

section Alloc

variable {s : Paging} {c : Caller}

/-- `alloc_pages(count)` has taken the pages from page `a` on, and nothing else is changed. -/
structure TakesRun (s s' : Paging) (count : UInt32) (a : ℕ) : Prop where
  freeSet : ∀ q, q ∈ freeSet s' ↔ q ∈ freeSet s ∧ ¬ (a ≤ q ∧ q < a + count.toNat)
  numFree : s'.numFreePages = s.numFreePages - count
  /-- No wrap-around, if `num_free_pages` counts the free pages. -/
  exact_count : s.numFreePages.toNat = (RtosKernel.freeSet s).card →
    s'.numFreePages.toNat + count.toNat = s.numFreePages.toNat
  rest : s' = { s with pageBitmap := s'.pageBitmap, numFreePages := s'.numFreePages }

/-- The pages of a run are among the free ones. -/
theorem FreeRun.le_card {a n : ℕ} (h : FreeRun s a n) : n ≤ (freeSet s).card := by
  have hsub : Finset.Ico a (a + n) ⊆ freeSet s := by
    intro q hq
    obtain ⟨h1, h2⟩ := Finset.mem_Ico.mp hq
    exact h.free q h1 h2
  have hcard := Finset.card_le_card hsub
  rw [Nat.card_Ico] at hcard
  omega

/-- `alloc_pages` finds the lowest run, or there is none and nothing changes. -/
theorem allocPages_cases (hl : s.lock = mutexInit) (hf : 0 < c.fuel) {count : UInt32} (hc : count ≠ 0) :
    ((∀ a, ¬ FreeRun s a count.toNat) ∧ allocPages c count s = .ok (0, s)) ∨
    ∃ a s', FreeRun s a count.toNat ∧ (∀ b, FreeRun s b count.toNat → a ≤ b) ∧
      allocPages c count s = .ok (UInt32.ofNat a * pageSize, s') ∧ TakesRun s s' count a := by
  have hcall := allocPages_eq (c := c) hl hf hc
  rcases takePages_cases s hc with ⟨hnone, he⟩ | ⟨a, hrun, hlow, he⟩
  · rw [he] at hcall
    exact Or.inl ⟨hnone, hcall⟩
  · rw [he] at hcall
    refine Or.inr ⟨a, _, hrun, hlow, hcall, mem_clearBits_take hrun.bound s.pageBitmap, rfl,
      fun hcard => ?_, rfl⟩
    have hle := hrun.le_card
    rw [← hcard] at hle
    show (s.numFreePages - count).toNat + count.toNat = s.numFreePages.toNat
    rw [UInt32.toNat_sub_of_le _ _ (UInt32.le_iff_toNat_le.mpr hle)]
    omega

theorem firstFree_eq_none : firstFree s.pageBitmap = none ↔ freeSet s = ∅ := by
  rw [firstFree, List.find?_eq_none, Finset.eq_empty_iff_forall_notMem]
  constructor
  · intro h q hq
    have hlt := (mem_clearBits.mp hq).1
    exact h q (List.mem_range.mpr hlt) ((hit_iff hlt).mpr hq)
  · intro h q hq hfree
    exact h q ((hit_iff (List.mem_range.mp hq)).mp hfree)

/-- For a single page the two allocators do the same. -/
theorem takePages_one (s : Paging) : takePages 1 s = takePage s := by
  have h1 : (1 : UInt32) ≠ 0 := by decide
  rcases takePage_cases s with ⟨hempty, he⟩ | ⟨m, hm, hlow, he⟩
  · rcases takePages_cases s h1 with ⟨-, he'⟩ | ⟨a, hrun, -⟩
    · rw [he, he']
    · have hmem := hrun.first_mem
      rw [hempty] at hmem
      exact absurd hmem (Finset.notMem_empty a)
  · rcases takePages_cases s h1 with ⟨hnone, -⟩ | ⟨a, hrun, hlow', he'⟩
    · exact absurd (FreeRun.single hm) (hnone m)
    · obtain rfl : a = m := le_antisymm (hlow' m (FreeRun.single hm)) (hlow a hrun.first_mem)
      have hzero : UInt32.ofNat a + UInt32.ofNat 0 = UInt32.ofNat a := UInt32.add_zero _
      rw [he, he']
      show (_, _) = (_, _)
      rw [show (1 : UInt32).toNat = 1 from rfl, List.range_one, List.foldl_cons, List.foldl_nil, hzero]

theorem allocPages_one (hl : s.lock = mutexInit) (hf : 0 < c.fuel) : allocPages c 1 s = allocPage c s := by
  rw [allocPages_eq hl hf (by decide), allocPage_eq hl hf, takePages_one]

/-- The log after `alloc_page`: with the warning, if no page is free. -/
def logAfterAlloc (env : LogEnv) (s : PagingLog) : Log :=
  if freeSet s.paging = ∅ then
    logMsg logWarn env.ticks (.ofString "Allocation page échouée : pas de page libre") env.buffer env.tick
      s.log
  else s.log

theorem allocPageLogged_eq {s s' : PagingLog} {page : UInt32} (env : LogEnv)
    (h : allocPagesLogged c 1 s = .ok (page, s')) (hl : s.paging.lock = mutexInit) (hf : 0 < c.fuel) :
    allocPageLogged c env s = .ok (page, { s' with log := logAfterAlloc env s }) := by
  rw [allocPagesLogged, allocPages_one hl hf] at h
  rw [allocPageLogged]
  cases hcall : allocPage c s.paging with
  | error e =>
    rw [hcall] at h
    exact absurd h (by simp)
  | ok r =>
    obtain ⟨p, paging⟩ := r
    rw [hcall, ok_bind] at h
    obtain ⟨rfl, rfl⟩ := Prod.mk.inj (Except.ok.inj h)
    rw [ok_bind]
    cases hfree : firstFree s.paging.pageBitmap with
    | none =>
      rw [logAfterAlloc, if_pos (firstFree_eq_none.mp hfree)]
      rfl
    | some i =>
      have hne : freeSet s.paging ≠ ∅ := fun e => by
        rw [firstFree_eq_none.mpr e] at hfree
        exact absurd hfree (by simp)
      rw [logAfterAlloc, if_neg hne]
      rfl

/-- **`alloc_pages` is first fit**: it takes the lowest run of `count` free pages, and if there is none it
returns 0 and changes nothing; `alloc_pages(1)` has the same result and the same effect on the paging data as
`alloc_page()`, which logs a warning besides if no page is free. -/
theorem alloc_pages_is_first_fit {s : PagingLog} (hl : s.paging.lock = mutexInit) (hf : 0 < c.fuel) :
    (∀ count : UInt32, count ≠ 0 →
      ((∀ a, ¬ FreeRun s.paging a count.toNat) ∧ allocPagesLogged c count s = .ok (0, s)) ∨
      ∃ a p s', FreeRun s.paging a count.toNat ∧ (∀ b, FreeRun s.paging b count.toNat → a ≤ b) ∧
        allocPagesLogged c count s = .ok (p, { s with paging := s' }) ∧ p.toNat = a * 4096 ∧
        TakesRun s.paging s' count a) ∧
    ∀ env, ∃ p s', allocPagesLogged c 1 s = .ok (p, s') ∧
      allocPageLogged c env s = .ok (p, { s' with log := logAfterAlloc env s }) := by
  have hfirst : ∀ count : UInt32, count ≠ 0 →
      ((∀ a, ¬ FreeRun s.paging a count.toNat) ∧ allocPagesLogged c count s = .ok (0, s)) ∨
      ∃ a p s', FreeRun s.paging a count.toNat ∧ (∀ b, FreeRun s.paging b count.toNat → a ≤ b) ∧
        allocPagesLogged c count s = .ok (p, { s with paging := s' }) ∧ p.toNat = a * 4096 ∧
        TakesRun s.paging s' count a := by
    intro count hc
    rcases allocPages_cases hl hf hc with ⟨hnone, he⟩ | ⟨a, s', hrun, hlow, he, htake⟩
    · exact Or.inl ⟨hnone, by rw [allocPagesLogged, he]; rfl⟩
    · have hlt := (mem_clearBits.mp hrun.first_mem).1
      exact Or.inr ⟨a, _, s', hrun, hlow, by rw [allocPagesLogged, he]; rfl, pageAddr_toNat hlt, htake⟩
  refine ⟨hfirst, fun env => ?_⟩
  rcases hfirst 1 (by decide) with ⟨-, he⟩ | ⟨a, p, s', -, -, he, -⟩
  · exact ⟨0, s, he, allocPageLogged_eq env he hl hf⟩
  · exact ⟨p, _, he, allocPageLogged_eq env he hl hf⟩

/-- The allocator with every page in use. -/
def fullPages : Paging :=
  { bootPaging 0 zeroMem with pageBitmap := fun _ => 0xFF }

theorem freeSet_fullPages : freeSet fullPages = ∅ := by
  refine Finset.eq_empty_of_forall_notMem fun q hq => ?_
  have hbit : bit (fun _ => 0xFF) q = false := (mem_clearBits.mp hq).2
  have hones : ∀ k < 8, (0xFF : UInt8).toNat.testBit k = true := by decide
  rw [bit, hones _ (Nat.mod_lt q (by decide))] at hbit
  exact absurd hbit (by simp)

/-- The pages below 9 are in use, but for page 7. -/
def gapPages : Paging :=
  { bootPaging 0 zeroMem with
    numFreePages := 1048568
    pageBitmap := fun i => if i = 0 then 0x7F else if i = 1 then 0x01 else 0 }

theorem gapPages_run : FreeRun gapPages 9 2 := by
  refine ⟨by decide, fun q h1 h2 => mem_clearBits.mpr ?_⟩
  have hcases : q = 9 ∨ q = 10 := by omega
  rcases hcases with rfl | rfl
  · exact ⟨by decide, by decide⟩
  · exact ⟨by decide, by decide⟩

theorem gapPages_lowest {b : ℕ} (h : FreeRun gapPages b 2) : 9 ≤ b := by
  by_contra hlt
  have hone : ∀ q < 9, bit gapPages.pageBitmap q = false → q = 7 := by decide
  have hb := hone b (by omega) (mem_clearBits.mp h.first_mem).2
  -- page 7 is alone
  have h8 := (mem_clearBits.mp (h.free 8 (by omega) (by omega))).2
  exact absurd (hone 8 (by decide) h8) (by decide)

/-- Two pages are taken behind the gap. -/
theorem alloc_pages_is_first_fit_gap :
    gapPages.lock = mutexInit ∧ ∃ s', allocPagesLogged ((soloCaller .mainTask).withFuel 1) 2 ⟨gapPages, bootLog⟩ =
      .ok (0x9000, ⟨s', bootLog⟩) ∧ s'.numFreePages = 1048566 := by
  refine ⟨rfl, ?_⟩
  obtain ⟨hfit, -⟩ := alloc_pages_is_first_fit (s := ⟨gapPages, bootLog⟩)
    (c := (soloCaller .mainTask).withFuel 1) rfl one_pos
  rcases hfit 2 (by decide) with ⟨hnone, -⟩ | ⟨a, p, s', hrun, hlow, he, hp, htake⟩
  · exact absurd gapPages_run (hnone 9)
  · have ha : a = 9 := le_antisymm (hlow 9 gapPages_run) (gapPages_lowest hrun)
    have hpage : p = 0x9000 := UInt32.toNat_inj.mp (by rw [hp, ha]; rfl)
    rw [hpage] at he
    exact ⟨s', he, htake.numFree⟩

/-- With no page free and the log empty, `alloc_page` adds a line to the log and `alloc_pages(1)` does not. -/
theorem allocPages_one_no_log {s : PagingLog} (env : LogEnv) (hl : s.paging.lock = mutexInit)
    (hf : 0 < c.fuel) (hempty : freeSet s.paging = ∅) (hboot : s.log = bootLog) :
    ¬ ∃ r, allocPagesLogged c 1 s = .ok r ∧ allocPageLogged c env s = .ok r := by
  rintro ⟨⟨p, s'⟩, he, he'⟩
  rw [allocPageLogged_eq env he hl hf, Except.ok.injEq, Prod.mk.injEq] at he'
  have hsame : s'.log = s.log := by
    rw [allocPagesLogged, allocPages_eq hl hf (by decide), ok_bind] at he
    obtain ⟨-, rfl⟩ := Prod.mk.inj (Except.ok.inj he)
    rfl
  have hlog : logAfterAlloc env s = s.log := by
    rw [← hsame, ← he'.2]
  rw [logAfterAlloc, if_pos hempty, hboot, logMsg, if_neg (by decide)] at hlog
  have hcount : (if (0 : ℤ) < logEntries then (0 : ℤ) + 1 else 0) = 0 := congrArg Log.count hlog
  exact absurd hcount (by decide)

/-- A failing `alloc_page` is seen in the log. -/
theorem alloc_page_logs_failure :
    ¬ ∃ r, allocPagesLogged ((soloCaller .mainTask).withFuel 1) 1 ⟨fullPages, bootLog⟩ = .ok r ∧
      allocPageLogged ((soloCaller .mainTask).withFuel 1) ⟨0, fun _ => 0, fun _ => 0⟩
        ⟨fullPages, bootLog⟩ = .ok r :=
  allocPages_one_no_log _ rfl one_pos freeSet_fullPages rfl

end Alloc

section Free

variable {s : Paging} {c : Caller} {ptr count : UInt32}

/-- The `n` pages from page `a` on have been given back, and nothing else is changed. -/
structure FreesRange (s s' : Paging) (a n : ℕ) : Prop where
  freeSet : RtosKernel.freeSet s' = RtosKernel.freeSet s ∪ Finset.Ico a (a + n)
  /-- `num_free_pages` is raised by the number of these pages that were in use. -/
  numFree : s'.numFreePages =
    s.numFreePages + UInt32.ofNat (Finset.Ico a (a + n) \ RtosKernel.freeSet s).card
  rest : s' = { s with pageBitmap := s'.pageBitmap, numFreePages := s'.numFreePages }

/-- One pass of the loop of `free_pages`: the page is free after it, and was counted if it was in use. -/
theorem releasePage_range {x : (ℕ → UInt8) × UInt32} {p : UInt32} {a n : ℕ} {free : Finset ℕ} {k : UInt32}
    (hp : p.toNat = a + n) (hlt : a + n < totalPages)
    (hx : clearBits totalPages x.1 = free ∪ Finset.Ico a (a + n))
    (hk : x.2 = k + UInt32.ofNat (Finset.Ico a (a + n) \ free).card) :
    clearBits totalPages (releasePage p x).1 = free ∪ Finset.Ico a (a + (n + 1)) ∧
      (releasePage p x).2 = k + UInt32.ofNat (Finset.Ico a (a + (n + 1)) \ free).card := by
  have hIco : Finset.Ico a (a + (n + 1)) = insert (a + n) (Finset.Ico a (a + n)) := by
    ext q
    simp only [Finset.mem_Ico, Finset.mem_insert]
    omega
  have hset : clearBits totalPages (releasePage p x).1 = free ∪ Finset.Ico a (a + (n + 1)) := by
    rw [(releasePage_spec (by omega)).1, hp, hx, hIco, Finset.union_insert]
  refine ⟨hset, ?_⟩
  have hnew : a + n ∉ Finset.Ico a (a + n) := by simp
  have hiff : pagingIsPageFree p x.1 = true ↔ a + n ∈ free := by
    rw [pagingIsPageFree_iff, hx, hp, Finset.mem_union]
    exact or_iff_left hnew
  by_cases hfree : a + n ∈ free
  · rw [releasePage, if_pos (hiff.mpr hfree), hIco, Finset.insert_sdiff_of_mem _ hfree]
    exact hk
  · have hout : a + n ∉ Finset.Ico a (a + n) \ free := fun h => hnew (Finset.mem_sdiff.mp h).1
    rw [releasePage, if_neg (mt hiff.mp hfree), hIco, Finset.insert_sdiff_of_notMem _ hfree,
      Finset.card_insert_of_notMem hout, UInt32.ofNat_add, ← UInt32.add_assoc, ← hk]
    rfl

/-- The loop of `free_pages` over a range inside the bitmap. -/
theorem releaseRange_spec {p : UInt32} (h : p.toNat + count.toNat ≤ totalPages) (s : Paging) :
    FreesRange s (releaseRange p count s).2 p.toNat count.toNat := by
  have htot := totalPages_eq
  -- the first `n` pages of the range are free, and counted
  obtain ⟨hset, hnum⟩ := foldl_range (N := count.toNat) (s := (s.pageBitmap, s.numFreePages))
    (f := fun x i => releasePage (p + UInt32.ofNat i) x)
    (P := fun n x => clearBits totalPages x.1 = freeSet s ∪ Finset.Ico p.toNat (p.toNat + n) ∧
      x.2 = s.numFreePages + UInt32.ofNat (Finset.Ico p.toNat (p.toNat + n) \ freeSet s).card)
    (by simp [freeSet]) fun n hn x hx => by
      have hp : (p + UInt32.ofNat n).toNat = p.toNat + n := by
        rw [UInt32.toNat_add, ofNat_toNat_of_lt (by omega)]
        omega
      exact releasePage_range hp (by omega) hx.1 hx.2
  exact ⟨hset, hnum, rfl⟩

/-- `free_pages` rejects a range that is empty or leaves the bitmap, with nothing changed, and frees any
other one. -/
def ChecksRange (c : Caller) (ptr count : UInt32) (s : Paging) : Prop :=
  if ptr = 0 ∨ count = 0 ∨ totalPages < ptr.toNat / 4096 + count.toNat then
    freePages c ptr count s = .ok (.inval, s)
  else ∃ s', freePages c ptr count s = .ok (.ok, s') ∧ FreesRange s s' (ptr.toNat / 4096) count.toNat

/-- The check of the code is the right one as long as the sum does not wrap around. -/
theorem sum_gt_iff (h : ptr.toNat / 4096 + count.toNat < 2 ^ 32) :
    ptr / pageSize + count > UInt32.ofNat totalPages ↔ totalPages < ptr.toNat / 4096 + count.toNat := by
  rw [gt_iff_lt, UInt32.lt_iff_toNat_lt, UInt32.toNat_add, div_pageSize, Nat.mod_eq_of_lt h]
  rfl

/-- A sum that wraps around passes the check. -/
theorem sum_le_of_wraps (h : 2 ^ 32 ≤ ptr.toNat / 4096 + count.toNat) :
    ¬ ptr / pageSize + count > UInt32.ofNat totalPages := by
  have hp := ptr.toNat_lt
  have hc := count.toNat_lt
  rw [gt_iff_lt, UInt32.lt_iff_toNat_lt, UInt32.toNat_add, div_pageSize]
  show ¬ 1048576 < (ptr.toNat / 4096 + count.toNat) % 2 ^ 32
  omega

/-- **`free_pages` checks its range, exactly when the page number and the count do not add up to `2^32` or
more.** -/
theorem free_pages_checks_range_iff (hl : s.lock = mutexInit) (hf : 0 < c.fuel) (ptr count : UInt32) :
    ChecksRange c ptr count s ↔ ptr = 0 ∨ count = 0 ∨ ptr.toNat / 4096 + count.toNat < 2 ^ 32 := by
  have hcases := freePages_cases (c := c) hl hf ptr count
  by_cases h0 : ptr = 0 ∨ count = 0
  · have hcond : ptr = 0 ∨ count = 0 ∨ totalPages < ptr.toNat / 4096 + count.toNat := h0.imp_right Or.inl
    rw [ChecksRange, if_pos hcond]
    refine iff_of_true ?_ (h0.imp_right Or.inl)
    rcases hcases with ⟨-, he⟩ | ⟨hp, hc, -⟩
    · exact he
    · exact absurd h0 (not_or.mpr ⟨hp, hc⟩)
  · obtain ⟨hp, hc⟩ := not_or.mp h0
    simp only [hp, hc, false_or] at hcases ⊢
    rcases Nat.lt_or_ge (ptr.toNat / 4096 + count.toNat) (2 ^ 32) with hsum | hsum
    · refine iff_of_true ?_ hsum
      rw [sum_gt_iff hsum] at hcases
      simp only [ChecksRange, hp, hc, false_or]
      rcases hcases with ⟨hgt, he⟩ | ⟨-, -, hle, he⟩
      · rw [if_pos hgt]
        exact he
      · rw [if_neg hle, he, ← div_pageSize]
        exact ⟨_, rfl, releaseRange_spec (by rw [div_pageSize]; omega) s⟩
    · refine iff_of_false ?_ (by omega)
      have htot := totalPages_eq
      have hgt : totalPages < ptr.toNat / 4096 + count.toNat := by omega
      simp only [ChecksRange, hp, hc, hgt, or_true, if_true]
      intro he
      rcases hcases with ⟨hwrap, -⟩ | ⟨-, -, -, he'⟩
      · exact sum_le_of_wraps hsum hwrap
      · -- the loop was run, and the call returned `E_OK`
        rw [he', releaseRange, Except.ok.injEq, Prod.mk.injEq] at he
        exact absurd he.1 (by decide)

theorem free_pages_checks_range_at_boot :
    (bootPaging 0 zeroMem).lock = mutexInit ∧
      ChecksRange ((soloCaller .mainTask).withFuel 1) 0x4000000 8 (bootPaging 0 zeroMem) :=
  ⟨rfl, (free_pages_checks_range_iff rfl one_pos _ _).mpr (Or.inr (Or.inr (by decide)))⟩

/-- `free_pages` of `2^32 - 1` pages from page 1 on is not rejected. -/
theorem free_pages_accepts_wrapped_range :
    ¬ ChecksRange ((soloCaller .mainTask).withFuel 1) 0x1000 0xFFFFFFFF (pagingInit (bootPaging 0 zeroMem)) := by
  rw [free_pages_checks_range_iff rfl one_pos]
  decide

end Free

end RtosKernel
