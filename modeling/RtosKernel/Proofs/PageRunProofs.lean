import RtosKernel.Proofs.PagingProofs

/-!
# Runs of the page allocator

Two properties of every state of a run from `paging_init`:

* no allocation hands out a page of the identity-mapped region, and one that returns 0 changes nothing
  (`ReservedSpared`); it rests on no reserved page being free, and holds exactly as long as no call
  frees one,
* `num_free_pages` counts the clear bits and no page is held twice (`Accounted`), for `free_pages`
  calls whose range lies inside the bitmap.
-/

namespace RtosKernel

open Lib

/-! ## What the calls do to the free pages -/

section Effects

variable {s : Paging} {c : Caller}

/-- A page's address is its number times the page size. -/
theorem pageAddr_toNat {m : ℕ} (hm : m < totalPages) : (UInt32.ofNat m * pageSize).toNat = m * 4096 := by
  have htot := totalPages_eq
  rw [UInt32.toNat_mul, pageNum_toNat hm]
  show m * 4096 % 2 ^ 32 = m * 4096
  omega

/-- Clearing the bit of the page of `ptr` makes that page free. -/
theorem clearBits_unlock_ptr (ptr : UInt32) (s : Paging) :
    clearBits totalPages (pagingUnlockPage (ptr / pageSize) s.pageBitmap) =
      insert (ptr.toNat / 4096) (freeSet s) := by
  rw [clearBits_pagingUnlockPage (div_pageSize_lt ptr), div_pageSize, freeSet]

theorem mem_clearBits_releasePage (p : UInt32) (x : (ℕ → UInt8) × UInt32) (q : ℕ) :
    q ∈ clearBits totalPages (releasePage p x).1 ↔
      q ∈ clearBits totalPages x.1 ∨ (q < totalPages ∧ p.toNat = q) := by
  rcases Nat.lt_or_ge p.toNat totalPages with hp | hp
  · rw [(releasePage_spec hp).1, Finset.mem_insert]
    constructor
    · rintro (rfl | h)
      · exact .inr ⟨hp, rfl⟩
      · exact .inl h
    · rintro (h | ⟨-, rfl⟩)
      · exact .inr h
      · exact .inl rfl
  · have hnot : pagingIsPageFree p x.1 ≠ true := by
      intro h
      have := (mem_clearBits.mp (pagingIsPageFree_iff.mp h)).1
      omega
    rw [releasePage, if_neg hnot]
    simp only [pagingUnlockPage_of_le hp]
    constructor
    · exact .inl
    · rintro (h | ⟨h, rfl⟩)
      · exact h
      · omega

theorem mem_clearBits_foldl_release (g : ℕ → UInt32) (l : List ℕ) (x : (ℕ → UInt8) × UInt32) (q : ℕ) :
    q ∈ clearBits totalPages (l.foldl (fun x i => releasePage (g i) x) x).1 ↔
      q ∈ clearBits totalPages x.1 ∨ (q < totalPages ∧ ∃ i ∈ l, (g i).toNat = q) := by
  induction l generalizing x with
  | nil => simp
  | cons j l ih =>
    rw [List.foldl_cons, ih, mem_clearBits_releasePage]
    simp only [List.mem_cons, exists_eq_or_imp, and_or_left, or_assoc]

/-- The pages that are free after the loop of `free_pages`. -/
theorem mem_freeSet_releaseRange (pageNum count : UInt32) (s : Paging) (q : ℕ) :
    q ∈ freeSet (releaseRange pageNum count s).2 ↔
      q ∈ freeSet s ∨ (q < totalPages ∧ ∃ i < count.toNat, (pageNum + UInt32.ofNat i).toNat = q) := by
  rw [freeSet, releaseRange, mem_clearBits_foldl_release, freeSet]
  simp only [List.mem_range]

/-- Releasing pages of the bitmap keeps `num_free_pages` equal to the number of free ones. -/
theorem foldl_release_count {g : ℕ → UInt32} {l : List ℕ} {x : (ℕ → UInt8) × UInt32}
    (hl : ∀ i ∈ l, (g i).toNat < totalPages) (hx : x.2.toNat = (clearBits totalPages x.1).card) :
    (l.foldl (fun x i => releasePage (g i) x) x).2.toNat =
      (clearBits totalPages (l.foldl (fun x i => releasePage (g i) x) x).1).card := by
  induction l generalizing x with
  | nil => exact hx
  | cons j l ih =>
    rw [List.foldl_cons]
    exact ih (fun i hi => hl i (by simp [hi])) ((releasePage_spec (hl j (by simp))).2 hx)

/-- What an allocation does: nothing, or it takes a run of `n` free pages from page `a` on, and its
client holds them unless the returned pointer is 0. -/
structure Took (s s' : PageSys) : Prop where
  lock : s'.paging.lock = s.paging.lock
  numPages : s'.paging.numPages = s.paging.numPages
  effect : s' = s ∨ ∃ a n, FreeRun s.paging a n ∧
    (∀ q, q ∈ freeSet s'.paging ↔ q ∈ freeSet s.paging ∧ ¬ (a ≤ q ∧ q < a + n)) ∧
    s'.paging.numFreePages = s.paging.numFreePages - UInt32.ofNat n ∧
    (s'.held = s.held ∨ s'.held = List.range' a n ++ s.held)

/-- The pages held after an allocation of `n` pages from page `a` on. -/
theorem holdPages_run {a : ℕ} (ha : a < totalPages) (n : ℕ) (held : List ℕ) :
    holdPages (UInt32.ofNat a * pageSize) n held = held ∨
      holdPages (UInt32.ofNat a * pageSize) n held = List.range' a n ++ held := by
  rw [holdPages]
  split
  · exact .inl rfl
  · refine .inr ?_
    rw [pagesAt, pageAddr_toNat ha, Nat.mul_div_cancel _ (by decide)]

/-! The state after a step, from what the call returned. -/

variable {t : PageSys} {fuel : ℕ} {who : Caller} {ptr count p : UInt32} {e : ErrorT} {s' : Paging}

theorem pageStep_allocPage_of (h : allocPage (who.withFuel fuel) t.paging = .ok (p, s')) :
    pageStep fuel t (.allocPage who) = .ok { paging := s', held := holdPages p 1 t.held } := by
  simp only [pageStep, h, ok_bind, pure_eq_ok]

theorem pageStep_allocPages_of (h : allocPages (who.withFuel fuel) count t.paging = .ok (p, s')) :
    pageStep fuel t (.allocPages who count) =
      .ok { paging := s', held := holdPages p count.toNat t.held } := by
  simp only [pageStep, h, ok_bind, pure_eq_ok]

theorem pageStep_freePage_of (h : freePage (who.withFuel fuel) ptr t.paging = .ok (e, s')) :
    pageStep fuel t (.freePage who ptr) = .ok { paging := s', held := dropPages e ptr 1 t.held } := by
  simp only [pageStep, h, ok_bind, pure_eq_ok]

theorem pageStep_freePages_of (h : freePages (who.withFuel fuel) ptr count t.paging = .ok (e, s')) :
    pageStep fuel t (.freePages who ptr count) =
      .ok { paging := s', held := dropPages e ptr count.toNat t.held } := by
  simp only [pageStep, h, ok_bind, pure_eq_ok]

theorem pageStep_allocPage (hl : t.paging.lock = mutexInit) (hf : 0 < fuel) (who : Caller) :
    ∃ t', pageStep fuel t (.allocPage who) = .ok t' ∧ Took t t' := by
  have hcall : allocPage (who.withFuel fuel) t.paging = .ok (takePage t.paging) := allocPage_eq hl hf
  rcases takePage_cases t.paging with ⟨-, he⟩ | ⟨m, hm, -, he⟩
  · rw [he] at hcall
    exact ⟨t, pageStep_allocPage_of hcall, rfl, rfl, .inl rfl⟩
  · rw [he] at hcall
    have hlt := (mem_clearBits.mp hm).1
    refine ⟨_, pageStep_allocPage_of hcall, rfl, rfl,
      .inr ⟨m, 1, .single hm, fun q => ?_, rfl, holdPages_run hlt 1 t.held⟩⟩
    show q ∈ clearBits totalPages (pagingLockPage (UInt32.ofNat m) t.paging.pageBitmap) ↔ _
    rw [clearBits_pagingLockPage, pageNum_toNat hlt, Finset.mem_erase, freeSet]
    constructor
    · rintro ⟨hne, hq⟩
      exact ⟨hq, fun h => hne (by omega)⟩
    · rintro ⟨hq, hne⟩
      exact ⟨fun e => hne (by omega), hq⟩

theorem pageStep_allocPages (hl : t.paging.lock = mutexInit) (hf : 0 < fuel) (who : Caller)
    (count : UInt32) : ∃ t', pageStep fuel t (.allocPages who count) = .ok t' ∧ Took t t' := by
  by_cases h0 : count = 0
  · subst h0
    exact ⟨t, pageStep_allocPages_of allocPages_zero, rfl, rfl, .inl rfl⟩
  · have hcall : allocPages (who.withFuel fuel) count t.paging = .ok (takePages count t.paging) :=
      allocPages_eq hl hf h0
    rcases takePages_cases t.paging h0 with ⟨-, he⟩ | ⟨a, hrun, -, he⟩
    · rw [he] at hcall
      exact ⟨t, pageStep_allocPages_of hcall, rfl, rfl, .inl rfl⟩
    · rw [he] at hcall
      have hlt := (mem_clearBits.mp hrun.first_mem).1
      refine ⟨_, pageStep_allocPages_of hcall, rfl, rfl,
        .inr ⟨a, count.toNat, hrun, fun q => ?_, ?_, holdPages_run hlt count.toNat t.held⟩⟩
      · exact mem_clearBits_take hrun.bound t.paging.pageBitmap q
      · rw [UInt32.ofNat_toNat]

end Effects

/-! ## Reserved pages -/

/-- An allocation of `n` pages that returned `r`, and left the state `s'`: none of its pages is
reserved, and if `r` is 0 there was nothing to allocate and nothing changed. -/
structure AllocSpared (s s' : Paging) (r : UInt32) (n : ℕ) : Prop where
  pages : r ≠ 0 → ∀ i < n, firstPage ≤ r.toNat / 4096 + i
  failed : r = 0 → (∀ a, ¬ FreeRun s a n) ∧ s'.pageBitmap = s.pageBitmap ∧ s'.numFreePages = s.numFreePages

/-- Every allocation that can be made now spares the reserved pages. -/
def ReservedSpared (s : PageSys) : Prop :=
  ∀ c : Caller, 0 < c.fuel →
    (∃ r s', allocPage c s.paging = .ok (r, s') ∧ AllocSpared s.paging s' r 1) ∧
    ∀ count, ∃ r s', allocPages c count s.paging = .ok (r, s') ∧ AllocSpared s.paging s' r count.toNat

/-- A `free_page` or `free_pages` call that passes its range check is not asked for a reserved page. -/
def KeepsReserved : PageOp → Prop
  | .freePage _ ptr => ptr ≠ 0 → firstPage ≤ ptr.toNat / 4096
  | .freePages _ ptr count =>
    ptr ≠ 0 → count ≠ 0 → ¬ ptr / pageSize + count > UInt32.ofNat totalPages →
      ∀ i < count.toNat, firstPage ≤ (ptr / pageSize + UInt32.ofNat i).toNat
  | _ => True

/-- The lock is free and no reserved page is. -/
structure ReservedInv (s : PageSys) : Prop where
  lock : s.paging.lock = mutexInit
  used : ∀ q ∈ freeSet s.paging, firstPage ≤ q

section Reserved

variable {s s' : PageSys} {fuel : ℕ}

theorem firstPage_eq : firstPage = 16384 := rfl

/-- An allocation that takes a free run spares the reserved pages when none of them is free. -/
theorem FreeRun.spared {s s' : Paging} {a n : ℕ} (hrun : FreeRun s a n)
    (h : ∀ q ∈ freeSet s, firstPage ≤ q) : AllocSpared s s' (UInt32.ofNat a * pageSize) n := by
  have haddr := pageAddr_toNat (mem_clearBits.mp hrun.first_mem).1
  have hlo := h a hrun.first_mem
  have hfp := firstPage_eq
  refine ⟨fun _ i _ => ?_, fun h0 => ?_⟩
  · rw [haddr]
    omega
  · -- the pointer is not null: page 0 is reserved
    rw [← UInt32.toNat_inj, haddr] at h0
    have hzero : (0 : UInt32).toNat = 0 := rfl
    omega

theorem takePage_spared {s : Paging} (h : ∀ q ∈ freeSet s, firstPage ≤ q) :
    AllocSpared s (takePage s).2 (takePage s).1 1 := by
  rcases takePage_cases s with ⟨hemp, he⟩ | ⟨m, hm, -, he⟩
  · rw [he]
    refine ⟨fun h0 => absurd rfl h0, fun _ => ⟨fun a hrun => ?_, rfl, rfl⟩⟩
    have hmem := hrun.first_mem
    simp [hemp] at hmem
  · rw [he]
    exact (FreeRun.single hm).spared h

theorem takePages_spared {s : Paging} {count : UInt32} (hc : count ≠ 0)
    (h : ∀ q ∈ freeSet s, firstPage ≤ q) :
    AllocSpared s (takePages count s).2 (takePages count s).1 count.toNat := by
  rcases takePages_cases s hc with ⟨hno, he⟩ | ⟨a, hrun, -, he⟩
  · rw [he]
    exact ⟨fun h0 => absurd rfl h0, fun _ => ⟨hno, rfl, rfl⟩⟩
  · rw [he]
    exact hrun.spared h

/-- Allocations spare the reserved pages exactly when no reserved page is free. -/
theorem reservedSpared_iff (hl : s.paging.lock = mutexInit) :
    ReservedSpared s ↔ ∀ q ∈ freeSet s.paging, firstPage ≤ q := by
  constructor
  · intro h q hq
    obtain ⟨⟨r, s', hs, hok⟩, -⟩ := h ⟨.mainTask, 1, fun _ => [], by simp⟩ one_pos
    rcases takePage_cases s.paging with ⟨hemp, -⟩ | ⟨m, hm, hlow, he⟩
    · simp [hemp] at hq
    · rw [allocPage_eq hl one_pos, he] at hs
      have hr : UInt32.ofNat m * pageSize = r := congrArg Prod.fst (Except.ok.inj hs)
      refine le_trans ?_ (hlow q hq)
      have haddr := pageAddr_toNat (mem_clearBits.mp hm).1
      rw [hr] at haddr
      by_cases h0 : r = 0
      · exact absurd (FreeRun.single hm) ((hok.failed h0).1 m)
      · have := hok.pages h0 0 one_pos
        rw [haddr] at this
        omega
  · intro h c hc
    have hone : allocPage c s.paging = .ok ((takePage s.paging).1, (takePage s.paging).2) := by
      rw [Prod.mk.eta]
      exact allocPage_eq hl hc
    refine ⟨⟨_, _, hone, takePage_spared h⟩, fun count => ?_⟩
    by_cases h0 : count = 0
    · subst h0
      refine ⟨_, _, allocPages_zero, fun hr => absurd rfl hr, fun _ => ⟨fun a hrun => ?_, rfl, rfl⟩⟩
      exact absurd hrun.pos (by simp)
    · have hmany : allocPages c count s.paging =
          .ok ((takePages count s.paging).1, (takePages count s.paging).2) := by
        rw [Prod.mk.eta]
        exact allocPages_eq hl hc h0
      exact ⟨_, _, hmany, takePages_spared h0 h⟩

theorem Took.reserved (h : Took s s') (hI : ReservedInv s) : ReservedInv s' := by
  refine ⟨h.lock.trans hI.lock, fun q hq => ?_⟩
  rcases h.effect with rfl | ⟨a, n, -, hfree, -⟩
  · exact hI.used q hq
  · exact hI.used q ((hfree q).mp hq).1

/-- A step that frees no reserved page keeps them reserved. -/
theorem pageStep_reserved (hf : 0 < fuel) (s : PageSys) (op : PageOp) (hI : ReservedInv s)
    (hC : KeepsReserved op) : ∃ s', pageStep fuel s op = .ok s' ∧ ReservedInv s' := by
  cases op with
  | allocPage who =>
    obtain ⟨s', hs, ht⟩ := pageStep_allocPage hI.lock hf who
    exact ⟨s', hs, ht.reserved hI⟩
  | allocPages who count =>
    obtain ⟨s', hs, ht⟩ := pageStep_allocPages hI.lock hf who count
    exact ⟨s', hs, ht.reserved hI⟩
  | freePage who ptr =>
    have hcases := @freePage_cases s.paging (who.withFuel fuel) hI.lock hf ptr
    rcases hcases with ⟨-, he⟩ | ⟨h0, -, he⟩
    · exact ⟨_, pageStep_freePage_of he, hI.lock, hI.used⟩
    · refine ⟨_, pageStep_freePage_of he, hI.lock, fun q hq => ?_⟩
      rw [freeSet, clearBits_unlock_ptr] at hq
      rcases Finset.mem_insert.mp hq with rfl | hq
      · exact hC h0
      · exact hI.used q hq
  | freePages who ptr count =>
    have hcases := @freePages_cases s.paging (who.withFuel fuel) hI.lock hf ptr count
    rcases hcases with ⟨-, he⟩ | ⟨h0, hc, hsum, he⟩
    · exact ⟨_, pageStep_freePages_of he, hI.lock, hI.used⟩
    · refine ⟨_, pageStep_freePages_of he, hI.lock, fun q hq => ?_⟩
      rcases (mem_freeSet_releaseRange _ _ _ _).mp hq with hq' | ⟨-, i, hi, rfl⟩
      · exact hI.used q hq'
      · exact hC h0 hc hsum i hi

/-- A step after which no reserved page is free has freed none. -/
theorem keepsReserved_of_step (hf : 0 < fuel) (op : PageOp) (hI : ReservedInv s)
    (hs : pageStep fuel s op = .ok s') (hP : ReservedSpared s') : KeepsReserved op := by
  cases op with
  | allocPage who => trivial
  | allocPages who count => trivial
  | freePage who ptr =>
    intro h0
    have hcases := @freePage_cases s.paging (who.withFuel fuel) hI.lock hf ptr
    rcases hcases with ⟨hin | hin, -⟩ | ⟨-, -, he⟩
    · exact absurd hin h0
    · exact hI.used _ hin
    · rw [pageStep_freePage_of he] at hs
      obtain rfl := Except.ok.inj hs
      refine (reservedSpared_iff (by exact hI.lock)).mp hP _ ?_
      rw [freeSet, clearBits_unlock_ptr]
      exact Finset.mem_insert_self _ _
  | freePages who ptr count =>
    intro h0 hc hsum i hi
    have hcases := @freePages_cases s.paging (who.withFuel fuel) hI.lock hf ptr count
    rcases hcases with ⟨hin, -⟩ | ⟨-, -, -, he⟩
    · exact absurd hin (by simp only [not_or]; exact ⟨h0, hc, hsum⟩)
    · rw [pageStep_freePages_of he] at hs
      obtain rfl := Except.ok.inj hs
      by_contra hlt
      have hfp := firstPage_eq
      have htot := totalPages_eq
      refine hlt ((reservedSpared_iff (by exact hI.lock)).mp hP _ ?_)
      exact (mem_freeSet_releaseRange _ _ _ _).mpr (.inr ⟨by omega, i, hi, rfl⟩)

theorem bootPages_reserved (s₀ : Paging) : ReservedInv (bootPages s₀) :=
  ⟨rfl, fun _ hq => (mem_freeSet_pagingInit.mp hq).1⟩

end Reserved

/-- **In every state of a run from `paging_init` every allocation spares the reserved pages, exactly
when no `free_page` or `free_pages` call of the run is asked for one.** -/
theorem reserved_pages_spared_iff {fuel : ℕ} (hf : 0 < fuel) (s₀ : Paging) (ops : List PageOp) :
    Along (pageStep fuel) (bootPages s₀) ReservedSpared ops ↔
      AllSteps (pageStep fuel) (bootPages s₀) (fun _ => KeepsReserved) ops := by
  refine along_iff (bootPages_reserved s₀) ?_ (pageStep_reserved hf) ?_ ops
  · exact fun s hI => (reservedSpared_iff hI.lock).mpr hI.used
  · exact fun s op s' hI hs hP => keepsReserved_of_step hf op hI hs hP

theorem reserved_pages_spared_free_alloc :
    0 < 1 ∧ Along (pageStep 1) (bootPages (bootPaging 0x110000 zeroMem)) ReservedSpared
      [.freePage (soloCaller .mainTask) 0x4000000, .allocPage (soloCaller .mainTask),
        .freePages (soloCaller .mainTask) 0x4001000 3] := by
  refine ⟨one_pos, (reserved_pages_spared_iff one_pos _ _).mpr (allSteps_of_forall ?_)⟩
  simp only [List.forall_mem_cons, List.not_mem_nil, false_imp_iff, implies_true, and_true]
  refine ⟨fun _ => by decide, trivial, fun _ _ _ i hi => ?_⟩
  obtain rfl | rfl | rfl : i = 0 ∨ i = 1 ∨ i = 2 := by
    have : (3 : UInt32).toNat = 3 := rfl
    omega
  all_goals decide

/-- `free_page(0x1000)` makes page 1 free, and the next allocation hands it out. -/
theorem reserved_page_redistributed :
    ¬ Along (pageStep 1) (bootPages (bootPaging 0x110000 zeroMem)) ReservedSpared
      [.freePage (soloCaller .mainTask) 0x1000] := by
  intro h
  obtain ⟨s, hs, hP⟩ := h _ List.prefix_rfl
  rw [run_singleton] at hs
  have hC := keepsReserved_of_step one_pos _ (bootPages_reserved _) hs hP
  exact absurd (hC (by decide)) (by decide)

/-! ## Accounting -/

/-- The counter is the number of clear bits, the two statistics add up to all pages, and no page is
held twice. -/
structure Accounted (s : PageSys) : Prop where
  count : s.paging.numFreePages.toNat = (clearBits totalPages s.paging.pageBitmap).card
  total : ∀ c : Caller, 0 < c.fuel → ∃ used free,
    pagingGetUsedPages c s.paging = .ok (used, s.paging) ∧
    pagingGetFreePages c s.paging = .ok (free, s.paging) ∧ used.toNat + free.toNat = totalPages
  heldOnce : s.held.Nodup

/-- If the call is a `free_pages`, its range lies inside the bitmap. -/
def InBitmap : PageOp → Prop
  | .freePages _ ptr count => ptr.toNat / 4096 + count.toNat ≤ totalPages
  | _ => True

/-- `num_free_pages` counts the free pages, and every page that is held is in use and held once. -/
structure AccountInv (s : PageSys) : Prop where
  lock : s.paging.lock = mutexInit
  numPages : s.paging.numPages = UInt32.ofNat totalPages
  count : s.paging.numFreePages.toNat = (freeSet s.paging).card
  nodup : s.held.Nodup
  used : ∀ q ∈ s.held, q ∉ freeSet s.paging

section Account

variable {s s' : PageSys} {fuel : ℕ}

theorem freeSet_card_le (s : Paging) : (freeSet s).card ≤ totalPages := card_clearBits_le _ _

theorem Took.account (h : Took s s') (hI : AccountInv s) : AccountInv s' := by
  rcases h.effect with rfl | ⟨a, n, hrun, hfree, hnum, hheld⟩
  · exact hI
  · have htot := totalPages_eq
    have hle := freeSet_card_le s.paging
    have hsub : Finset.Ico a (a + n) ⊆ freeSet s.paging := fun q hq =>
      hrun.free q (Finset.mem_Ico.mp hq).1 (Finset.mem_Ico.mp hq).2
    have hset : freeSet s'.paging = freeSet s.paging \ Finset.Ico a (a + n) := by
      ext q
      rw [hfree q, Finset.mem_sdiff, Finset.mem_Ico]
    have hn : n ≤ (freeSet s.paging).card := by simpa using Finset.card_le_card hsub
    have hnN : (UInt32.ofNat n).toNat = n := ofNat_toNat_of_lt (by omega)
    refine ⟨h.lock.trans hI.lock, h.numPages.trans hI.numPages, ?_, ?_, ?_⟩
    · rw [hset, Finset.card_sdiff_of_subset hsub, Nat.card_Ico, hnum, UInt32.toNat_sub_of_le, hI.count, hnN]
      · omega
      · rw [UInt32.le_iff_toNat_le, hnN, hI.count]
        exact hn
    · rcases hheld with hheld | hheld
      · rw [hheld]
        exact hI.nodup
      · rw [hheld]
        refine List.nodup_append.mpr ⟨List.nodup_range', hI.nodup, fun q hq r hr e => ?_⟩
        subst e
        refine hI.used q hr (hrun.free q ?_ ?_)
        all_goals
          have := List.mem_range'_1.mp hq
          omega
    · intro q hq hqF
      obtain ⟨hqF, hout⟩ := (hfree q).mp hqF
      rcases hheld with hheld | hheld
      · exact hI.used q (hheld ▸ hq) hqF
      · rw [hheld] at hq
        rcases List.mem_append.mp hq with hq | hq
        · exact hout (List.mem_range'_1.mp hq)
        · exact hI.used q hq hqF

/-- Giving back the pages of `pagesAt ptr n`. -/
theorem AccountInv.drop {t : Paging} {ptr : UInt32} {n : ℕ} (hI : AccountInv s)
    (hl : t.lock = s.paging.lock) (hn : t.numPages = s.paging.numPages)
    (hcount : t.numFreePages.toNat = (freeSet t).card)
    (hfree : ∀ q, q ∈ freeSet t → q ∈ freeSet s.paging ∨ q ∈ pagesAt ptr n) :
    AccountInv { paging := t, held := dropPages .ok ptr n s.held } := by
  have hheld : dropPages .ok ptr n s.held = s.held.filter (· ∉ pagesAt ptr n) := if_pos rfl
  refine ⟨hl.trans hI.lock, hn.trans hI.numPages, hcount, ?_, fun q hq hqF => ?_⟩
  · rw [hheld]
    exact hI.nodup.filter _
  · rw [hheld] at hq
    obtain ⟨hq, hout⟩ := List.mem_filter.mp hq
    rcases hfree q hqF with h | h
    · exact hI.used q hq h
    · exact absurd h (by simpa using hout)

/-- A failed call leaves the accounts as they are. -/
theorem AccountInv.inval (hI : AccountInv s) (ptr : UInt32) (n : ℕ) :
    AccountInv { paging := s.paging, held := dropPages .inval ptr n s.held } :=
  ⟨hI.lock, hI.numPages, hI.count, hI.nodup, hI.used⟩

theorem pageStep_account (hf : 0 < fuel) (s : PageSys) (op : PageOp) (hI : AccountInv s)
    (hC : InBitmap op) : ∃ s', pageStep fuel s op = .ok s' ∧ AccountInv s' := by
  cases op with
  | allocPage who =>
    obtain ⟨s', hs, ht⟩ := pageStep_allocPage hI.lock hf who
    exact ⟨s', hs, ht.account hI⟩
  | allocPages who count =>
    obtain ⟨s', hs, ht⟩ := pageStep_allocPages hI.lock hf who count
    exact ⟨s', hs, ht.account hI⟩
  | freePage who ptr =>
    have hcases := @freePage_cases s.paging (who.withFuel fuel) hI.lock hf ptr
    rcases hcases with ⟨-, he⟩ | ⟨h0, hused, he⟩
    · exact ⟨_, pageStep_freePage_of he, hI.inval ptr 1⟩
    · have hp := div_pageSize_lt ptr
      have hnot : ¬ pagingIsPageFree (ptr / pageSize) s.paging.pageBitmap = true := by
        rw [pagingIsPageFree_iff, div_pageSize]
        exact hused
      refine ⟨_, pageStep_freePage_of he, hI.drop rfl rfl ?_ fun q hq => ?_⟩
      · have := (@releasePage_spec _ (s.paging.pageBitmap, s.paging.numFreePages) hp).2 hI.count
        rwa [releasePage, if_neg hnot] at this
      · rw [freeSet, clearBits_unlock_ptr] at hq
        rcases Finset.mem_insert.mp hq with rfl | hq
        · exact .inr (by simp [pagesAt])
        · exact .inl hq
  | freePages who ptr count =>
    have hcases := @freePages_cases s.paging (who.withFuel fuel) hI.lock hf ptr count
    rcases hcases with ⟨-, he⟩ | ⟨h0, hc, hsum, he⟩
    · exact ⟨_, pageStep_freePages_of he, hI.inval ptr count.toNat⟩
    · have hpage : ∀ i < count.toNat, (ptr / pageSize + UInt32.ofNat i).toNat = ptr.toNat / 4096 + i := by
        intro i hi
        have hin : ptr.toNat / 4096 + count.toNat ≤ totalPages := hC
        have htot := totalPages_eq
        rw [UInt32.toNat_add, div_pageSize, ofNat_toNat_of_lt (by omega)]
        omega
      refine ⟨_, pageStep_freePages_of he, hI.drop rfl rfl ?_ fun q hq => ?_⟩
      · refine foldl_release_count (fun i hi => ?_) hI.count
        have hi' := List.mem_range.mp hi
        have hin : ptr.toNat / 4096 + count.toNat ≤ totalPages := hC
        rw [hpage i hi']
        omega
      · rcases (mem_freeSet_releaseRange _ _ _ _).mp hq with hq | ⟨-, i, hi, rfl⟩
        · exact .inl hq
        · refine .inr (List.mem_range'_1.mpr ?_)
          rw [hpage i hi]
          omega

theorem bootPages_account (s₀ : Paging) : AccountInv (bootPages s₀) := by
  have hset : freeSet (bootPages s₀).paging = Finset.Ico firstPage totalPages := by
    ext q
    rw [bootPages, mem_freeSet_pagingInit, Finset.mem_Ico]
  refine ⟨rfl, rfl, ?_, List.nodup_nil, fun q hq => absurd hq (by simp [bootPages])⟩
  rw [hset, Nat.card_Ico]
  show (UInt32.ofNat totalPages - reservedPages).toNat = totalPages - firstPage
  decide

/-- The two statistics add up when the counter is that of a set of pages. -/
theorem AccountInv.statistics (hI : AccountInv s) {c : Caller} (hc : 0 < c.fuel) :
    ∃ used free, pagingGetUsedPages c s.paging = .ok (used, s.paging) ∧
      pagingGetFreePages c s.paging = .ok (free, s.paging) ∧ used.toNat + free.toNat = totalPages := by
  have hused : pagingGetUsedPages c s.paging = _ := locked_pure (fun _ _ => rfl) hI.lock hc
  have hfree : pagingGetFreePages c s.paging = _ := locked_pure (fun _ _ => rfl) hI.lock hc
  refine ⟨_, _, hused, hfree, ?_⟩
  have hle := freeSet_card_le s.paging
  have htot : (UInt32.ofNat totalPages).toNat = totalPages := rfl
  rw [hI.numPages, UInt32.toNat_sub_of_le, htot, hI.count]
  · omega
  · rw [UInt32.le_iff_toNat_le, htot, hI.count]
    exact hle

end Account

/-- **Page accounting: in every state of a run from `paging_init` whose `free_pages` calls stay inside
the bitmap, `num_free_pages` is the number of clear bits, the statistics add up to all pages, and no
page that is held is handed out again.** -/
theorem page_accounting {fuel : ℕ} (hf : 0 < fuel) (s₀ : Paging) (ops : List PageOp)
    (hops : ∀ op ∈ ops, InBitmap op) : Along (pageStep fuel) (bootPages s₀) Accounted ops := by
  refine along_of_allSteps (bootPages_account s₀) (fun s hI => ?_) (pageStep_account hf)
    (allSteps_of_forall hops)
  exact ⟨hI.count, fun c hc => hI.statistics hc, hI.nodup⟩

theorem page_accounting_run :
    0 < 1 ∧ Along (pageStep 1) (bootPages (bootPaging 0x110000 zeroMem)) Accounted
      [.allocPages (soloCaller .mainTask) 3, .freePage (soloCaller .mainTask) 0x4001000,
        .freePages (soloCaller .mainTask) 0x4000000 3, .allocPage (soloCaller .mainTask)] := by
  refine ⟨one_pos, page_accounting one_pos _ _ ?_⟩
  simp only [List.forall_mem_cons, List.not_mem_nil, false_imp_iff, implies_true, and_true]
  exact ⟨trivial, trivial, by rw [InBitmap, totalPages_eq]; decide, trivial⟩

end RtosKernel
