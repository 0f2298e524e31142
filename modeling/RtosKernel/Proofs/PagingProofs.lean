import RtosKernel.Paging
import RtosKernel.Proofs.MutexProofs

/-!
# Proofs: the page allocator

The allocator keeps a set of free pages, `freePages s`: the pages whose bit is clear. One lemma for each
call says which pages it takes from or gives to that set, and what becomes of `num_free_pages`:
`takePage` takes the lowest free page, `takePages` the lowest run, `free_page` and `free_pages` give
back the pages they are asked for.
-/

namespace RtosKernel

open Lib

/-- The free pages: the clear bits of `page_bitmap`. -/
def freeSet (s : Paging) : Finset ℕ := clearBits totalPages s.pageBitmap

theorem totalPages_eq : totalPages = 1048576 := rfl

section Bitmap

variable {bm : ℕ → UInt8} {p : UInt32}

theorem byteIdx_lt : p.toNat / 8 < bitmapBytes ↔ p.toNat < totalPages := by
  rw [bitmapBytes, totalPages_eq]
  omega

theorem pagingIsPageFree_iff : pagingIsPageFree p bm = true ↔ p.toNat ∈ clearBits totalPages bm := by
  have hmod : p.toNat % 8 < 8 := Nat.mod_lt _ (by decide)
  rw [pagingIsPageFree, mem_clearBits, ← byteIdx_lt]
  by_cases h : p.toNat / 8 < bitmapBytes
  · simp only [h, if_true, true_and, decide_eq_true_eq, and_mask_eq_zero _ hmod, bit]
  · simp [h]

theorem clearBits_pagingLockPage (p : UInt32) (bm : ℕ → UInt8) :
    clearBits totalPages (pagingLockPage p bm) = (clearBits totalPages bm).erase p.toNat := by
  rw [pagingLockPage]
  by_cases h : p.toNat / 8 < bitmapBytes
  · simp only [h, if_true]
    exact clearBits_setMask
  · simp only [h, if_false]
    refine (Finset.erase_eq_of_notMem fun hm => h ?_).symm
    exact byteIdx_lt.mpr (mem_clearBits.mp hm).1

theorem clearBits_pagingUnlockPage (hp : p.toNat < totalPages) (bm : ℕ → UInt8) :
    clearBits totalPages (pagingUnlockPage p bm) = insert p.toNat (clearBits totalPages bm) := by
  simp only [pagingUnlockPage, byteIdx_lt.mpr hp, if_true]
  exact clearBits_clearMask hp

theorem pagingUnlockPage_of_le (hp : totalPages ≤ p.toNat) (bm : ℕ → UInt8) : pagingUnlockPage p bm = bm := by
  have h : ¬ p.toNat / 8 < bitmapBytes := fun h => absurd (byteIdx_lt.mp h) (by omega)
  simp only [pagingUnlockPage, h, if_false]

/-- Reserving a list of pages. -/
theorem mem_clearBits_foldl_lock (g : ℕ → UInt32) (l : List ℕ) (bm : ℕ → UInt8) (q : ℕ) :
    q ∈ clearBits totalPages (l.foldl (fun bm j => pagingLockPage (g j) bm) bm) ↔
      q ∈ clearBits totalPages bm ∧ ∀ j ∈ l, (g j).toNat ≠ q := by
  induction l generalizing bm with
  | nil => simp
  | cons j l ih =>
    rw [List.foldl_cons, ih, clearBits_pagingLockPage, Finset.mem_erase]
    simp only [List.mem_cons, forall_eq_or_imp]
    constructor
    · rintro ⟨⟨h1, h2⟩, h3⟩
      exact ⟨h2, Ne.symm h1, h3⟩
    · rintro ⟨h2, h1, h3⟩
      exact ⟨⟨Ne.symm h1, h2⟩, h3⟩

theorem ofNat_toNat_of_lt {i : ℕ} (hi : i < 2 ^ 32) : (UInt32.ofNat i).toNat = i := by
  simpa using Nat.mod_eq_of_lt hi

/-- Page numbers are words. -/
theorem pageNum_toNat {i : ℕ} (hi : i < totalPages) : (UInt32.ofNat i).toNat = i := by
  rw [totalPages_eq] at hi
  exact ofNat_toNat_of_lt (by omega)

/-- The number of the first page above the identity-mapped region. -/
def firstPage : ℕ := 16384

theorem reservedPages_toNat : reservedPages.toNat = firstPage := by decide

/-- After `paging_init` the free pages are those from 64 MB on. -/
theorem mem_freeSet_pagingInit {s : Paging} {q : ℕ} :
    q ∈ freeSet (pagingInit s) ↔ firstPage ≤ q ∧ q < totalPages := by
  have hbit : bit (fun _ => 0) q = false := by simp [bit]
  rw [freeSet, pagingInit, reservedBitmap, mem_clearBits_foldl_lock, mem_clearBits, reservedPages_toNat]
  constructor
  · rintro ⟨⟨hq, -⟩, hres⟩
    refine ⟨?_, hq⟩
    by_contra hlt
    exact hres q (List.mem_range.mpr (by omega)) (pageNum_toNat hq)
  · rintro ⟨hlo, hhi⟩
    refine ⟨⟨hhi, hbit⟩, fun j hj => ?_⟩
    have hj' := List.mem_range.mp hj
    rw [pageNum_toNat (by omega)]
    omega

end Bitmap

/-! ## The bodies of the calls -/

section Bodies

variable {s : Paging}

theorem hit_iff {i : ℕ} (hi : i < totalPages) :
    pagingIsPageFree (UInt32.ofNat i) s.pageBitmap = true ↔ i ∈ freeSet s := by
  rw [pagingIsPageFree_iff, pageNum_toNat hi, freeSet]

/-- The body of `alloc_page`: the lowest free page, if there is one. -/
theorem takePage_cases (s : Paging) :
    (freeSet s = ∅ ∧ takePage s = (0, s)) ∨
    ∃ m ∈ freeSet s, (∀ q ∈ freeSet s, m ≤ q) ∧
      takePage s = (UInt32.ofNat m * pageSize, { s with
        pageBitmap := pagingLockPage (UInt32.ofNat m) s.pageBitmap
        numFreePages := s.numFreePages - 1 }) := by
  cases hfind : firstFree s.pageBitmap with
  | none =>
    refine .inl ⟨Finset.eq_empty_of_forall_notMem fun q hq => ?_, by rw [takePage, hfind, takeFree]⟩
    have hlt := (mem_clearBits.mp hq).1
    exact List.find?_eq_none.mp hfind q (List.mem_range.mpr hlt) ((hit_iff hlt).mpr hq)
  | some m =>
    obtain ⟨hm, -, hlow⟩ := List.find?_range_eq_some.mp hfind
    have hlt := List.mem_range.mp (List.mem_of_find?_eq_some hfind)
    refine .inr ⟨m, (hit_iff hlt).mp hm, fun q hq => ?_, by rw [takePage, hfind, takeFree]⟩
    by_contra hqm
    have hq' := (hit_iff (mem_clearBits.mp hq).1).mpr hq
    exact absurd hq' (by simpa using hlow q (by omega))

/-- `n` consecutive free pages from page `a` on. A run has at least one page. -/
structure FreeRun (s : Paging) (a n : ℕ) : Prop where
  pos : 0 < n
  free : ∀ q, a ≤ q → q < a + n → q ∈ freeSet s

theorem isRun_iff {a n : ℕ} (hn : 0 < n) :
    IsRun (fun i => pagingIsPageFree (UInt32.ofNat i) s.pageBitmap) totalPages n a ↔ FreeRun s a n := by
  constructor
  · intro h
    refine ⟨hn, fun q h1 h2 => ?_⟩
    have hb := h.bound
    exact (hit_iff (by omega)).mp (h.hits q h1 h2)
  · intro h
    have hlast := (mem_clearBits.mp (h.free (a + n - 1) (by omega) (by omega))).1
    refine ⟨by omega, fun q h1 h2 => ?_⟩
    exact (hit_iff (by omega)).mpr (h.free q h1 h2)

/-- The body of `alloc_pages`: the lowest run of `count` free pages, if there is one. -/
theorem takePages_cases (s : Paging) {count : UInt32} (hc : count ≠ 0) :
    ((∀ a, ¬ FreeRun s a count.toNat) ∧ takePages count s = (0, s)) ∨
    ∃ a, FreeRun s a count.toNat ∧ (∀ b, FreeRun s b count.toNat → a ≤ b) ∧
      takePages count s = (UInt32.ofNat a * pageSize, { s with
        pageBitmap := (List.range count.toNat).foldl
          (fun bm j => pagingLockPage (UInt32.ofNat a + UInt32.ofNat j) bm) s.pageBitmap
        numFreePages := s.numFreePages - count }) := by
  have hpos : 0 < count.toNat := by
    rw [Nat.pos_iff_ne_zero]
    exact fun e => hc (UInt32.toNat_inj.mp e)
  obtain ⟨h1, h2⟩ := @scanRun_spec (fun i => pagingIsPageFree (UInt32.ofNat i) s.pageBitmap) count.toNat
    totalPages hpos
  cases hrun : firstRun count s.pageBitmap with
  | none =>
    refine .inl ⟨fun a ha => h2 hrun a ((isRun_iff hpos).mpr ha), ?_⟩
    rw [takePages, hrun, takeRun]
  | some a =>
    obtain ⟨h3, h4⟩ := h1 a hrun
    refine .inr ⟨a, (isRun_iff hpos).mp h3, fun b hb => h4 b ((isRun_iff hpos).mpr hb), ?_⟩
    rw [takePages, hrun, takeRun]

/-- A free page is a run of its own. -/
theorem FreeRun.single {m : ℕ} (hm : m ∈ freeSet s) : FreeRun s m 1 := by
  refine ⟨one_pos, fun q h1 h2 => ?_⟩
  obtain rfl : q = m := by omega
  exact hm

theorem FreeRun.first_mem {a n : ℕ} (h : FreeRun s a n) : a ∈ freeSet s := by
  have hpos := h.pos
  exact h.free a le_rfl (by omega)

theorem FreeRun.bound {a n : ℕ} (h : FreeRun s a n) : a + n ≤ totalPages := by
  have hlast := (mem_clearBits.mp (h.free (a + n - 1) (by have := h.pos; omega) (by have := h.pos; omega))).1
  omega

/-- Taking a run removes exactly its pages from the free ones. -/
theorem mem_clearBits_take {a n : ℕ} (h : a + n ≤ totalPages) (bm : ℕ → UInt8) (q : ℕ) :
    q ∈ clearBits totalPages ((List.range n).foldl
        (fun bm j => pagingLockPage (UInt32.ofNat a + UInt32.ofNat j) bm) bm) ↔
      q ∈ clearBits totalPages bm ∧ ¬ (a ≤ q ∧ q < a + n) := by
  have hnum : ∀ j < n, (UInt32.ofNat a + UInt32.ofNat j).toNat = a + j := by
    intro j hj
    rw [← UInt32.ofNat_add]
    exact pageNum_toNat (by omega)
  rw [mem_clearBits_foldl_lock]
  refine and_congr_right fun _ => ⟨fun hne hq => ?_, fun hq j hj => ?_⟩
  · exact hne (q - a) (List.mem_range.mpr (by omega)) (by rw [hnum _ (by omega)]; omega)
  · have hj' := List.mem_range.mp hj
    rw [hnum j hj']
    omega

/-- One pass of the loop of `free_pages`, on a page of the bitmap. -/
theorem releasePage_spec {p : UInt32} {x : (ℕ → UInt8) × UInt32} (hp : p.toNat < totalPages) :
    clearBits totalPages (releasePage p x).1 = insert p.toNat (clearBits totalPages x.1) ∧
      (x.2.toNat = (clearBits totalPages x.1).card →
        (releasePage p x).2.toNat = (clearBits totalPages (releasePage p x).1).card) := by
  rw [releasePage]
  by_cases hfree : pagingIsPageFree p x.1 = true
  · simp only [hfree, if_true]
    have hm := pagingIsPageFree_iff.mp hfree
    exact ⟨(Finset.insert_eq_of_mem hm).symm, id⟩
  · simp only [hfree, if_false, Bool.false_eq_true]
    have hm : p.toNat ∉ clearBits totalPages x.1 := fun h => hfree (pagingIsPageFree_iff.mpr h)
    rw [clearBits_pagingUnlockPage hp]
    refine ⟨rfl, fun hcard => ?_⟩
    have hle := card_clearBits_le totalPages x.1
    have htot := totalPages_eq
    rw [Finset.card_insert_of_notMem hm, ← hcard, UInt32.toNat_add]
    have : (1 : UInt32).toNat = 1 := rfl
    omega

end Bodies

/-! ## The calls, with the lock free -/

section Calls

variable {s : Paging} {c : Caller}

/-- The body neither reads nor changes the lock. -/
def IgnoresLock {α : Type} (f : Paging → α × Paging) : Prop :=
  ∀ s m, f { s with lock := m } = ((f s).1, { (f s).2 with lock := m })

theorem IgnoresLock.keeps {α : Type} {f : Paging → α × Paging} (h : IgnoresLock f) (s : Paging) :
    (f s).2.lock = s.lock := by
  rw [show f s = f { s with lock := s.lock } from rfl, h]

theorem takePage_ignoresLock : IgnoresLock takePage := by
  intro s m
  show takeFree { s with lock := m } (firstFree s.pageBitmap) = _
  rw [takePage]
  cases firstFree s.pageBitmap <;> rfl

theorem takePages_ignoresLock (count : UInt32) : IgnoresLock (takePages count) := by
  intro s m
  show takeRun count { s with lock := m } (firstRun count s.pageBitmap) = _
  rw [takePages]
  cases firstRun count s.pageBitmap <;> rfl

theorem releaseOne_ignoresLock (pageNum : UInt32) : IgnoresLock (releaseOne pageNum) := by
  intro s m
  simp only [releaseOne]
  split <;> rfl

theorem releaseRange_ignoresLock (pageNum count : UInt32) : IgnoresLock (releaseRange pageNum count) :=
  fun _ _ => rfl

theorem clearEntry_ignoresLock (virt : UInt32) : IgnoresLock (clearEntry virt) := by
  intro s m
  simp only [clearEntry]
  split <;> rfl

/-- Putting the lock back leaves the state as it was. -/
theorem Paging.with_lock (hl : s.lock = mutexInit) : { s with lock := mutexInit } = s := by
  cases s
  simp_all

/-- With the lock free, a locked call of such a body is the body. -/
theorem locked_pure {α : Type} {f : Paging → α × Paging} (h : IgnoresLock f) (hl : s.lock = mutexInit)
    (hf : 0 < c.fuel) : locked c (fun s => pure (f s)) s = .ok (f s) := by
  have h2 : { (f s).2 with lock := mutexInit } = (f s).2 := Paging.with_lock ((h.keeps s).trans hl)
  rw [locked, hl, mutexLock_init c rfl hf, ok_bind, pure_eq_ok, ok_bind, h]
  simp only [mutexUnlock_heldBy, h2, pure_eq_ok]

theorem allocPage_eq (hl : s.lock = mutexInit) (hf : 0 < c.fuel) : allocPage c s = .ok (takePage s) :=
  locked_pure takePage_ignoresLock hl hf

theorem allocPages_eq {count : UInt32} (hl : s.lock = mutexInit) (hf : 0 < c.fuel) (hc : count ≠ 0) :
    allocPages c count s = .ok (takePages count s) := by
  rw [allocPages, if_neg hc]
  exact locked_pure (takePages_ignoresLock count) hl hf

theorem allocPages_zero : allocPages c 0 s = .ok (0, s) := rfl

/-- The page number of a pointer is always a page number. -/
theorem div_pageSize (ptr : UInt32) : (ptr / pageSize).toNat = ptr.toNat / 4096 := by
  rw [UInt32.toNat_div]
  rfl

theorem div_pageSize_lt (ptr : UInt32) : (ptr / pageSize).toNat < totalPages := by
  have := ptr.toNat_lt
  rw [div_pageSize, totalPages_eq]
  omega

/-- `free_page`: a pointer into a page that is in use frees that page, any other pointer nothing. -/
theorem freePage_cases (hl : s.lock = mutexInit) (hf : 0 < c.fuel) (ptr : UInt32) :
    ((ptr = 0 ∨ ptr.toNat / 4096 ∈ freeSet s) ∧ freePage c ptr s = .ok (.inval, s)) ∨
    (ptr ≠ 0 ∧ ptr.toNat / 4096 ∉ freeSet s ∧ freePage c ptr s = .ok (.ok, { s with
      pageBitmap := pagingUnlockPage (ptr / pageSize) s.pageBitmap
      numFreePages := s.numFreePages + 1 })) := by
  have hin : ¬ UInt32.ofNat totalPages ≤ ptr / pageSize := by
    rw [UInt32.le_iff_toNat_le, not_le]
    exact div_pageSize_lt ptr
  by_cases h0 : ptr = 0
  · exact .inl ⟨.inl h0, by simp [freePage, h0]⟩
  · have hcall : freePage c ptr s = .ok (releaseOne (ptr / pageSize) s) := by
      rw [freePage, if_neg h0, if_neg hin]
      exact locked_pure (releaseOne_ignoresLock _) hl hf
    by_cases hfree : pagingIsPageFree (ptr / pageSize) s.pageBitmap = true
    · refine .inl ⟨.inr ?_, by rw [hcall, releaseOne, if_pos hfree]⟩
      rw [← div_pageSize]
      exact pagingIsPageFree_iff.mp hfree
    · refine .inr ⟨h0, ?_, by rw [hcall, releaseOne, if_neg hfree]⟩
      rw [← div_pageSize]
      exact fun hm => hfree (pagingIsPageFree_iff.mpr hm)

/-- `free_pages`: a call that passes the checks releases the pages one by one. -/
theorem freePages_cases (hl : s.lock = mutexInit) (hf : 0 < c.fuel) (ptr count : UInt32) :
    ((ptr = 0 ∨ count = 0 ∨ ptr / pageSize + count > UInt32.ofNat totalPages) ∧
      freePages c ptr count s = .ok (.inval, s)) ∨
    (ptr ≠ 0 ∧ count ≠ 0 ∧ ¬ ptr / pageSize + count > UInt32.ofNat totalPages ∧
      freePages c ptr count s = .ok (releaseRange (ptr / pageSize) count s)) := by
  by_cases h0 : ptr = 0 ∨ count = 0
  · refine .inl ⟨h0.imp_right .inl, ?_⟩
    rw [freePages, if_pos h0, pure_eq_ok]
  · obtain ⟨hp, hc⟩ := not_or.mp h0
    by_cases hsum : ptr / pageSize + count > UInt32.ofNat totalPages
    · refine .inl ⟨.inr (.inr hsum), ?_⟩
      rw [freePages, if_neg h0, if_pos hsum, pure_eq_ok]
    · refine .inr ⟨hp, hc, hsum, ?_⟩
      rw [freePages, if_neg h0, if_neg hsum]
      exact locked_pure (releaseRange_ignoresLock _ _) hl hf

end Calls

end RtosKernel
