import RtosKernel.Proofs.HeapRunProofs

/-!
# Proofs: what `kmalloc` grants, and `kfree` called twice

`kmalloc` takes the first block that fits and wastes less than a header and 16 bytes of it. The rounding
is done in 32 bits, so the three largest sizes are rounded to 0, and any free block is then large enough.

A second `kfree` of the same pointer stores into a header that the first one may have merged into the
block before it. The merging stores only into the size and the link of the headers, so the flag that is
stored again is still set, and there is nothing left to merge.
-/

namespace RtosKernel

open Lib Lib.Mem Lib.BlockList

/-! ## The rounding -/

/-- The size rounded up to a multiple of 4, over the integers. -/
def roundUp (n : UInt32) : ℕ := (n.toNat + 3) / 4 * 4

theorem roundSize_toNat {n : UInt32} (hn : n.toNat ≤ 2 ^ 32 - 4) : (roundSize n).toNat = roundUp n := by
  have h4 : (n % 4).toNat = n.toNat % 4 := by simp
  unfold roundSize roundUp
  split_ifs with h
  · have hne : n.toNat % 4 ≠ 0 := fun he => h (UInt32.toNat_inj.mp (by rw [h4, he]; rfl))
    have hle : n % 4 ≤ 4 := by
      rw [UInt32.le_iff_toNat_le, h4]
      show n.toNat % 4 ≤ 4
      omega
    have h44 : (4 : UInt32).toNat = 4 := rfl
    rw [UInt32.toNat_add, UInt32.toNat_sub_of_le _ _ hle, h4, h44]
    omega
  · have he : n % 4 = 0 := by simpa using h
    have hz : n.toNat % 4 = 0 := by rw [← h4, he]; rfl
    omega

/-- The three largest sizes are rounded to 0. -/
theorem roundSize_wraps {n : UInt32} (hn : 2 ^ 32 - 4 < n.toNat) : (roundSize n).toNat = 0 := by
  have h4 : (n % 4).toNat = n.toNat % 4 := by simp
  have hlt := n.toNat_lt
  have hne : n % 4 ≠ 0 := by
    intro he
    have hz : n.toNat % 4 = 0 := by rw [← h4, he]; rfl
    omega
  have hle : n % 4 ≤ 4 := by
    rw [UInt32.le_iff_toNat_le, h4]
    show n.toNat % 4 ≤ 4
    omega
  have h44 : (4 : UInt32).toNat = 4 := rfl
  rw [roundSize, if_pos hne, UInt32.toNat_add, UInt32.toNat_sub_of_le _ _ hle, h4, h44]
  omega

/-! ## The granted size -/

section Fit

variable {bs cs : List Block} {n : ℕ}

theorem firstFit_none : firstFit 12 16 n bs = none ↔ ∀ b ∈ bs, ¬ (b.free = true ∧ n ≤ b.size) := by
  induction bs with
  | nil => simp [firstFit]
  | cons b bs ih =>
    by_cases hfit : b.free = true ∧ n ≤ b.size
    · simp [firstFit, hfit]
    · rw [firstFit, if_neg hfit, Option.map_eq_none_iff, ih, List.forall_mem_cons]
      exact (and_iff_right hfit).symm

/-- A block is given whole if what is left over has no room for a header and 16 bytes. -/
theorem carve_granted {b : Block} (hn : n ≤ b.size) :
    ∃ g rest, carve 12 16 n b = ⟨b.addr, g, false⟩ :: rest ∧ (∀ x ∈ rest, x.free = true) ∧ n ≤ g ∧
      g < n + 28 := by
  unfold carve
  split_ifs with hs
  · exact ⟨n, _, rfl, by simp, le_rfl, by omega⟩
  · exact ⟨b.size, [], rfl, by simp, hn, by omega⟩

/-- `kmalloc` has taken the lowest block that fits, and left the other blocks as they were. -/
structure TakesFirstFit (h h' : Heap) (p : UInt32) (r : ℕ) (bs : List Block) (b : Block) : Prop where
  fits : b ∈ bs ∧ b.free = true ∧ r ≤ b.size
  lowest : ∀ x ∈ bs, x.free = true ∧ r ≤ x.size → b.addr ≤ x.addr
  payload : p.toNat = b.addr + 12
  /-- The block is granted with `g` bytes of payload; what is left over is free. -/
  granted : ∃ pre post g rest, bs = pre ++ b :: post ∧
    BlocksFrom h'.mem heapStart (pre ++ (⟨b.addr, g, false⟩ :: rest ++ post)) ∧
    (∀ x ∈ rest, x.free = true) ∧ r ≤ g ∧ g < r + 28
  /-- Not a byte of another block is stored to, in its header or in its payload. -/
  others : ∀ x ∈ bs, x ≠ b → Agree h.mem h'.mem x.addr (x.addr + 12 + x.size)

/-- What `kmalloc` does for a size that is not rounded to 0. -/
theorem HeapInv.kmalloc_cases {s : HeapSys} {c : Caller} (hI : HeapInv s bs) (hf : heapFuel ≤ c.fuel)
    {size : UInt32} (h0 : size ≠ 0) :
    ((∀ b ∈ bs, ¬ (b.free = true ∧ (roundSize size).toNat ≤ b.size)) ∧
      kmalloc c size s.heap = .ok (0, s.heap)) ∨
    ∃ b p h', kmalloc c size s.heap = .ok (p, h') ∧
      TakesFirstFit s.heap h' p (roundSize size).toNat bs b := by
  rcases kmalloc_firstFit hI.blocks hI.canonical hI.mutex hf h0 with
    ⟨hnone, hk⟩ | ⟨b, hbs, p, h', cs, hfit, hbf, hk, hp, hblk, hmx, hw⟩
  · exact Or.inl ⟨firstFit_none.mp hnone, hk⟩
  · refine Or.inr ⟨b, p, h', hk, ?_⟩
    obtain ⟨pre, b', post, hsplit, hb'f, hb'n, haddr, hpre, rfl⟩ := firstFit_some hfit
    have hb'm : b' ∈ bs := by rw [hsplit]; simp
    obtain rfl : b = b' := hI.canonical.tiles.eq_of_addr (by norm_num) hbs hb'm haddr
    obtain ⟨g, rest, hcarve, hrest, hg, hg'⟩ := carve_granted hb'n
    refine ⟨⟨hbs, hbf, hb'n⟩, fun x hx hfits => ?_, hp, ⟨pre, post, g, rest, hsplit, ?_, hrest, hg, hg'⟩, ?_⟩
    · -- a block that fits is not before the chosen one
      rw [hsplit, List.mem_append, List.mem_cons] at hx
      rcases hx with hx | rfl | hx
      · exact absurd hfits (hpre x hx)
      · exact le_rfl
      · have ht := hI.canonical.tiles
        rw [hsplit] at ht
        obtain ⟨mid, -, ht⟩ := tiles_append.mp ht
        have hafter := (ht.2.bounds hx).1
        omega
    · rw [← hcarve]
      exact hblk
    · intro x hx hne
      refine hw.agree fun y h1 h2 h3 => ?_
      have hdis := hI.canonical.tiles.disjoint hx hbs hne
      unfold InBlock at h3
      omega

end Fit

section Runs

variable {s : HeapSys} {bs : List Block} {c : Caller} {fuel : ℕ}

/-- The block that holds the payload at `p` has at least `n` bytes, all of them inside the arena. -/
def HoldsAtLeast (h : Heap) (p n : UInt32) : Prop :=
  ∃ bs b, BlocksFrom h.mem heapStart bs ∧ b ∈ bs ∧ p.toNat = b.addr + 12 ∧ n.toNat ≤ b.size ∧
    arenaLo ≤ p.toNat ∧ p.toNat + b.size ≤ arenaHi

/-- `kmalloc(n)` returns null or enough. -/
def GrantsEnough (c : Caller) (n : UInt32) (h : Heap) : Prop :=
  ∃ p h', kmalloc c n h = .ok (p, h') ∧ (p ≠ 0 → HoldsAtLeast h' p n)

/-- A granted block lies inside the arena, whatever its size. -/
theorem HeapInv.granted_inside (hI : HeapInv s bs) (hf : heapFuel ≤ c.fuel) {size p : UInt32} {h' : Heap}
    (hk : kmalloc c size s.heap = .ok (p, h')) {cs : List Block} (hcs : BlocksFrom h'.mem heapStart cs)
    {b : Block} (hb : b ∈ cs) : arenaLo ≤ b.addr + 12 ∧ b.addr + 12 + b.size ≤ arenaHi := by
  obtain ⟨q, h'', cs', hk', hblk, hcan, -⟩ := kmalloc_spec hI.blocks hI.canonical hI.mutex hf size
  obtain ⟨rfl, rfl⟩ := Prod.mk.inj (Except.ok.inj (hk.symm.trans hk'))
  have hbd := hcan.tiles.bounds (hcs.unique hblk ▸ hb)
  omega

theorem HeapInv.grantsEnough_iff (hI : HeapInv s bs) (hf : heapFuel ≤ c.fuel) {n : UInt32} (h0 : n ≠ 0) :
    GrantsEnough c n s.heap ↔ n.toNat ≤ 2 ^ 32 - 4 ∨ ∀ b ∈ bs, b.free = false := by
  have hcases := hI.kmalloc_cases hf h0
  constructor
  · rintro ⟨p, h', hk, hgrant⟩
    by_contra hcond
    push Not at hcond
    obtain ⟨hn, x, hx, hxf⟩ := hcond
    rw [roundSize_wraps hn] at hcases
    rcases hcases with ⟨hnone, -⟩ | ⟨b, q, h'', hk', htake⟩
    · exact hnone x hx ⟨by simpa using hxf, Nat.zero_le _⟩
    · -- the block that is handed out lies inside the arena, so it is far smaller than `n`
      obtain ⟨rfl, rfl⟩ := Prod.mk.inj (Except.ok.inj (hk.symm.trans hk'))
      have hp0 : p ≠ 0 := fun e => by have := htake.payload; rw [e] at this; simp at this
      obtain ⟨cs, d, hcs, hd, -, hsize, -⟩ := hgrant hp0
      have hin := (hI.granted_inside hf hk hcs hd).2
      rw [arenaHi_eq] at hin
      omega
  · intro hcond
    rcases hcases with ⟨-, hk⟩ | ⟨b, p, h', hk, htake⟩
    · exact ⟨0, s.heap, hk, fun h => absurd rfl h⟩
    · refine ⟨p, h', hk, fun _ => ?_⟩
      rcases hcond with hn | hnone
      · obtain ⟨pre, post, g, rest, -, hblk, -, hg, -⟩ := htake.granted
        rw [roundSize_toNat hn, roundUp] at hg
        have hmem : (⟨b.addr, g, false⟩ : Block) ∈ pre ++ (⟨b.addr, g, false⟩ :: rest ++ post) := by simp
        have hin : arenaLo ≤ b.addr + 12 ∧ b.addr + 12 + g ≤ arenaHi := hI.granted_inside hf hk hblk hmem
        have hsize : n.toNat ≤ g := by omega
        rw [← htake.payload] at hin
        exact ⟨_, _, hblk, hmem, htake.payload, hsize, hin⟩
      · have hfree := htake.fits
        rw [hnone b hfree.1] at hfree
        exact absurd hfree.2.1 (by simp)

/-- **In every reachable state of the heap `kmalloc(n)` grants at least `n` bytes, exactly when `n` is not
one of the three largest sizes or no block is free.** -/
theorem kmalloc_grants_enough_iff (hf : heapFuel ≤ fuel) (m : Mem) (ops : List HeapOp) :
    ∃ s bs, run (heapStep fuel) (bootHeap m) ops = .ok s ∧ BlocksFrom s.heap.mem heapStart bs ∧
      ∀ (who : Caller) (n : UInt32), n ≠ 0 →
        (GrantsEnough (who.withFuel fuel) n s.heap ↔ n.toNat ≤ 2 ^ 32 - 4 ∨ ∀ b ∈ bs, b.free = false) := by
  obtain ⟨s, hr, bs, hI⟩ := heapRun_inv hf m ops
  exact ⟨s, bs, hr, hI.blocks, fun who n h0 => hI.grantsEnough_iff hf h0⟩

theorem kmalloc_grants_enough_after_call :
    ∃ s bs, run (heapStep heapFuel) (bootHeap zeroMem) [.kmalloc (soloCaller .mainTask) 100] = .ok s ∧
      BlocksFrom s.heap.mem heapStart bs ∧ (5 : UInt32) ≠ 0 ∧
        GrantsEnough ((soloCaller .mainTask).withFuel heapFuel) 5 s.heap := by
  obtain ⟨s, bs, hr, hb, hiff⟩ :=
    kmalloc_grants_enough_iff le_rfl zeroMem [.kmalloc (soloCaller .mainTask) 100]
  exact ⟨s, bs, hr, hb, by decide, (hiff _ 5 (by decide)).mpr (Or.inl (by decide))⟩

/-- Right after `init_heap`, `kmalloc(0xFFFFFFFD)` hands out a block, and it is far too small. -/
theorem kmalloc_huge_size_granted :
    ¬ GrantsEnough ((soloCaller .mainTask).withFuel heapFuel) 0xFFFFFFFD (bootHeap zeroMem).heap := by
  rw [(bootHeap_inv zeroMem).grantsEnough_iff (c := (soloCaller .mainTask).withFuel heapFuel) le_rfl
    (by decide)]
  rintro (hn | hfree)
  · exact absurd hn (by decide)
  · exact absurd (hfree _ (List.mem_singleton.mpr rfl)) (by decide)

/-- **`kmalloc` is first fit with bounded waste.** In every reachable state it returns null exactly when no
free block is large enough for the rounded size, and then the heap is unchanged; otherwise it takes the
lowest such block, with less than 28 bytes more than the rounded size. -/
theorem kmalloc_is_first_fit (hf : heapFuel ≤ fuel) (m : Mem) (ops : List HeapOp) :
    ∃ s bs, run (heapStep fuel) (bootHeap m) ops = .ok s ∧ BlocksFrom s.heap.mem heapStart bs ∧
      ∀ (who : Caller) (n : UInt32), 1 ≤ n.toNat → n.toNat ≤ 2 ^ 32 - 4 →
        ∃ p h', kmalloc (who.withFuel fuel) n s.heap = .ok (p, h') ∧
          (p = 0 ↔ ∀ b ∈ bs, ¬ (b.free = true ∧ roundUp n ≤ b.size)) ∧ (p = 0 → h' = s.heap) ∧
          (p ≠ 0 → ∃ b, TakesFirstFit s.heap h' p (roundUp n) bs b) := by
  obtain ⟨s, hr, bs, hI⟩ := heapRun_inv hf m ops
  refine ⟨s, bs, hr, hI.blocks, fun who n h1 hn => ?_⟩
  have h0 : n ≠ 0 := fun e => by rw [e] at h1; exact absurd h1 (by decide)
  have hcases := hI.kmalloc_cases (c := who.withFuel fuel) hf h0
  rw [roundSize_toNat hn] at hcases
  rcases hcases with ⟨hnone, hk⟩ | ⟨b, p, h', hk, htake⟩
  · exact ⟨0, s.heap, hk, iff_of_true rfl hnone, fun _ => rfl, fun h => absurd rfl h⟩
  · have hp0 : p ≠ 0 := fun e => by have := htake.payload; rw [e] at this; simp at this
    refine ⟨p, h', hk, ⟨fun e => absurd e hp0, fun hnone => ?_⟩, fun e => absurd e hp0, fun _ => ⟨b, htake⟩⟩
    exact absurd htake.fits.2 (hnone b htake.fits.1)

theorem kmalloc_is_first_fit_after_free :
    ∃ s bs, run (heapStep heapFuel) (bootHeap zeroMem)
        [.kmalloc (soloCaller .mainTask) 100, .kfree (soloCaller .mainTask) 0x0100000C] = .ok s ∧
      BlocksFrom s.heap.mem heapStart bs ∧ ∃ p h',
        kmalloc ((soloCaller .mainTask).withFuel heapFuel) 7 s.heap = .ok (p, h') ∧
          (p ≠ 0 → ∃ b, TakesFirstFit s.heap h' p 8 bs b) := by
  obtain ⟨s, bs, hr, hb, hfit⟩ := kmalloc_is_first_fit le_rfl zeroMem
    [.kmalloc (soloCaller .mainTask) 100, .kfree (soloCaller .mainTask) 0x0100000C]
  obtain ⟨p, h', hk, -, -, htake⟩ := hfit (soloCaller .mainTask) 7 (by decide) (by decide)
  exact ⟨s, bs, hr, hb, p, h', hk, htake⟩

/-! ## A second `kfree` -/

/-- The flag that `kfree` stored is still there when it returns, in a live header or in a dead one. -/
theorem kfree_flag {h h' : Heap} {cs : List Block} {p : UInt32} {b : Block} (ht : Tiles 12 arenaLo arenaHi cs)
    (hb : b ∈ cs) (hp : (p - sizeofHeader).toNat = b.addr)
    (hw : WritesIn (InFreeLinks cs) (setIsFree h.mem (p - sizeofHeader) 1) h'.mem) :
    h'.mem.load32 (p - sizeofHeader + 4) = 1 := by
  have hbd := (ht.bounds hb).2
  rw [arenaHi_eq] at hbd
  have hfit : HeaderFits (p - sizeofHeader) := by
    unfold HeaderFits
    omega
  have h4 := (field_toNat hfit).1
  have hag : Agree (setIsFree h.mem (p - sizeofHeader) 1) h'.mem (b.addr + 4) (b.addr + 8) := by
    refine hw.agree fun x h1 h2 h3 => ?_
    obtain ⟨d, hd, -, hx⟩ := h3
    unfold AtLinks at hx
    by_cases hdb : d = b
    · subst hdb
      omega
    · have hdis := ht.disjoint hd hb hdb
      omega
  rw [hag.load32 (by omega) (by omega) (by omega)]
  exact load32_store32 _ _ _

/-- The second `kfree` finds the flag set and nothing to merge. -/
theorem kfree_again {h : Heap} {cs : List Block} {p : UInt32} (hb : BlocksFrom h.mem heapStart cs)
    (hc : Canonical 12 4 arenaLo arenaHi cs) (hm : h.mutex = mutexInit) (hf : heapFuel ≤ c.fuel) (hp0 : p ≠ 0)
    (hflag : h.mem.load32 (p - sizeofHeader + 4) = 1) :
    ∃ h', kfree c p h = .ok h' ∧ h'.mem.byte = h.mem.byte := by
  have hbyte : (setIsFree h.mem (p - sizeofHeader) 1).byte = h.mem.byte := by
    rw [setIsFree, ← hflag]
    exact byte_store32_load32 _ _
  have hblk : BlocksFrom (setIsFree h.mem (p - sizeofHeader) 1) heapStart cs := by
    refine hb.congr hc.tiles (by rw [arenaHi_eq]; norm_num) fun b _ x _ _ => ?_
    rw [hbyte]
  have hlock := heap_lock hm hf
  have hdone := mergeLoop_done hblk hc.noFreePair (length_lt_fuel hc hf)
  exact ⟨{ mem := setIsFree h.mem (p - sizeofHeader) 1, mutex := mutexInit },
    by simp [kfree, hp0, hlock, hdone], hbyte⟩

/-- **An immediate second `kfree` of the same pointer changes nothing.** In every reachable state of the heap
and for every allocation that a client holds, the memory is after the second call what it was after the
first. -/
theorem double_free_harmless (hf : heapFuel ≤ fuel) (m : Mem) (ops : List HeapOp) :
    ∃ s, run (heapStep fuel) (bootHeap m) ops = .ok s ∧ ∀ (who who' : Caller), ∀ a ∈ s.live,
      ∃ h' h'', kfree (who.withFuel fuel) a.1 s.heap = .ok h' ∧
        kfree (who'.withFuel fuel) a.1 h' = .ok h'' ∧ h''.mem.byte = h'.mem.byte := by
  obtain ⟨s, hr, bs, hI⟩ := heapRun_inv hf m ops
  refine ⟨s, hr, fun who who' a ha => ?_⟩
  obtain ⟨b, hb, -, hptr, -⟩ := hI.held a ha
  have hp0 : a.1 ≠ 0 := fun e => by rw [e] at hptr; simp at hptr
  have hsub := payload_sub_toNat hptr
  have ht := tiles_release b.addr hI.canonical.tiles
  have hrel := release_spec hI.blocks hI.canonical.tiles (by rw [arenaHi_eq]; norm_num)
    (p := a.1 - sizeofHeader) ⟨b, hb, hsub.symm⟩
  rw [hsub] at hrel
  have hlen : (release b.addr bs).length < (who.withFuel fuel).fuel := by
    rw [release, List.length_map]
    exact length_lt_fuel hI.canonical hf
  obtain ⟨h', hk, hblk, hmx, hw⟩ := kfree_marked (c := who.withFuel fuel) hp0 hrel ht hI.mutex hf hlen
  have hmem : (⟨b.addr, b.size, true⟩ : Block) ∈ release b.addr bs :=
    List.mem_map.mpr ⟨b, hb, if_pos rfl⟩
  have hflag := kfree_flag ht hmem hsub hw
  obtain ⟨h'', hk', hbyte⟩ := kfree_again (c := who'.withFuel fuel) hblk
    (hI.canonical.free (by norm_num) b.addr) hmx hf hp0 hflag
  exact ⟨h', h'', hk, hk', hbyte⟩

theorem double_free_harmless_merged :
    ∃ s, run (heapStep heapFuel) (bootHeap zeroMem) [.kmalloc (soloCaller .mainTask) 16] = .ok s ∧
      ∃ a ∈ s.live, ∃ h' h'', kfree ((soloCaller .mainTask).withFuel heapFuel) a.1 s.heap = .ok h' ∧
        kfree ((soloCaller .mainTask).withFuel heapFuel) a.1 h' = .ok h'' ∧ h''.mem.byte = h'.mem.byte := by
  obtain ⟨s, hr, hfree⟩ := double_free_harmless le_rfl zeroMem [.kmalloc (soloCaller .mainTask) 16]
  refine ⟨s, hr, ?_⟩
  rw [run_singleton] at hr
  have h0 : (16 : UInt32) ≠ 0 := by decide
  rcases (bootHeap_inv zeroMem).kmalloc_cases (c := (soloCaller .mainTask).withFuel heapFuel) le_rfl h0 with
    ⟨hnone, -⟩ | ⟨b, p, h', hk, htake⟩
  · exact absurd ⟨rfl, by decide⟩ (hnone _ (List.mem_singleton.mpr rfl))
  · have hp0 : p ≠ 0 := fun e => by have := htake.payload; rw [e] at this; simp at this
    simp only [heapStep, hk, ok_bind, if_neg hp0, pure_eq_ok, Except.ok.injEq] at hr
    subst hr
    exact ⟨_, List.mem_cons_self .., hfree _ _ _ (List.mem_cons_self ..)⟩

end Runs

end RtosKernel
