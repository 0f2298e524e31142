import RtosKernel.Heap
import RtosKernel.Proofs.MutexProofs

/-!
# Proofs: the heap functions refine the block-list operations

The loops of `kmalloc`, `kfree` and `heap_get_used` run on headers in memory. Here each is shown to do
to the memory what `firstFit`, `coalesce` and `usedBytes` do to the block list that the memory holds,
and to store only into blocks that are free.
-/

namespace RtosKernel

open Lib Lib.Mem Lib.BlockList

/-! ## Headers -/

/-- The addresses of the header at `h`. -/
def InHeader (h : UInt32) (x : ℕ) : Prop := h.toNat ≤ x ∧ x < h.toNat + 12

/-- The addresses of the size and of the link of the header at `a`. -/
def AtLinks (a x : ℕ) : Prop := (a ≤ x ∧ x < a + 4) ∨ (a + 8 ≤ x ∧ x < a + 12)

theorem AtLinks.inHeader {h : UInt32} {x : ℕ} (hx : AtLinks h.toNat x) : InHeader h x := by
  unfold AtLinks at hx
  unfold InHeader
  omega

/-- The header at `h` does not wrap around the end of memory. -/
def HeaderFits (h : UInt32) : Prop := h.toNat + 12 ≤ 2 ^ 32

theorem field_toNat {h : UInt32} (hh : HeaderFits h) :
    (h + 4).toNat = h.toNat + 4 ∧ (h + 8).toNat = h.toNat + 8 := by
  unfold HeaderFits at hh
  refine ⟨?_, ?_⟩ <;> rw [UInt32.toNat_add] <;> simp <;> omega

section Fields

variable {m m' : Mem} {h k v : UInt32}

theorem setSize_links (hh : HeaderFits h) : WritesIn (AtLinks h.toNat) m (setSize m h v) := by
  unfold HeaderFits at hh
  exact WritesIn.store32 m v (by omega) fun x h1 h2 => Or.inl ⟨h1, h2⟩

theorem setSize_writes (hh : HeaderFits h) : WritesIn (InHeader h) m (setSize m h v) :=
  (setSize_links hh).mono fun _ => AtLinks.inHeader

theorem setIsFree_writes (hh : HeaderFits h) : WritesIn (InHeader h) m (setIsFree m h v) := by
  obtain ⟨h4, -⟩ := field_toNat hh
  unfold HeaderFits at hh
  exact WritesIn.store32 m v (by omega) fun x h1 h2 => ⟨by omega, by omega⟩

theorem setNext_links (hh : HeaderFits h) : WritesIn (AtLinks h.toNat) m (setNext m h v) := by
  obtain ⟨-, h8⟩ := field_toNat hh
  unfold HeaderFits at hh
  exact WritesIn.store32 m v (by omega) fun x h1 h2 => Or.inr ⟨by omega, by omega⟩

theorem setNext_writes (hh : HeaderFits h) : WritesIn (InHeader h) m (setNext m h v) :=
  (setNext_links hh).mono fun _ => AtLinks.inHeader

theorem header_setSize (hh : HeaderFits h) :
    header (setSize m h v) h = ⟨v, (header m h).isFree, (header m h).next⟩ := by
  obtain ⟨h4, h8⟩ := field_toNat hh
  unfold HeaderFits at hh
  simp only [header, setSize, load32_store32]
  rw [load32_store32_of_disjoint m v (by omega) (by omega) (by omega),
    load32_store32_of_disjoint m v (by omega) (by omega) (by omega)]

theorem header_setIsFree (hh : HeaderFits h) :
    header (setIsFree m h v) h = ⟨(header m h).size, v, (header m h).next⟩ := by
  obtain ⟨h4, h8⟩ := field_toNat hh
  unfold HeaderFits at hh
  simp only [header, setIsFree, load32_store32]
  rw [load32_store32_of_disjoint m v (by omega) (by omega) (by omega),
    load32_store32_of_disjoint m v (by omega) (by omega) (by omega)]

theorem header_setNext (hh : HeaderFits h) :
    header (setNext m h v) h = ⟨(header m h).size, (header m h).isFree, v⟩ := by
  obtain ⟨h4, h8⟩ := field_toNat hh
  unfold HeaderFits at hh
  simp only [header, setNext, load32_store32]
  rw [load32_store32_of_disjoint m v (by omega) (by omega) (by omega),
    load32_store32_of_disjoint m v (by omega) (by omega) (by omega)]

/-- A header is unchanged if its bytes are. -/
theorem header_of_agree (hk : HeaderFits k) (ha : Agree m m' k.toNat (k.toNat + 12)) :
    header m' k = header m k := by
  obtain ⟨h4, h8⟩ := field_toNat hk
  unfold HeaderFits at hk
  simp only [header]
  rw [ha.load32 (by omega) (by omega) (by omega), ha.load32 (by omega) (by omega) (by omega),
    ha.load32 (by omega) (by omega) (by omega)]

/-- Stores into one header leave a header elsewhere alone. -/
theorem header_of_apart (hk : HeaderFits k) (hw : WritesIn (InHeader h) m m')
    (hd : h.toNat + 12 ≤ k.toNat ∨ k.toNat + 12 ≤ h.toNat) : header m' k = header m k := by
  refine header_of_agree hk (hw.agree fun x h1 h2 h3 => ?_)
  unfold InHeader at h3
  omega

end Fields

/-! ## Block lists in memory -/

section Blocks

variable {m m' : Mem} {a : UInt32} {bs : List Block} {lo hi : ℕ}

/-- The bytes of a block, its header included. -/
def InBlock (b : Block) (x : ℕ) : Prop := b.addr ≤ x ∧ x < b.addr + 12 + b.size

/-- The bytes of the free blocks. -/
def InFree (bs : List Block) (x : ℕ) : Prop :=
  ∃ b ∈ bs, b.free = true ∧ b.addr ≤ x ∧ x < b.addr + 12 + b.size

/-- The sizes and the links of the free blocks, which is all that merging stores to. -/
def InFreeLinks (bs : List Block) (x : ℕ) : Prop := ∃ b ∈ bs, b.free = true ∧ AtLinks b.addr x

theorem InFreeLinks.cons {b : Block} {x : ℕ} (h : InFreeLinks bs x) : InFreeLinks (b :: bs) x := by
  obtain ⟨c, hc, hx⟩ := h
  exact ⟨c, List.mem_cons_of_mem b hc, hx⟩

theorem InFreeLinks.inFree {x : ℕ} (h : InFreeLinks bs x) : InFree bs x := by
  obtain ⟨b, hb, hbf, hx⟩ := h
  unfold AtLinks at hx
  exact ⟨b, hb, hbf, by omega, by omega⟩

/-- The header of the first block lies inside the address space. -/
theorem BlocksFrom.headerFits {b : Block} (hb : BlocksFrom m a (b :: bs))
    (ht : Tiles 12 lo hi (b :: bs)) (hhi : hi ≤ 2 ^ 32) : HeaderFits a := by
  have h1 := (ht.bounds (List.mem_cons_self ..)).2
  have h2 := hb.2.1
  unfold HeaderFits
  omega

/-- A first block whose header is unchanged, before another rest of the list. -/
theorem BlocksFrom.with_tail {b : Block} {cs : List Block} (hb : BlocksFrom m a (b :: bs))
    (hh : header m' a = header m a) (hcs : BlocksFrom m' (header m a).next cs) :
    BlocksFrom m' a (b :: cs) := by
  obtain ⟨h0, h1, h2, h3, -⟩ := hb
  refine ⟨h0, h1, ?_, ?_, ?_⟩
  · rw [hh]
    exact h2
  · rw [hh]
    exact h3
  · rw [hh]
    exact hcs

/-- The block list only reads the headers of its blocks. -/
theorem BlocksFrom.congr (hb : BlocksFrom m a bs) (ht : Tiles 12 lo hi bs) (hhi : hi ≤ 2 ^ 32)
    (hag : ∀ b ∈ bs, Agree m m' b.addr (b.addr + 12)) : BlocksFrom m' a bs := by
  induction bs generalizing a lo with
  | nil => exact hb
  | cons b bs ih =>
    have hag' : Agree m m' a.toNat (a.toNat + 12) := by
      rw [hb.2.1]
      exact hag b (by simp)
    refine hb.with_tail (header_of_agree (hb.headerFits ht hhi) hag') ?_
    exact ih hb.2.2.2.2 ht.2 fun c hc => hag c (by simp [hc])

/-- Stores into `[lo', lo)` do not touch the blocks from `lo` on. -/
theorem BlocksFrom.keep (hb : BlocksFrom m a bs) (ht : Tiles 12 lo hi bs) (hhi : hi ≤ 2 ^ 32)
    {P : ℕ → Prop} (hw : WritesIn P m m') (hP : ∀ x, P x → x < lo) : BlocksFrom m' a bs := by
  refine hb.congr ht hhi fun b hbm => hw.agree fun x h1 _ h3 => ?_
  have := (ht.bounds hbm).1
  have := hP x h3
  omega

/-- Stores into free blocks of the rest leave the header of the first block alone. -/
theorem BlocksFrom.with_free_tail {b : Block} {cs : List Block} (hb : BlocksFrom m a (b :: bs))
    (ht : Tiles 12 lo hi (b :: bs)) (hhi : hi ≤ 2 ^ 32) (hw : WritesIn (InFree bs) m m')
    (hcs : BlocksFrom m' (header m a).next cs) : BlocksFrom m' a (b :: cs) := by
  refine hb.with_tail ?_ hcs
  refine header_of_agree (hb.headerFits ht hhi) (hw.agree fun x h1 h2 h3 => ?_)
  obtain ⟨c, hc, -, h4, -⟩ := h3
  have hbnd := (ht.2.bounds hc).1
  have hab := hb.2.1
  omega

/-- The size field of a block of the list. -/
theorem BlocksFrom.header_size (hb : BlocksFrom m a bs) {b : Block} (hbs : b ∈ bs) {p : UInt32}
    (hp : p.toNat = b.addr) : (header m p).size.toNat = b.size := by
  induction bs generalizing a with
  | nil => exact absurd hbs (by simp)
  | cons c bs ih =>
    obtain ⟨-, h1, h2, -, h4⟩ := hb
    rcases List.mem_cons.mp hbs with rfl | hbs
    · rw [UInt32.toNat_inj.mp (hp.trans h1.symm)]
      exact h2
    · exact ih h4 hbs

/-- The block list of a memory is unique. -/
theorem BlocksFrom.unique {cs : List Block} (hb : BlocksFrom m a bs) (hc : BlocksFrom m a cs) :
    bs = cs := by
  induction bs generalizing a cs with
  | nil =>
    cases cs with
    | nil => rfl
    | cons c cs => exact absurd hb hc.1
  | cons b bs ih =>
    cases cs with
    | nil => exact absurd hc hb.1
    | cons c cs =>
      obtain ⟨-, h1, h2, h3, h4⟩ := hb
      obtain ⟨-, k1, k2, k3, k4⟩ := hc
      have hfree : b.free = c.free := by
        rw [h3] at k3
        cases hbf : b.free <;> cases hcf : c.free <;> simp [hbf, hcf] at k3 ⊢
      have hbc : b = c := by
        cases b
        cases c
        simp only [Block.mk.injEq] at *
        exact ⟨h1 ▸ k1, h2 ▸ k2, hfree⟩
      rw [hbc, ih h4 k4]

end Blocks

/-! ## `kmalloc` -/

section Kmalloc

variable {m : Mem} {a size : UInt32} {lo hi : ℕ}

theorem sizeofHeader_toNat : sizeofHeader.toNat = 12 := rfl

theorem add_header_toNat {x y : UInt32} (h : x.toNat + 12 + y.toNat < 2 ^ 32) :
    (x + sizeofHeader).toNat = x.toNat + 12 ∧ (x + sizeofHeader + y).toNat = x.toNat + 12 + y.toNat := by
  have h1 : (x + sizeofHeader).toNat = x.toNat + 12 := by
    rw [UInt32.toNat_add, sizeofHeader_toNat]
    omega
  refine ⟨h1, ?_⟩
  rw [UInt32.toNat_add, h1]
  omega

/-- The two headers after a split, and where it stores. -/
theorem splitBlock_spec (m : Mem) {a size : UInt32} (hfit : a.toNat + 12 + size.toNat + 12 ≤ 2 ^ 32 - 1) :
    header (splitBlock m a size) a = ⟨size, (header m a).isFree, a + sizeofHeader + size⟩ ∧
    header (splitBlock m a size) (a + sizeofHeader + size) =
      ⟨(header m a).size - size - sizeofHeader, 1, (header m a).next⟩ ∧
    WritesIn (fun x => a.toNat ≤ x ∧ x < a.toNat + 12 + size.toNat + 12) m (splitBlock m a size) := by
  obtain ⟨-, hn⟩ := add_header_toNat (x := a) (y := size) (by omega)
  set nb := a + sizeofHeader + size with hnb
  have hfa : HeaderFits a := by unfold HeaderFits; omega
  have hfn : HeaderFits nb := by unfold HeaderFits; omega
  -- stores into the header of `a` do not change that of `nb`, and conversely
  have hoff : ∀ {m m' : Mem}, WritesIn (InHeader a) m m' → header m' nb = header m nb :=
    fun hw => header_of_apart hfn hw (by omega)
  have hon : ∀ {m m' : Mem}, WritesIn (InHeader nb) m m' → header m' a = header m a :=
    fun hw => header_of_apart hfa hw (by omega)
  have hPa : ∀ x, InHeader a x → a.toNat ≤ x ∧ x < a.toNat + 12 + size.toNat + 12 := by
    unfold InHeader
    omega
  have hPn : ∀ x, InHeader nb x → a.toNat ≤ x ∧ x < a.toNat + 12 + size.toNat + 12 := by
    unfold InHeader
    omega
  simp only [splitBlock, ← hnb]
  refine ⟨?_, ?_, ?_⟩
  · simp only [header_setNext hfa, header_setSize hfa, hon (setNext_writes hfn),
      hon (setIsFree_writes hfn), hon (setSize_writes hfn)]
  · simp only [hoff (setNext_writes hfa), hoff (setSize_writes hfa), header_setNext hfn,
      header_setIsFree hfn, header_setSize hfn, hon (setIsFree_writes hfn), hon (setSize_writes hfn)]
  · exact ((((setSize_writes hfn).mono hPn).trans ((setIsFree_writes hfn).mono hPn)).trans
      ((setNext_writes hfn).mono hPn)).trans
      (((setSize_writes hfa).mono hPa).trans ((setNext_writes hfa).mono hPa))

/-- Taking the block at `a` with a split: it shrinks to `size`, and the rest is a free block. -/
theorem takeBlock_split {b : Block} {bs : List Block} (hb : BlocksFrom m a (b :: bs))
    (ht : Tiles 12 lo hi (b :: bs)) (hhi : hi + 28 ≤ 2 ^ 32) (hsplit : size.toNat + 12 + 16 ≤ b.size) :
    BlocksFrom (setIsFree (splitBlock m a size) a 0) a
      (⟨b.addr, size.toNat, false⟩ :: ⟨b.addr + 12 + size.toNat, b.size - size.toNat - 12, true⟩ :: bs) ∧
    WritesIn (fun x => b.addr ≤ x ∧ x < b.addr + 12 + b.size) m (setIsFree (splitBlock m a size) a 0) := by
  have hfa := hb.headerFits ht (by omega)
  have hbd := (ht.bounds (List.mem_cons_self ..)).2
  obtain ⟨h0, h1, h2, -, h4⟩ := hb
  obtain ⟨hda, hdn, hw⟩ := splitBlock_spec m (a := a) (by omega : a.toNat + 12 + size.toNat + 12 ≤ 2 ^ 32 - 1)
  obtain ⟨-, hn⟩ := add_header_toNat (x := a) (y := size) (by omega)
  set nb := a + sizeofHeader + size with hnb
  set m' := setIsFree (splitBlock m a size) a 0 with hm'
  have hfn : HeaderFits nb := by
    unfold HeaderFits
    omega
  have hwm : WritesIn (fun x => b.addr ≤ x ∧ x < b.addr + 12 + b.size) m m' := by
    refine (hw.mono fun x hx => by omega).trans ((setIsFree_writes hfa).mono ?_)
    unfold InHeader
    omega
  have hha : header m' a = ⟨size, 0, nb⟩ := by
    rw [hm', header_setIsFree hfa, hda]
  have hhn : header m' nb = ⟨(header m a).size - size - sizeofHeader, 1, (header m a).next⟩ := by
    rw [hm', header_of_apart hfn (setIsFree_writes hfa) (by omega), hdn]
  have hnb0 : nb ≠ 0 := by
    intro hz
    have hz' : nb.toNat = 0 := congrArg UInt32.toNat hz
    omega
  have hrest : BlocksFrom m' (header m a).next bs := h4.keep ht.2 (by omega) hwm fun x hx => hx.2
  have hsize : ((header m a).size - size - sizeofHeader).toNat = b.size - size.toNat - 12 := by
    have hle : size ≤ (header m a).size := by
      rw [UInt32.le_iff_toNat_le]
      omega
    have h12 : sizeofHeader ≤ (header m a).size - size := by
      rw [UInt32.le_iff_toNat_le, UInt32.toNat_sub_of_le _ _ hle, sizeofHeader_toNat]
      omega
    rw [UInt32.toNat_sub_of_le _ _ h12, UInt32.toNat_sub_of_le _ _ hle, sizeofHeader_toNat, h2]
  refine ⟨⟨h0, h1, by rw [hha], by rw [hha]; rfl, ?_⟩, hwm⟩
  rw [hha]
  refine ⟨hnb0, by rw [hn, h1], ?_, by rw [hhn]; rfl, ?_⟩
  · rw [hhn]
    exact hsize
  · rw [hhn]
    exact hrest

/-- Taking the block at `a` whole. -/
theorem takeBlock_whole {b : Block} {bs : List Block} (hb : BlocksFrom m a (b :: bs))
    (ht : Tiles 12 lo hi (b :: bs)) (hhi : hi + 28 ≤ 2 ^ 32) :
    BlocksFrom (setIsFree m a 0) a (⟨b.addr, b.size, false⟩ :: bs) ∧
    WritesIn (fun x => b.addr ≤ x ∧ x < b.addr + 12 + b.size) m (setIsFree m a 0) := by
  have hfa := hb.headerFits ht (by omega)
  have hbd := (ht.bounds (List.mem_cons_self ..)).2
  obtain ⟨h0, h1, h2, -, h4⟩ := hb
  have hwm : WritesIn (fun x => b.addr ≤ x ∧ x < b.addr + 12 + b.size) m (setIsFree m a 0) := by
    refine (setIsFree_writes hfa).mono ?_
    unfold InHeader
    omega
  have hha := header_setIsFree (m := m) (v := 0) hfa
  refine ⟨⟨h0, h1, by rw [hha]; exact h2, by rw [hha]; rfl, ?_⟩, hwm⟩
  rw [hha]
  exact h4.keep ht.2 (by omega) hwm fun x hx => hx.2

/-- Taking the block at `a`: the memory then holds the carved block. -/
theorem takeBlock_spec {b : Block} {bs : List Block} (hb : BlocksFrom m a (b :: bs))
    (ht : Tiles 12 lo hi (b :: bs)) (hhi : hi + 28 ≤ 2 ^ 32) (hs : size.toNat ≤ b.size)
    {m' : Mem}
    (hm' : m' = setIsFree
      (if size + sizeofHeader + 16 ≤ (header m a).size then splitBlock m a size else m) a 0) :
    BlocksFrom m' a (carve 12 16 size.toNat b ++ bs) ∧
    WritesIn (fun x => b.addr ≤ x ∧ x < b.addr + 12 + b.size) m m' := by
  have hbd := (ht.bounds (List.mem_cons_self ..)).2
  have hcond : size + sizeofHeader + 16 ≤ (header m a).size ↔ size.toNat + 12 + 16 ≤ b.size := by
    rw [UInt32.le_iff_toNat_le, hb.2.2.1, UInt32.toNat_add, UInt32.toNat_add, sizeofHeader_toNat]
    have : (16 : UInt32).toNat = 16 := rfl
    omega
  by_cases hsplit : size.toNat + 12 + 16 ≤ b.size
  · rw [if_pos (hcond.mpr hsplit)] at hm'
    rw [hm', carve, if_pos hsplit]
    exact takeBlock_split hb ht hhi hsplit
  · rw [if_neg fun h => hsplit (hcond.mp h)] at hm'
    rw [hm', carve, if_neg hsplit]
    exact takeBlock_whole hb ht hhi

/-- A free block that is large enough passes the test of the loop, and no other does. -/
theorem fits_iff {b : Block} {bs : List Block} (hb : BlocksFrom m a (b :: bs)) :
    ((header m a).isFree ≠ 0 ∧ size ≤ (header m a).size) ↔ (b.free = true ∧ size.toNat ≤ b.size) := by
  obtain ⟨-, -, h2, h3, -⟩ := hb
  rw [h3, UInt32.le_iff_toNat_le, h2]
  cases b.free <;> simp

/-- **The loop of `kmalloc` is `firstFit`**, and it stores into the chosen block only. -/
theorem kmallocLoop_spec {bs : List Block} {fuel : ℕ} (size : UInt32) (hb : BlocksFrom m a bs)
    (ht : Tiles 12 lo hi bs) (hhi : hi + 28 ≤ 2 ^ 32) (hf : bs.length < fuel) :
    (firstFit 12 16 size.toNat bs = none → loop .spent (kmallocBody m size) fuel a = .ok (0, m)) ∧
    ∀ p cs, firstFit 12 16 size.toNat bs = some (p, cs) → ∃ q m',
      loop .spent (kmallocBody m size) fuel a = .ok (q, m') ∧ q.toNat = p + 12 ∧
      BlocksFrom m' a cs ∧ ∃ b ∈ bs, b.free = true ∧ b.addr = p ∧ WritesIn (InBlock b) m m' := by
  induction bs generalizing a lo fuel with
  | nil =>
    obtain ⟨fuel, rfl⟩ : ∃ k, fuel = k + 1 := ⟨fuel - 1, by simp at hf; omega⟩
    have ha : a = 0 := hb
    refine ⟨fun _ => loop_exit (by simp [kmallocBody, ha]), fun p cs h => ?_⟩
    exact absurd h (by simp [firstFit])
  | cons b bs ih =>
    obtain ⟨fuel, rfl⟩ : ∃ k, fuel = k + 1 := ⟨fuel - 1, by omega⟩
    have h0 : a ≠ 0 := hb.1
    by_cases hfit : b.free = true ∧ size.toNat ≤ b.size
    · -- the block at `a` is taken
      have hfit' := (fits_iff hb).mpr hfit
      refine ⟨fun h => absurd h (by simp [firstFit, hfit]), fun p cs h => ?_⟩
      rw [firstFit, if_pos hfit] at h
      obtain ⟨rfl, rfl⟩ := Prod.mk.inj (Option.some.inj h)
      obtain ⟨hblk, hw⟩ := takeBlock_spec hb ht hhi hfit.2 rfl
      have hbd := (ht.bounds (List.mem_cons_self ..)).2
      have hq : (a + sizeofHeader).toNat = b.addr + 12 := by
        rw [(add_header_toNat (x := a) (y := 0) (by have := hb.2.1; simp; omega)).1, hb.2.1]
      exact ⟨_, _, loop_exit (by simp only [kmallocBody, if_neg h0, if_pos hfit']), hq, hblk, b,
        List.mem_cons_self .., hfit.1, rfl, hw⟩
    · -- the scan goes on from the next block
      have hfit' := mt (fits_iff hb).mp hfit
      have hstep : kmallocBody m size a = .ok (.inl (header m a).next) := by
        simp only [kmallocBody, if_neg h0, if_neg hfit']
      have hf' : bs.length < fuel := by simpa using hf
      obtain ⟨hnone, hsome⟩ := ih hb.2.2.2.2 ht.2 hf'
      rw [firstFit, if_neg hfit, loop_next hstep]
      refine ⟨fun h => hnone (by simpa using h), fun p cs h => ?_⟩
      obtain ⟨⟨p', cs'⟩, hr, he⟩ := Option.map_eq_some_iff.mp h
      obtain ⟨rfl, rfl⟩ := Prod.mk.inj he
      obtain ⟨q, m', hl, hq, hblk, c, hc, hcf, hca, hw⟩ := hsome p' cs' hr
      refine ⟨q, m', hl, hq, ?_, c, List.mem_cons_of_mem b hc, hcf, hca, hw⟩
      exact hb.with_free_tail ht (by omega) (hw.mono fun x hx => ⟨c, hc, hcf, hx⟩) hblk

end Kmalloc

/-! ## `kfree` -/

section Kfree

variable {m : Mem} {a : UInt32} {lo hi : ℕ}

/-- The next pointer of a block that is not the last one. -/
theorem BlocksFrom.next_ne {b c : Block} {bs : List Block} (hb : BlocksFrom m a (b :: c :: bs)) :
    (header m a).next ≠ 0 := hb.2.2.2.2.1

theorem isFree_ne_zero_iff {b : Block} {bs : List Block} (hb : BlocksFrom m a (b :: bs)) :
    (header m a).isFree ≠ 0 ↔ b.free = true := by
  rw [hb.2.2.2.1]
  cases b.free <;> simp

/-- The stores of one merge: the header of the first block then describes the joined block. -/
theorem mergeStep_spec {b c : Block} {bs : List Block} (hb : BlocksFrom m a (b :: c :: bs))
    (ht : Tiles 12 lo hi (b :: c :: bs)) (hhi : hi + 28 ≤ 2 ^ 32) (hbf : b.free = true)
    (hcf : c.free = true) :
    ∃ m', mergeBody (m, a) = .ok (.inl (m', a)) ∧
      BlocksFrom m' a (⟨b.addr, b.size + (12 + c.size), true⟩ :: bs) ∧
      WritesIn (AtLinks b.addr) m m' := by
  have hfa := hb.headerFits ht (by omega)
  have hfc := hb.2.2.2.2.headerFits ht.2 (by omega)
  have hfree := (isFree_ne_zero_iff hb).mpr hbf
  have hfree' := (isFree_ne_zero_iff hb.2.2.2.2).mpr hcf
  obtain ⟨h0, h1, h2, h3, k0, k1, k2, k3, h4⟩ := hb
  set nb := (header m a).next with hnb
  have hadj : nb.toNat = b.addr + 12 + b.size := by rw [k1, ht.2.1]
  have hend := (ht.2.bounds (List.mem_cons_self ..)).2
  have hapart : header (setSize m a ((header m a).size + (sizeofHeader + (header m nb).size))) nb =
      header m nb := header_of_apart hfc (setSize_writes hfa) (by omega)
  refine ⟨_, by simp only [mergeBody, ← hnb]; rw [if_pos ⟨h0, k0⟩, if_pos ⟨hfree, hfree'⟩], ?_,
    h1 ▸ (setSize_links hfa).trans (setNext_links hfa)⟩
  refine ⟨h0, h1, ?_, ?_, ?_⟩
  · rw [header_setNext hfa, header_setSize hfa]
    show ((header m a).size + (sizeofHeader + (header m nb).size)).toNat = b.size + (12 + c.size)
    rw [UInt32.toNat_add, UInt32.toNat_add, sizeofHeader_toNat, h2, k2]
    omega
  · rw [header_setNext hfa, header_setSize hfa, h3, hbf]
  · rw [header_setNext hfa, header_setSize hfa]
    simp only [← hnb, hapart]
    exact h4.keep ht.2.2 (by omega) ((setSize_writes hfa).trans (setNext_writes hfa)) fun x hx => by
      unfold InHeader at hx
      have := ht.2.1
      omega

/-- The header of the joined block is that of the first one. -/
theorem InFreeLinks.of_join {b c : Block} {bs : List Block} {x : ℕ} (hbf : b.free = true)
    (hx : InFreeLinks (⟨b.addr, b.size + (12 + c.size), true⟩ :: bs) x) : InFreeLinks (b :: c :: bs) x := by
  obtain ⟨d, hd, hdf, hx⟩ := hx
  rcases List.mem_cons.mp hd with rfl | hd
  · exact ⟨b, by simp, hbf, hx⟩
  · exact ⟨d, by simp [hd], hdf, hx⟩

/-- **The merging loop of `kfree` is `coalesce`.** -/
theorem mergeLoop_spec {bs : List Block} {fuel : ℕ} (hb : BlocksFrom m a bs)
    (ht : Tiles 12 lo hi bs) (hhi : hi + 28 ≤ 2 ^ 32) (hf : bs.length < fuel) :
    ∃ m', loop .spent mergeBody fuel (m, a) = .ok m' ∧ BlocksFrom m' a (coalesce 12 bs) ∧
      WritesIn (InFreeLinks bs) m m' := by
  fun_induction coalesce 12 bs generalizing m a lo fuel with
  | case1 b c bs hbc ih =>
    obtain ⟨fuel, rfl⟩ : ∃ k, fuel = k + 1 := ⟨fuel - 1, by omega⟩
    obtain ⟨m1, hstep, hb1, hw1⟩ := mergeStep_spec hb ht hhi hbc.1 hbc.2
    have hf' : bs.length + 1 < fuel := by simpa using hf
    obtain ⟨m', hl, hb', hw'⟩ := ih hb1 (tiles_join ht) hf'
    refine ⟨m', by rw [loop_next hstep, hl], hb', ?_⟩
    refine (hw1.mono fun x hx => ?_).trans (hw'.mono fun x hx => ?_)
    · exact ⟨b, List.mem_cons_self .., hbc.1, hx⟩
    · exact hx.of_join hbc.1
  | case2 b c bs hbc ih =>
    obtain ⟨fuel, rfl⟩ : ∃ k, fuel = k + 1 := ⟨fuel - 1, by omega⟩
    have hcond : ¬ ((header m a).isFree ≠ 0 ∧ (header m (header m a).next).isFree ≠ 0) := by
      rw [isFree_ne_zero_iff hb, isFree_ne_zero_iff hb.2.2.2.2]
      exact hbc
    have hstep : mergeBody (m, a) = .ok (.inl (m, (header m a).next)) := by
      simp only [mergeBody]
      rw [if_pos ⟨hb.1, hb.next_ne⟩, if_neg hcond]
    have hf' : bs.length + 1 < fuel := by simpa using hf
    obtain ⟨m', hl, hb', hw'⟩ := ih hb.2.2.2.2 ht.2 hf'
    refine ⟨m', by rw [loop_next hstep, hl], ?_, hw'.mono fun x => InFreeLinks.cons⟩
    exact hb.with_free_tail ht (by omega) (hw'.mono fun x => InFreeLinks.inFree) hb'
  | case3 bs hbs =>
    obtain ⟨fuel, rfl⟩ : ∃ k, fuel = k + 1 := ⟨fuel - 1, by omega⟩
    refine ⟨m, loop_exit ?_, hb, WritesIn.refl _ _⟩
    rcases bs with _ | ⟨b, _ | ⟨c, bs⟩⟩
    · have ha : a = 0 := hb
      simp [mergeBody, ha]
    · have hn : (header m a).next = 0 := hb.2.2.2.2
      simp [mergeBody, hn]
    · exact absurd rfl (hbs b c bs)

/-- With no two neighbours free, the merging loop goes through the list and changes nothing. -/
theorem mergeLoop_done {bs : List Block} {fuel : ℕ} (hb : BlocksFrom m a bs) (hn : NoFreePair bs)
    (hf : bs.length < fuel) : loop .spent mergeBody fuel (m, a) = .ok m := by
  induction bs generalizing a fuel with
  | nil =>
    obtain ⟨fuel, rfl⟩ : ∃ k, fuel = k + 1 := ⟨fuel - 1, by omega⟩
    have ha : a = 0 := hb
    exact loop_exit (by simp [mergeBody, ha])
  | cons b bs ih =>
    obtain ⟨fuel, rfl⟩ : ∃ k, fuel = k + 1 := ⟨fuel - 1, by omega⟩
    cases bs with
    | nil =>
      have hnext : (header m a).next = 0 := hb.2.2.2.2
      exact loop_exit (by simp [mergeBody, hnext])
    | cons c bs =>
      have hpair := List.isChain_cons_cons.mp hn
      have hcond : ¬ ((header m a).isFree ≠ 0 ∧ (header m (header m a).next).isFree ≠ 0) := by
        rw [isFree_ne_zero_iff hb, isFree_ne_zero_iff hb.2.2.2.2]
        exact hpair.1
      have hstep : mergeBody (m, a) = .ok (.inl (m, (header m a).next)) := by
        simp only [mergeBody]
        rw [if_pos ⟨hb.1, hb.next_ne⟩, if_neg hcond]
      have hf' : bs.length + 1 < fuel := by simpa using hf
      rw [loop_next hstep]
      exact ih hb.2.2.2.2 hpair.2 hf'

/-- Marking the block at `p` free, and nothing else. -/
theorem release_spec {bs : List Block} {p : UInt32} (hb : BlocksFrom m a bs) (ht : Tiles 12 lo hi bs)
    (hhi : hi + 28 ≤ 2 ^ 32) (hp : ∃ b ∈ bs, b.addr = p.toNat) :
    BlocksFrom (setIsFree m p 1) a (release p.toNat bs) := by
  obtain ⟨r, hr, hrp⟩ := hp
  have hfp : HeaderFits p := by
    have := (ht.bounds hr).2
    unfold HeaderFits
    omega
  have hap : ∀ b ∈ bs, b.addr ≠ p.toNat → p.toNat + 12 ≤ b.addr ∨ b.addr + 12 ≤ p.toNat := by
    intro b hbm hne
    have := ht.disjoint hr hbm fun e => hne (e ▸ hrp)
    omega
  clear hr
  induction bs generalizing a lo with
  | nil => exact hb
  | cons b bs ih =>
    have hfa := hb.headerFits ht (by omega)
    have hrest := ih hb.2.2.2.2 ht.2 fun c hc => hap c (by simp [hc])
    by_cases hbp : b.addr = p.toNat
    · have hap : a = p := UInt32.toNat_inj.mp (by rw [hb.2.1, hbp])
      subst hap
      simp only [release, List.map_cons, if_pos hbp]
      refine ⟨hb.1, hb.2.1, ?_, ?_, ?_⟩
      · rw [header_setIsFree hfa]
        exact hb.2.2.1
      · rw [header_setIsFree hfa]
        rfl
      · rw [header_setIsFree hfa]
        exact hrest
    · have hha : header (setIsFree m p 1) a = header m a := by
        refine header_of_apart hfa (setIsFree_writes hfp) ?_
        rw [hb.2.1]
        exact hap b (by simp) hbp
      simp only [release, List.map_cons, if_neg hbp]
      exact hb.with_tail hha hrest

end Kfree

/-! ## `heap_get_used` -/

section Used

variable {m : Mem} {a : UInt32} {lo hi : ℕ}

theorem usedBytes_cons (b : Block) (bs : List Block) :
    usedBytes (b :: bs) = (if b.free then 0 else b.size + 12) + usedBytes bs := by
  cases hb : b.free <;> simp [usedBytes, hb]

theorem usedBytes_le {bs : List Block} (ht : Tiles 12 lo hi bs) : lo + usedBytes bs ≤ hi := by
  induction bs generalizing lo with
  | nil => exact le_of_eq ht
  | cons b bs ih =>
    have h1 := ih ht.2
    have h2 := ht.1
    rw [usedBytes_cons]
    split_ifs <;> omega

theorem usedLoop_spec {bs : List Block} {fuel : ℕ} {acc : UInt32} (hb : BlocksFrom m a bs)
    (hacc : acc.toNat + usedBytes bs < 2 ^ 32) (hf : bs.length < fuel) :
    ∃ u, loop .spent (usedBody m) fuel (acc, a) = .ok u ∧ u.toNat = acc.toNat + usedBytes bs := by
  induction bs generalizing a acc fuel with
  | nil =>
    obtain ⟨fuel, rfl⟩ : ∃ k, fuel = k + 1 := ⟨fuel - 1, by simp at hf; omega⟩
    have ha : a = 0 := hb
    exact ⟨acc, loop_exit (by simp [usedBody, ha]), rfl⟩
  | cons b bs ih =>
    obtain ⟨fuel, rfl⟩ : ∃ k, fuel = k + 1 := ⟨fuel - 1, by omega⟩
    have hf' : bs.length < fuel := by simpa using hf
    obtain ⟨h0, h1, h2, h3, h4⟩ := hb
    rw [usedBytes_cons] at hacc ⊢
    cases hbf : b.free with
    | true =>
      simp only [hbf, if_true] at h3 hacc ⊢
      obtain ⟨u, hu, he⟩ := ih h4 (by omega : acc.toNat + usedBytes bs < 2 ^ 32) hf'
      refine ⟨u, ?_, by omega⟩
      rw [loop_next (t := (acc, (header m a).next)) (by simp [usedBody, h0, h3]), hu]
    | false =>
      simp only [hbf, Bool.false_eq_true, if_false] at h3 hacc ⊢
      have hadd : (acc + ((header m a).size + sizeofHeader)).toNat = acc.toNat + (b.size + 12) := by
        rw [UInt32.toNat_add, UInt32.toNat_add, sizeofHeader_toNat, h2]
        omega
      obtain ⟨u, hu, he⟩ := ih h4 (by omega :
        (acc + ((header m a).size + sizeofHeader)).toNat + usedBytes bs < 2 ^ 32) hf'
      refine ⟨u, ?_, by omega⟩
      rw [loop_next (t := (acc + ((header m a).size + sizeofHeader), (header m a).next))
        (by simp [usedBody, h0, h3]), hu]

end Used

end RtosKernel
