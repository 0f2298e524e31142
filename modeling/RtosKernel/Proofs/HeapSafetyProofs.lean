import RtosKernel.Proofs.HeapRunProofs

/-!
# Proofs: well-formedness, isolation and history independence of the heap

What the invariant of `HeapRunProofs` gives for the clients of the heap, after every run of calls of
`kmalloc` and `kfree`, with the clients writing whatever they like into the payloads they hold.
-/

namespace RtosKernel

open Lib Lib.Mem Lib.BlockList

/-! ## Well-formedness -/

/-- The block list `bs` of the heap `h` is well formed, and `heap_get_used` and `heap_get_free` count
its bytes. -/
structure HeapWellFormed (fuel : ℕ) (h : Heap) (bs : List Block) : Prop where
  blocks : BlocksFrom h.mem heapStart bs
  tiles : Tiles 12 arenaLo arenaHi bs
  /-- The `next` field of a block is the address right behind it, or null if that is the end of the
  arena. -/
  links : ∀ b ∈ bs, ∀ p : UInt32, p.toNat = b.addr →
    ((header h.mem p).next.toNat = b.addr + 12 + b.size ∧ b.addr + 12 + b.size < arenaHi) ∨
      ((header h.mem p).next = 0 ∧ b.addr + 12 + b.size = arenaHi)
  aligned : ∀ b ∈ bs, b.size % 4 = 0
  noFreePair : NoFreePair bs
  used : ∀ who : Caller, ∃ u, heapGetUsed (who.withFuel fuel) h = .ok (u, h) ∧ u.toNat = usedBytes bs
  /-- The subtraction in `heap_get_free` does not wrap around. -/
  free : ∀ who : Caller, ∃ f, heapGetFree (who.withFuel fuel) h = .ok (f, h) ∧
    f.toNat + usedBytes bs = heapSize.toNat

theorem BlocksFrom.links {m : Mem} {a : UInt32} {bs : List Block} {lo hi : ℕ}
    (hb : BlocksFrom m a bs) (ht : Tiles 12 lo hi bs) :
    ∀ b ∈ bs, ∀ p : UInt32, p.toNat = b.addr →
      ((header m p).next.toNat = b.addr + 12 + b.size ∧ b.addr + 12 + b.size < hi) ∨
        ((header m p).next = 0 ∧ b.addr + 12 + b.size = hi) := by
  induction bs generalizing a lo with
  | nil => simp
  | cons c bs ih =>
    intro b hbs p hp
    obtain ⟨-, h1, -, -, h4⟩ := hb
    rcases List.mem_cons.mp hbs with rfl | hbs
    · rw [UInt32.toNat_inj.mp (hp.trans h1.symm)]
      cases bs with
      | nil => exact Or.inr ⟨h4, ht.2⟩
      | cons d bs =>
        have hd := (ht.2.bounds (List.mem_cons_self ..)).2
        have hda := ht.2.1
        exact Or.inl ⟨by rw [h4.2.1, hda], by omega⟩
    · exact ih h4 ht.2 b hbs p hp

theorem HeapInv.wellFormed {s : HeapSys} {bs : List Block} {fuel : ℕ} (hI : HeapInv s bs)
    (hf : heapFuel ≤ fuel) : HeapWellFormed fuel s.heap bs := by
  have hused : ∀ who : Caller, ∃ u, heapGetUsed (who.withFuel fuel) s.heap = .ok (u, s.heap) ∧
      u.toNat = usedBytes bs :=
    fun who => heapGetUsed_spec hI.blocks hI.canonical hI.mutex hf
  refine ⟨hI.blocks, hI.canonical.tiles, hI.blocks.links hI.canonical.tiles,
    fun b hb => Nat.mod_eq_zero_of_dvd (hI.canonical.aligned b hb), hI.canonical.noFreePair, hused,
    fun who => ?_⟩
  obtain ⟨u, hu, he⟩ := hused who
  have hle : usedBytes bs ≤ heapSize.toNat := by
    have h1 := usedBytes_le hI.canonical.tiles
    have h2 : heapSize.toNat = 4194304 := rfl
    rw [arenaLo_eq, arenaHi_eq] at h1
    omega
  refine ⟨heapSize - u, by simp [heapGetFree, hu], ?_⟩
  rw [UInt32.toNat_sub_of_le _ _ (by rw [UInt32.le_iff_toNat_le, he]; exact hle), he]
  omega

/-- **After every run the block list is well formed**, and every call of the run has returned. -/
theorem heap_wellFormed {fuel : ℕ} (hf : heapFuel ≤ fuel) (m : Mem) (ops : List HeapOp) :
    ∃ s bs, run (heapStep fuel) (bootHeap m) ops = .ok s ∧ HeapWellFormed fuel s.heap bs := by
  obtain ⟨s, hr, bs, hI⟩ := heapRun_inv hf m ops
  exact ⟨s, bs, hr, hI.wellFormed hf⟩

theorem heap_wellFormed_two_calls :
    ∃ s bs, run (heapStep heapFuel) (bootHeap zeroMem)
        [.kmalloc (soloCaller .mainTask) 100, .kfree (soloCaller .mainTask) 0x0100000C] = .ok s ∧
      HeapWellFormed heapFuel s.heap bs :=
  heap_wellFormed le_rfl _ _

/-! ## Isolation -/

/-- The address `x` is in the payload of the allocation `a`. -/
def InPayload (a : UInt32 × UInt32) (x : ℕ) : Prop := a.1.toNat ≤ x ∧ x < a.1.toNat + a.2.toNat

/-- The payloads that the clients hold do not overlap each other or any block header, are aligned,
and lie inside the arena. -/
structure Isolated (s : HeapSys) : Prop where
  disjoint : s.live.Pairwise fun a b => ∀ x, ¬ (InPayload a x ∧ InPayload b x)
  inside : ∀ a ∈ s.live, arenaLo ≤ a.1.toNat ∧ a.1.toNat + a.2.toNat ≤ arenaHi
  aligned : ∀ a ∈ s.live, a.1.toNat % 4 = 0
  noHeader : ∀ bs, BlocksFrom s.heap.mem heapStart bs → ∀ b ∈ bs, ∀ a ∈ s.live, ∀ x,
    ¬ (InPayload a x ∧ b.addr ≤ x ∧ x < b.addr + 12)

/-- The allocation `a` is left alone: no byte of its payload is stored to, and the size in its header
is still the granted one. -/
structure Untouched (m m' : Mem) (a : UInt32 × UInt32) : Prop where
  noStore : ∃ new, m'.trace = new ++ m.trace ∧ ∀ x ∈ new, ¬ InPayload a x.toNat
  payload : ∀ x : UInt32, InPayload a x.toNat → m'.byte x = m.byte x
  granted : (header m (a.1 - sizeofHeader)).size = a.2 ∧ (header m' (a.1 - sizeofHeader)).size = a.2

/-- The allocation that a call frees, if it is one of `kfree`. -/
def freedBy : HeapOp → Option UInt32
  | .kfree _ ptr => some ptr
  | _ => none

/-- The operation is a call of the heap, and not a store by a client. -/
def IsCall : HeapOp → Prop
  | .write .. => False
  | _ => True

section Isolation

variable {s s' : HeapSys} {bs cs : List Block} {fuel : ℕ}

theorem HeapInv.isolated (hI : HeapInv s bs) : Isolated s := by
  have ht := hI.canonical.tiles
  refine ⟨?_, fun a ha => ?_, fun a ha => ?_, fun cs hcs c hc a ha x => ?_⟩
  · refine hI.nodup.imp_of_mem fun {a b} ha hb hab x hx => ?_
    obtain ⟨c, hc, -, hc1, hc2⟩ := hI.held a ha
    obtain ⟨d, hd, -, hd1, hd2⟩ := hI.held b hb
    have hcd : c ≠ d := by
      intro e
      refine hab (hI.eq_of_ptr ha hb (UInt32.toNat_inj.mp ?_))
      rw [hc1, hd1, e]
    have := ht.disjoint hc hd hcd
    unfold InPayload at hx
    omega
  · obtain ⟨c, hc, -, hc1, hc2⟩ := hI.held a ha
    have := ht.bounds hc
    omega
  · obtain ⟨c, hc, -, hc1, -⟩ := hI.held a ha
    have hal : 4 ∣ c.addr := ht.aligned_addr (by rw [arenaLo_eq]; norm_num) (by norm_num)
      hI.canonical.aligned c hc
    omega
  · obtain rfl := hcs.unique hI.blocks
    obtain ⟨d, hd, -, hd1, hd2⟩ := hI.held a ha
    unfold InPayload
    by_cases hcd : c = d
    · subst hcd
      omega
    · have := ht.disjoint hc hd hcd
      omega

/-- A call that stores only into free blocks leaves the live ones alone. -/
theorem HeapInv.untouched (hI : HeapInv s bs) (hI' : HeapInv s' cs) {fs : List Block}
    (ht : Tiles 12 arenaLo arenaHi fs) (hw : WritesIn (InFree fs) s.heap.mem s'.heap.mem)
    {a : UInt32 × UInt32} (ha : a ∈ s.live) (ha' : a ∈ s'.live)
    (hfs : ∀ b : Block, IsBlock a b → b ∈ fs) : Untouched s.heap.mem s'.heap.mem a := by
  obtain ⟨b, hb, hab⟩ := hI.held a ha
  obtain ⟨c, hc, hac⟩ := hI'.held a ha'
  have hfree : ∀ x, InPayload a x → ¬ InFree fs x := by
    rintro x hx ⟨d, hd, hdf, hd1, hd2⟩
    have hbd : d ≠ b := fun e => by rw [e, hab.1] at hdf; exact absurd hdf (by simp)
    have := ht.disjoint hd (hfs b hab) hbd
    obtain ⟨-, h1, h2⟩ := hab
    unfold InPayload at hx
    omega
  refine ⟨?_, fun x hx => hw.keeps x (hfree _ hx), ?_, ?_⟩
  · obtain ⟨new, he, hn⟩ := hw.stores
    exact ⟨new, he, fun x hx hp => hfree _ hp (hn x hx)⟩
  · refine UInt32.toNat_inj.mp ?_
    rw [hI.blocks.header_size hb (payload_sub_toNat hab.2.1), hab.2.2]
  · refine UInt32.toNat_inj.mp ?_
    rw [hI'.blocks.header_size hc (payload_sub_toNat hac.2.1), hac.2.2]

/-- A call leaves alone every allocation but the one it frees. -/
theorem heapStep_untouched (hI : HeapInv s bs) (hf : heapFuel ≤ fuel) {op : HeapOp}
    (hop : IsCall op) (hs : heapStep fuel s op = .ok s') {a : UInt32 × UInt32} (ha : a ∈ s.live)
    (hne : freedBy op ≠ some a.1) : a ∈ s'.live ∧ Untouched s.heap.mem s'.heap.mem a := by
  have hmem : ∀ b : Block, IsBlock a b → b ∈ bs := fun b hb => (hI.live b hb.1).mpr ⟨a, ha, hb⟩
  cases op with
  | kmalloc who size =>
    obtain ⟨t, cs, ht, hI', hw, hkeep⟩ := kmallocStep_inv hI hf who size
    obtain rfl : t = s' := by rw [ht] at hs; exact Except.ok.inj hs
    exact ⟨hkeep a ha, hI.untouched hI' hI.canonical.tiles hw ha (hkeep a ha) hmem⟩
  | kfree who ptr =>
    by_cases hp : ptr ∈ s.live.map Prod.fst
    · obtain ⟨r, hr, rfl⟩ := List.mem_map.mp hp
      have hra : a.1 ≠ r.1 := fun e => hne (by simp [freedBy, e])
      obtain ⟨t, b, ht, hb, hrb, hI', hlive, hw⟩ := kfreeStep_inv hI hf who hr
      obtain rfl : t = s' := by rw [ht] at hs; exact Except.ok.inj hs
      have ha' : a ∈ t.live := by
        rw [hlive]
        exact List.mem_filter.mpr ⟨ha, by simpa using hra⟩
      refine ⟨ha', hI.untouched hI' (tiles_release b.addr hI.canonical.tiles) hw ha ha' fun c hc => ?_⟩
      refine (mem_release_live hc.1).mpr ⟨hmem c hc, fun e => hra (UInt32.toNat_inj.mp ?_)⟩
      rw [hc.2.1, hrb.2.1, e]
    · have hsame : s' = s := by
        simp only [heapStep, if_neg hp, pure_eq_ok] at hs
        exact (Except.ok.inj hs).symm
      subst hsame
      exact ⟨ha, hI.untouched hI hI.canonical.tiles (WritesIn.refl _ _) ha ha hmem⟩
  | write ptr off v => exact absurd hop (by simp [IsCall])

/-- **The allocations are isolated after every run**, and no further call touches one that it does
not itself free. -/
theorem heap_isolated (hf : heapFuel ≤ fuel) (m : Mem) (ops : List HeapOp) :
    ∃ s, run (heapStep fuel) (bootHeap m) ops = .ok s ∧ Isolated s ∧
      ∀ op, IsCall op → ∃ s', heapStep fuel s op = .ok s' ∧
        ∀ a ∈ s.live, freedBy op ≠ some a.1 → a ∈ s'.live ∧ Untouched s.heap.mem s'.heap.mem a := by
  obtain ⟨s, hr, bs, hI⟩ := heapRun_inv hf m ops
  refine ⟨s, hr, hI.isolated, fun op hop => ?_⟩
  obtain ⟨s', hs, -⟩ := heapStep_inv hf op ⟨bs, hI⟩
  exact ⟨s', hs, fun a ha hne => heapStep_untouched hI hf hop hs ha hne⟩

theorem heap_isolated_two_calls :
    ∃ s, run (heapStep heapFuel) (bootHeap zeroMem)
        [.kmalloc (soloCaller .mainTask) 100, .kmalloc (soloCaller .mainTask) 7] = .ok s ∧ Isolated s ∧
      ∀ op, IsCall op → ∃ s', heapStep heapFuel s op = .ok s' ∧
        ∀ a ∈ s.live, freedBy op ≠ some a.1 → a ∈ s'.live ∧ Untouched s.heap.mem s'.heap.mem a :=
  heap_isolated le_rfl _ _

end Isolation

/-! ## History independence -/

section History

variable {fuel : ℕ}

/-- The same allocations leave the same block list. -/
theorem HeapInv.eq_of_live {s s' : HeapSys} {bs cs : List Block} (hI : HeapInv s bs)
    (hI' : HeapInv s' cs) (hlive : ∀ a, a ∈ s.live ↔ a ∈ s'.live) : bs = cs := by
  refine hI.canonical.eq_of_live (by norm_num) hI'.canonical fun b hb => ?_
  rw [hI.live b hb, hI'.live b hb]
  simp only [hlive]

/-- A `kmalloc` that is undone at once restores the block list. -/
theorem HeapInv.kmalloc_kfree {s : HeapSys} {bs : List Block} (hI : HeapInv s bs) (hf : heapFuel ≤ fuel)
    (who who' : Caller) (n : UInt32) :
    ∃ p h, kmalloc (who.withFuel fuel) n s.heap = .ok (p, h) ∧
      (p ≠ 0 → ∃ h', kfree (who'.withFuel fuel) p h = .ok h' ∧ BlocksFrom h'.mem heapStart bs) := by
  obtain ⟨t, ds, ht, hIt, -⟩ := kmallocStep_inv hI hf who n
  obtain ⟨⟨p, h⟩, hk, hst⟩ := bind_eq_ok.mp ht
  refine ⟨p, h, hk, fun hp0 => ?_⟩
  simp only [if_neg hp0, pure_eq_ok, Except.ok.injEq] at hst
  subst hst
  -- the new allocation is the first one held, and freeing it leaves the old ones
  set a : UInt32 × UInt32 := (p, (header h.mem (p - sizeofHeader)).size) with ha
  obtain ⟨u, b, hu, -, -, hIu, hlive, -⟩ := kfreeStep_inv hIt hf who' (a := a) (by simp)
  have hmem : p ∈ ((a :: s.live).map Prod.fst) := by simp [ha]
  simp only [heapStep] at hu
  rw [if_pos hmem] at hu
  obtain ⟨h', hfr, hst⟩ := bind_eq_ok.mp hu
  refine ⟨h', hfr, ?_⟩
  have hold : ∀ x, x ∈ s.live ↔ x ∈ u.live := by
    intro x
    rw [hlive]
    simp only [List.mem_filter, List.mem_cons, decide_eq_true_eq]
    constructor
    · intro hx
      refine ⟨Or.inr hx, fun e => ?_⟩
      have := hIt.eq_of_ptr (List.mem_cons_of_mem _ hx) (List.mem_cons_self ..) e
      exact (List.nodup_cons.mp hIt.nodup).1 (this ▸ hx)
    · rintro ⟨rfl | hx, hne⟩
      · exact absurd rfl hne
      · exact hx
  have hbl := hIu.blocks
  rw [← hI.eq_of_live hIu hold] at hbl
  have : u.heap = h' := by
    simp only [pure_eq_ok, Except.ok.injEq] at hst
    rw [← hst]
  rw [← this]
  exact hbl

/-- **The block list depends on the live allocations only.** Two runs that end with the same
allocations end with the same block list; a `kmalloc` that is undone at once leaves no trace in it;
and when nothing is allocated any more it is the list that `init_heap` built. -/
theorem heap_historyIndependent (hf : heapFuel ≤ fuel) (m m' : Mem) (ops ops' : List HeapOp) :
    ∃ s s' bs, run (heapStep fuel) (bootHeap m) ops = .ok s ∧
      run (heapStep fuel) (bootHeap m') ops' = .ok s' ∧ BlocksFrom s.heap.mem heapStart bs ∧
      ((∀ a, a ∈ s.live ↔ a ∈ s'.live) → BlocksFrom s'.heap.mem heapStart bs) ∧
      (∀ (who who' : Caller) (n : UInt32), ∃ p h, kmalloc (who.withFuel fuel) n s.heap = .ok (p, h) ∧
        (p ≠ 0 → ∃ h', kfree (who'.withFuel fuel) p h = .ok h' ∧ BlocksFrom h'.mem heapStart bs)) ∧
      (s.live = [] → bs = initialBlocks) := by
  obtain ⟨s, hr, bs, hI⟩ := heapRun_inv hf m ops
  obtain ⟨s', hr', cs, hI'⟩ := heapRun_inv hf m' ops'
  refine ⟨s, s', bs, hr, hr', hI.blocks, fun hlive => ?_, fun who who' n => ?_, fun hlive => ?_⟩
  · rw [hI.eq_of_live hI' hlive]
    exact hI'.blocks
  · exact hI.kmalloc_kfree hf who who' n
  · exact hI.eq_of_live (bootHeap_inv m) (by simp [hlive, bootHeap])

theorem heap_historyIndependent_two_orders :
    ∃ s s' bs, run (heapStep heapFuel) (bootHeap zeroMem)
        [.kmalloc (soloCaller .mainTask) 100, .kfree (soloCaller .mainTask) 0x0100000C] = .ok s ∧
      run (heapStep heapFuel) (bootHeap zeroMem) [] = .ok s' ∧ BlocksFrom s.heap.mem heapStart bs ∧
      ((∀ a, a ∈ s.live ↔ a ∈ s'.live) → BlocksFrom s'.heap.mem heapStart bs) ∧
      (∀ (who who' : Caller) (n : UInt32), ∃ p h,
        kmalloc (who.withFuel heapFuel) n s.heap = .ok (p, h) ∧
        (p ≠ 0 → ∃ h', kfree (who'.withFuel heapFuel) p h = .ok h' ∧ BlocksFrom h'.mem heapStart bs)) ∧
      (s.live = [] → bs = initialBlocks) :=
  heap_historyIndependent le_rfl _ _ _ _

end History

end RtosKernel
