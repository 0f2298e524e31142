import RtosKernel.Proofs.HeapMemoryProofs

/-!
# Proofs: the heap over whole runs

`HeapInv` is the invariant of the heap with its clients: the memory holds a canonical block list of
the arena, whose live blocks are exactly the allocations that clients hold. Each operation returns
and keeps it (`heapStep_inv`), and stores nothing into a block that stays live (`heapStep_untouched`).
The properties of runs follow: well-formedness, isolation of the allocations from each other, and
independence of the history.
-/

namespace RtosKernel

open Lib Lib.Mem Lib.BlockList

/-- The start of the arena, as a number. -/
abbrev arenaLo : ℕ := heapStart.toNat

/-- The end of the arena. -/
abbrev arenaHi : ℕ := heapStart.toNat + heapSize.toNat

theorem arenaLo_eq : arenaLo = 16777216 := rfl
theorem arenaHi_eq : arenaHi = 20971520 := rfl

/-- A budget that is enough for every loop of the heap. -/
def heapFuel : ℕ := heapSize.toNat

/-- The allocation `a` is the live block `b`. -/
def IsBlock (a : UInt32 × UInt32) (b : Block) : Prop :=
  b.free = false ∧ a.1.toNat = b.addr + 12 ∧ a.2.toNat = b.size

/-- The invariant of the heap and its clients, with the block list `bs` of the memory. -/
structure HeapInv (s : HeapSys) (bs : List Block) : Prop where
  blocks : BlocksFrom s.heap.mem heapStart bs
  canonical : Canonical 12 4 arenaLo arenaHi bs
  mutex : s.heap.mutex = mutexInit
  live : ∀ b : Block, b.free = false → (b ∈ bs ↔ ∃ a ∈ s.live, IsBlock a b)
  held : ∀ a ∈ s.live, ∃ b ∈ bs, IsBlock a b
  nodup : s.live.Nodup

section Operations

variable {bs : List Block} {h : Heap} {c : Caller}

theorem length_lt_fuel (hc : Canonical 12 4 arenaLo arenaHi bs) {fuel : ℕ} (hf : heapFuel ≤ fuel) :
    bs.length < fuel := by
  have h1 := hc.tiles.length_le
  have h2 : heapFuel = 4194304 := rfl
  rw [arenaLo_eq, arenaHi_eq] at h1
  omega

theorem roundSize_aligned (size : UInt32) : 4 ∣ (roundSize size).toNat := by
  have h4 : (size % 4).toNat = size.toNat % 4 := by simp
  have hlt := size.toNat_lt
  unfold roundSize
  split_ifs with h
  · have hne : size.toNat % 4 ≠ 0 := fun he => h (UInt32.toNat_inj.mp (by simpa [h4] using he))
    have hle : size % 4 ≤ 4 := by rw [UInt32.le_iff_toNat_le, h4]; show size.toNat % 4 ≤ 4; omega
    rw [UInt32.toNat_add, UInt32.toNat_sub_of_le _ _ hle, h4]
    have : (4 : UInt32).toNat = 4 := rfl
    omega
  · have he : size % 4 = 0 := by simpa using h
    have : size.toNat % 4 = 0 := by rw [← h4, he]; rfl
    exact Nat.dvd_of_mod_eq_zero this

/-- The free mutex of the heap is taken at once. -/
theorem heap_lock (hm : h.mutex = mutexInit) (hf : heapFuel ≤ c.fuel) :
    mutexLock c h.mutex = .ok (heldBy c.task) := by
  have hfuel : heapFuel = 4194304 := rfl
  exact mutexLock_init c hm (by omega)

/-- **`kmalloc` returns**: null with the heap unchanged if no free block fits, and otherwise the payload of
the first one that does, with nothing stored outside that block. -/
theorem kmalloc_firstFit (hb : BlocksFrom h.mem heapStart bs) (hc : Canonical 12 4 arenaLo arenaHi bs)
    (hm : h.mutex = mutexInit) (hf : heapFuel ≤ c.fuel) {size : UInt32} (h0 : size ≠ 0) :
    (firstFit 12 16 (roundSize size).toNat bs = none ∧ kmalloc c size h = .ok (0, h)) ∨
    ∃ b ∈ bs, ∃ p h' cs, firstFit 12 16 (roundSize size).toNat bs = some (b.addr, cs) ∧ b.free = true ∧
      kmalloc c size h = .ok (p, h') ∧ p.toNat = b.addr + 12 ∧ BlocksFrom h'.mem heapStart cs ∧
      h'.mutex = mutexInit ∧ WritesIn (InBlock b) h.mem h'.mem := by
  have hlock := heap_lock hm hf
  obtain ⟨hnone, hsome⟩ := kmallocLoop_spec (roundSize size) hb hc.tiles
    (by rw [arenaHi_eq]; norm_num) (length_lt_fuel hc hf)
  cases hfit : firstFit 12 16 (roundSize size).toNat bs with
  | none =>
    refine Or.inl ⟨rfl, ?_⟩
    obtain ⟨m, mx⟩ := h
    obtain rfl : mx = mutexInit := hm
    simp [kmalloc, h0, hlock, hnone hfit]
  | some r =>
    obtain ⟨a, cs⟩ := r
    obtain ⟨q, m', hl, hq, hblk, b, hbs, hbf, rfl, hw⟩ := hsome a cs hfit
    exact Or.inr ⟨b, hbs, q, { mem := m', mutex := mutexInit }, cs, rfl, hbf,
      by simp [kmalloc, h0, hlock, hl], hq, hblk, rfl, hw⟩

/-- The same with what the block lists and the stores have in common in the two cases. -/
theorem kmalloc_spec (hb : BlocksFrom h.mem heapStart bs) (hc : Canonical 12 4 arenaLo arenaHi bs)
    (hm : h.mutex = mutexInit) (hf : heapFuel ≤ c.fuel) (size : UInt32) :
    ∃ p h' cs, kmalloc c size h = .ok (p, h') ∧ BlocksFrom h'.mem heapStart cs ∧
      Canonical 12 4 arenaLo arenaHi cs ∧ h'.mutex = mutexInit ∧ WritesIn (InFree bs) h.mem h'.mem ∧
      ((p = 0 ∧ h' = h ∧ cs = bs) ∨
        (∃ a g, p.toNat = a + 12 ∧ firstFit 12 16 (roundSize size).toNat bs = some (a, cs) ∧
          ∀ x : Block, x.free = false → (x ∈ cs ↔ x ∈ bs ∨ x = ⟨a, g, false⟩))) := by
  by_cases hz : size = 0
  · exact ⟨0, h, bs, by simp [kmalloc, hz], hb, hc, hm, WritesIn.refl _ _, Or.inl ⟨rfl, rfl, rfl⟩⟩
  · rcases kmalloc_firstFit hb hc hm hf hz with ⟨-, hk⟩ | ⟨b, hbs, p, h', cs, hfit, hbf, hk, hp, hblk, hmx, hw⟩
    · exact ⟨0, h, bs, hk, hb, hc, hm, WritesIn.refl _ _, Or.inl ⟨rfl, rfl, rfl⟩⟩
    · obtain ⟨g, hg⟩ := mem_firstFit_live hfit
      exact ⟨p, h', cs, hk, hblk, hc.firstFit (by norm_num) (roundSize_aligned size) hfit, hmx,
        hw.mono fun x hx => ⟨b, hbs, hbf, hx⟩, Or.inr ⟨b.addr, g, hp, hfit, hg⟩⟩

/-- `kfree` joins the free blocks of the list that it finds after its first store. -/
theorem kfree_marked {cs : List Block} {p : UInt32} (hp0 : p ≠ 0)
    (hmark : BlocksFrom (setIsFree h.mem (p - sizeofHeader) 1) heapStart cs) (ht : Tiles 12 arenaLo arenaHi cs)
    (hm : h.mutex = mutexInit) (hf : heapFuel ≤ c.fuel) (hlen : cs.length < c.fuel) :
    ∃ h', kfree c p h = .ok h' ∧ BlocksFrom h'.mem heapStart (coalesce 12 cs) ∧ h'.mutex = mutexInit ∧
      WritesIn (InFreeLinks cs) (setIsFree h.mem (p - sizeofHeader) 1) h'.mem := by
  have hlock := heap_lock hm hf
  obtain ⟨m', hl, hblk, hw⟩ := mergeLoop_spec hmark ht (by rw [arenaHi_eq]; norm_num) hlen
  exact ⟨{ mem := m', mutex := mutexInit }, by simp [kfree, hp0, hlock, hl], hblk, rfl, hw⟩

/-- **`kfree` of a live block returns**, with the block released and the free blocks joined. -/
theorem kfree_spec (hb : BlocksFrom h.mem heapStart bs) (hc : Canonical 12 4 arenaLo arenaHi bs)
    (hm : h.mutex = mutexInit) (hf : heapFuel ≤ c.fuel) {p : UInt32} {b : Block} (hbs : b ∈ bs)
    (hp : p.toNat = b.addr + 12) :
    ∃ h', kfree c p h = .ok h' ∧ BlocksFrom h'.mem heapStart (coalesce 12 (release b.addr bs)) ∧
      h'.mutex = mutexInit ∧ WritesIn (InFree (release b.addr bs)) h.mem h'.mem := by
  have hp0 : p ≠ 0 := fun e => by rw [e] at hp; simp at hp
  have hsub : (p - sizeofHeader).toNat = b.addr := by
    rw [UInt32.toNat_sub_of_le _ _ (by rw [UInt32.le_iff_toNat_le, sizeofHeader_toNat]; omega),
      sizeofHeader_toNat]
    omega
  have hhi : arenaHi + 28 ≤ 2 ^ 32 := by rw [arenaHi_eq]; norm_num
  have hrel := release_spec hb hc.tiles hhi (p := p - sizeofHeader) ⟨b, hbs, hsub.symm⟩
  rw [hsub] at hrel
  have hlen : (release b.addr bs).length < c.fuel := by
    rw [release, List.length_map]
    exact length_lt_fuel hc hf
  obtain ⟨h', hk, hblk, hmx, hw⟩ := kfree_marked hp0 hrel (tiles_release b.addr hc.tiles) hm hf hlen
  refine ⟨h', hk, hblk, hmx, ?_⟩
  refine WritesIn.trans ((setIsFree_writes ?_).mono fun x hx => ?_) (hw.mono fun x => InFreeLinks.inFree)
  · have := (hc.tiles.bounds hbs).2
    unfold HeaderFits
    omega
  · refine ⟨⟨b.addr, b.size, true⟩, List.mem_map.mpr ⟨b, hbs, by simp⟩, rfl, ?_⟩
    unfold InHeader at hx
    simp only
    omega

theorem heapGetUsed_spec (hb : BlocksFrom h.mem heapStart bs)
    (hc : Canonical 12 4 arenaLo arenaHi bs) (hm : h.mutex = mutexInit) (hf : heapFuel ≤ c.fuel) :
    ∃ u, heapGetUsed c h = .ok (u, h) ∧ u.toNat = usedBytes bs := by
  have hlock := heap_lock hm hf
  have hle := usedBytes_le hc.tiles
  rw [arenaHi_eq] at hle
  have h0 : (0 : UInt32).toNat + usedBytes bs < 2 ^ 32 := by simp; omega
  obtain ⟨u, hl, hu⟩ := usedLoop_spec hb h0 (length_lt_fuel hc hf)
  refine ⟨u, ?_, by simpa using hu⟩
  obtain ⟨m, mx⟩ := h
  obtain rfl : mx = mutexInit := hm
  simp [heapGetUsed, hlock, hl]

end Operations

/-! ## Steps -/

section Steps

variable {s s' : HeapSys} {bs : List Block} {fuel : ℕ}

theorem payload_sub_toNat {p : UInt32} {n : ℕ} (hp : p.toNat = n + 12) :
    (p - sizeofHeader).toNat = n := by
  rw [UInt32.toNat_sub_of_le _ _ (by rw [UInt32.le_iff_toNat_le, sizeofHeader_toNat]; omega),
    sizeofHeader_toNat]
  omega

/-- An allocation is determined by its address. -/
theorem HeapInv.eq_of_ptr (hI : HeapInv s bs) {a a' : UInt32 × UInt32} (ha : a ∈ s.live)
    (ha' : a' ∈ s.live) (he : a.1 = a'.1) : a = a' := by
  obtain ⟨b, hb, -, h1, h2⟩ := hI.held a ha
  obtain ⟨b', hb', -, h1', h2'⟩ := hI.held a' ha'
  have hbb : b = b' := by
    refine hI.canonical.tiles.eq_of_addr (by norm_num) hb hb' ?_
    rw [he, h1'] at h1
    omega
  refine Prod.ext he (UInt32.toNat_inj.mp ?_)
  rw [h2, h2', hbb]

theorem kmallocStep_inv (hI : HeapInv s bs) (hf : heapFuel ≤ fuel) (who : Caller) (size : UInt32) :
    ∃ s' cs, heapStep fuel s (.kmalloc who size) = .ok s' ∧ HeapInv s' cs ∧
      WritesIn (InFree bs) s.heap.mem s'.heap.mem ∧ ∀ a ∈ s.live, a ∈ s'.live := by
  obtain ⟨p, h', cs, hk, hblk, hcan, hmx, hw, hres⟩ :=
    kmalloc_spec (c := who.withFuel fuel) hI.blocks hI.canonical hI.mutex hf size
  rcases hres with ⟨rfl, rfl, rfl⟩ | ⟨a, g, hp, hfit, hlive⟩
  · exact ⟨s, cs, by simp [heapStep, hk], hI, hw, fun _ h => h⟩
  · have hp0 : p ≠ 0 := fun e => by rw [e] at hp; simp at hp
    have hnew : (⟨a, g, false⟩ : Block) ∈ cs := (hlive _ rfl).mpr (Or.inr rfl)
    have hsz : (header h'.mem (p - sizeofHeader)).size.toNat = g :=
      hblk.header_size hnew (payload_sub_toNat hp)
    set sz := (header h'.mem (p - sizeofHeader)).size with hszd
    -- the new allocation is the new block, and no other block
    have hnewBlock : ∀ b : Block, b.free = false → (IsBlock (p, sz) b ↔ b = ⟨a, g, false⟩) := by
      intro b hb
      constructor
      · rintro ⟨-, h1, h2⟩
        cases b
        simp only [Block.mk.injEq] at *
        exact ⟨by omega, by omega, hb⟩
      · rintro rfl
        exact ⟨rfl, hp, hsz⟩
    refine ⟨{ heap := h', live := (p, sz) :: s.live }, cs, by simp [heapStep, hk, hp0, hszd], ?_, hw,
      fun _ h => List.mem_cons_of_mem _ h⟩
    refine ⟨hblk, hcan, hmx, fun b hb => ?_, fun x hx => ?_, ?_⟩
    · rw [hlive b hb, hI.live b hb]
      simp only [List.mem_cons, exists_eq_or_imp, hnewBlock b hb]
      exact or_comm
    · rcases List.mem_cons.mp hx with rfl | hx
      · exact ⟨_, hnew, (hnewBlock _ rfl).mpr rfl⟩
      · obtain ⟨b, hb, hbx⟩ := hI.held x hx
        exact ⟨b, (hlive b hbx.1).mpr (Or.inl hb), hbx⟩
    · -- the block taken was free, so it was nobody's
      refine List.nodup_cons.mpr ⟨fun hm => ?_, hI.nodup⟩
      obtain ⟨b, hb, hbf, h1, -⟩ := hI.held _ hm
      obtain ⟨pre, b0, post, hbs, hb0, -, ha0, -, -⟩ := firstFit_some hfit
      have hb0m : b0 ∈ bs := by rw [hbs]; simp
      have : b = b0 := by
        refine hI.canonical.tiles.eq_of_addr (by norm_num) hb hb0m ?_
        simp only at h1
        omega
      rw [this, hb0] at hbf
      exact absurd hbf (by simp)

theorem kfreeStep_inv (hI : HeapInv s bs) (hf : heapFuel ≤ fuel) (who : Caller)
    {a : UInt32 × UInt32} (ha : a ∈ s.live) :
    ∃ s' b, heapStep fuel s (.kfree who a.1) = .ok s' ∧ b ∈ bs ∧ IsBlock a b ∧
      HeapInv s' (coalesce 12 (release b.addr bs)) ∧
      s'.live = s.live.filter (fun x => x.1 ≠ a.1) ∧
      WritesIn (InFree (release b.addr bs)) s.heap.mem s'.heap.mem := by
  obtain ⟨b, hb, hbf, h1, h2⟩ := hI.held a ha
  obtain ⟨h', hk, hblk, hmx, hw⟩ :=
    kfree_spec (c := who.withFuel fuel) hI.blocks hI.canonical hI.mutex hf hb h1
  have hmem : a.1 ∈ s.live.map Prod.fst := List.mem_map_of_mem ha
  refine ⟨{ heap := h', live := s.live.filter fun x => x.1 ≠ a.1 }, b,
    by simp only [heapStep, if_pos hmem, hk, ok_bind, pure_eq_ok], hb, ⟨hbf, h1, h2⟩, ?_, rfl, hw⟩
  have hne : ∀ x ∈ s.live, ∀ c, IsBlock x c → (x.1 ≠ a.1 ↔ c.addr ≠ b.addr) := by
    rintro x - c ⟨-, hx, -⟩
    rw [ne_eq, ← UInt32.toNat_inj]
    omega
  refine ⟨hblk, hI.canonical.free (by norm_num) b.addr, hmx, fun c hc => ?_, fun x hx => ?_,
    hI.nodup.filter _⟩
  · rw [mem_coalesce_live hc, mem_release_live hc, hI.live c hc]
    constructor
    · rintro ⟨⟨x, hx, hxc⟩, hcb⟩
      exact ⟨x, List.mem_filter.mpr ⟨hx, by simpa using (hne x hx c hxc).mpr hcb⟩, hxc⟩
    · rintro ⟨x, hx, hxc⟩
      obtain ⟨hx1, hx2⟩ := List.mem_filter.mp hx
      exact ⟨⟨x, hx1, hxc⟩, (hne x hx1 c hxc).mp (by simpa using hx2)⟩
  · obtain ⟨hx1, hx2⟩ := List.mem_filter.mp hx
    obtain ⟨c, hc, hxc⟩ := hI.held x hx1
    refine ⟨c, ?_, hxc⟩
    rw [mem_coalesce_live hxc.1, mem_release_live hxc.1]
    exact ⟨hc, (hne x hx1 c hxc).mp (by simpa using hx2)⟩

/-- A client's store into its own payload keeps the block list. -/
theorem writeStep_inv (hI : HeapInv s bs) (ptr off : UInt32) (v : UInt8) :
    ∃ s', heapStep fuel s (.write ptr off v) = .ok s' ∧ HeapInv s' bs := by
  by_cases hany : (s.live.any fun a => a.1 = ptr ∧ off < a.2) = true
  · refine ⟨_, by simp only [heapStep, if_pos hany]; rfl, ?_⟩
    obtain ⟨a, ha, hcond⟩ := List.any_eq_true.mp hany
    obtain ⟨rfl, hoff⟩ := of_decide_eq_true hcond
    obtain ⟨b, hb, hbf, h1, h2⟩ := hI.held a ha
    have hlt : off.toNat < b.size := by rw [← h2]; exact UInt32.lt_iff_toNat_lt.mp hoff
    have hbd := (hI.canonical.tiles.bounds hb).2
    rw [arenaHi_eq] at hbd
    have hadd : (a.1 + off).toNat = b.addr + 12 + off.toNat := by
      rw [UInt32.toNat_add]
      omega
    have hw : WritesIn (fun x => b.addr + 12 ≤ x ∧ x < b.addr + 12 + b.size) s.heap.mem
        (s.heap.mem.store8 (a.1 + off) v) := WritesIn.store8 _ v ⟨by omega, by omega⟩
    refine ⟨hI.blocks.congr hI.canonical.tiles (by rw [arenaHi_eq]; norm_num) fun c hc => ?_,
      hI.canonical, hI.mutex, hI.live, hI.held, hI.nodup⟩
    refine hw.agree fun x hx1 hx2 hx3 => ?_
    by_cases hcb : c = b
    · subst hcb
      omega
    · have := hI.canonical.tiles.disjoint hc hb hcb
      omega
  · exact ⟨s, by simp only [heapStep, if_neg hany]; rfl, hI⟩

/-- **Every operation returns and keeps the invariant.** -/
theorem heapStep_inv (hf : heapFuel ≤ fuel) (op : HeapOp) (hI : ∃ bs, HeapInv s bs) :
    ∃ s', heapStep fuel s op = .ok s' ∧ ∃ cs, HeapInv s' cs := by
  obtain ⟨bs, hI⟩ := hI
  cases op with
  | kmalloc who size =>
    obtain ⟨s', cs, hs, hI', -⟩ := kmallocStep_inv hI hf who size
    exact ⟨s', hs, cs, hI'⟩
  | kfree who ptr =>
    by_cases hmem : ptr ∈ s.live.map Prod.fst
    · obtain ⟨a, ha, rfl⟩ := List.mem_map.mp hmem
      obtain ⟨s', b, hs, -, -, hI', -⟩ := kfreeStep_inv hI hf who ha
      exact ⟨s', hs, _, hI'⟩
    · exact ⟨s, by simp only [heapStep, if_neg hmem]; rfl, bs, hI⟩
  | write ptr off v =>
    obtain ⟨s', hs, hI'⟩ := writeStep_inv hI ptr off v
    exact ⟨s', hs, bs, hI'⟩

/-- The block list that `init_heap` builds. -/
def initialBlocks : List Block := [⟨arenaLo, heapSize.toNat - 12, true⟩]

theorem bootHeap_inv (m : Mem) : HeapInv (bootHeap m) initialBlocks := by
  have hfit : HeaderFits heapStart := by unfold HeaderFits; decide
  have hh : header (bootHeap m).heap.mem heapStart = ⟨heapSize - sizeofHeader, 1, 0⟩ := by
    simp only [bootHeap, initHeap]
    rw [header_setNext hfit, header_setIsFree hfit, header_setSize hfit]
  refine ⟨⟨by decide, rfl, ?_, ?_, ?_⟩, ⟨⟨rfl, ?_⟩, ?_, List.IsChain.singleton _⟩, rfl, ?_, ?_,
    List.nodup_nil⟩
  · rw [hh]
    rfl
  · rw [hh]
    rfl
  · rw [hh]
    rfl
  · rfl
  · intro b hb
    rw [List.mem_singleton.mp hb]
    decide
  · intro b hb
    constructor
    · intro hm
      rw [List.mem_singleton.mp hm] at hb
      exact absurd hb (by simp)
    · rintro ⟨a, ha, -⟩
      exact absurd ha (by simp [bootHeap])
  · intro a ha
    exact absurd ha (by simp [bootHeap])

/-- **The invariant holds after every run.** -/
theorem heapRun_inv (hf : heapFuel ≤ fuel) (m : Mem) (ops : List HeapOp) :
    ∃ s, run (heapStep fuel) (bootHeap m) ops = .ok s ∧ ∃ bs, HeapInv s bs :=
  run_total ⟨_, bootHeap_inv m⟩ (fun _ op => heapStep_inv hf op) ops

end Steps

end RtosKernel
