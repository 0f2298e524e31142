import RtosKernel.Syscall
import RtosKernel.Proofs.HeapRunProofs

/-!
# Proofs: the heap behind system calls

`SYS_FREE` stores a 1 in front of whatever address it is given. As long as that store hits no header of the
block list, or the flag of the block that the address names, the blocks keep tiling the arena and
the blocks that are in use stay in use (`userHeapStep_inv`); a store into another header breaks the list.
-/

namespace RtosKernel

open Lib Lib.Mem Lib.BlockList

/-- The blocks tile the arena, and every pointer that is held is the payload of a block in use. -/
def HeapIntact (s : UserHeap) : Prop :=
  ∃ bs, BlocksFrom s.sys.heap.mem heapStart bs ∧ Tiles 12 arenaLo arenaHi bs ∧
    ∀ p ∈ s.live, ∃ b ∈ bs, b.free = false ∧ p.toNat = b.addr + 12

/-- The word that `kfree(ptr)` sets to 1 changes no byte in the headers of the blocks, apart from that of
the block that `ptr` names. -/
def SparesHeaders (m : Mem) (ptr : UInt32) (bs : List Block) : Prop :=
  ∀ b ∈ bs, b.addr ≠ (ptr - sizeofHeader).toNat → ∀ i < 4,
    let x := ptr - sizeofHeader + 4 + UInt32.ofNat i
    b.addr ≤ x.toNat → x.toNat < b.addr + 12 → m.byte x = byteOf 1 i

/-- The freed pointer is null, or the store of `kfree` spares the headers of the block list. -/
def FreeSpares (s : UserHeap) : UserHeapOp → Prop
  | .malloc .. => True
  | .free _ ptr _ => ptr = 0 ∨ ∀ bs, BlocksFrom s.sys.heap.mem heapStart bs → Tiles 12 arenaLo arenaHi bs →
      SparesHeaders s.sys.heap.mem ptr bs

/-- The invariant of the heap behind system calls, with the block list. -/
structure UserHeapInv (s : UserHeap) (bs : List Block) : Prop where
  blocks : BlocksFrom s.sys.heap.mem heapStart bs
  canonical : Canonical 12 4 arenaLo arenaHi bs
  mutex : s.sys.heap.mutex = mutexInit
  held : ∀ p ∈ s.live, ∃ b ∈ bs, b.free = false ∧ p.toNat = b.addr + 12

theorem UserHeapInv.intact {s : UserHeap} {bs : List Block} (h : UserHeapInv s bs) : HeapIntact s :=
  ⟨bs, h.blocks, h.canonical.tiles, h.held⟩

section Steps

variable {s : UserHeap} {bs : List Block} {fuel : ℕ}

/-- Where the store changes no byte of a header, the header agrees. -/
theorem SparesHeaders.agree {m : Mem} {ptr : UInt32} (h : SparesHeaders m ptr bs) {b : Block} (hb : b ∈ bs)
    (hne : b.addr ≠ (ptr - sizeofHeader).toNat) :
    Agree m (setIsFree m (ptr - sizeofHeader) 1) b.addr (b.addr + 12) := by
  intro x hlo hhi
  rw [setIsFree, byte_store32]
  have hbyte := h b hb hne
  split_ifs with h3 h2 h1 h0
  · rw [h3, ← hbyte 3 (by decide) (by rwa [h3] at hlo) (by rwa [h3] at hhi)]
    rfl
  · rw [h2, ← hbyte 2 (by decide) (by rwa [h2] at hlo) (by rwa [h2] at hhi)]
    rfl
  · rw [h1, ← hbyte 1 (by decide) (by rwa [h1] at hlo) (by rwa [h1] at hhi)]
    rfl
  · have hx : ptr - sizeofHeader + 4 + UInt32.ofNat 0 = x := by rw [h0]; exact UInt32.add_zero _
    rw [← hbyte 0 (by decide) (by rw [hx]; exact hlo) (by rw [hx]; exact hhi), hx]
  · rfl

theorem mallocCall_inv (h : UserHeapInv s bs) (hf : heapFuel ≤ fuel) (env : SysEnv) (arg1 arg2 : UInt32) :
    ∃ s' cs, userHeapStep fuel s (.malloc env arg1 arg2) = .ok s' ∧ UserHeapInv s' cs := by
  obtain ⟨p, h', cs, hk, hblk, hcan, hmx, -, hres⟩ :=
    kmalloc_spec (c := env.caller.withFuel fuel) h.blocks h.canonical h.mutex hf arg1
  have hcall : syscallHandler (env.withFuel fuel) sysMalloc arg1 arg2 s.sys =
      .ok (p, { s.sys with heap := h' }) := by
    have he : ofStop (kmalloc (env.withFuel fuel).caller arg1 s.sys.heap) = .ok (p, h') := by
      rw [ofStop, SysEnv.withFuel, hk]
      rfl
    simp only [syscallHandler, sysMalloc, sysWrite, sysGetticks, he]
    rfl
  refine ⟨{ sys := { s.sys with heap := h' }, live := if p = 0 then s.live else p :: s.live }, cs, ?_, ?_⟩
  · rw [userHeapStep, hcall]
    rfl
  refine ⟨hblk, hcan, hmx, fun q hq => ?_⟩
  rcases hres with ⟨rfl, rfl, rfl⟩ | ⟨a, g, hp, -, hlive⟩
  · exact h.held q (by simpa using hq)
  · have hp0 : p ≠ 0 := fun e => by rw [e] at hp; simp at hp
    simp only [if_neg hp0] at hq
    rcases List.mem_cons.mp hq with rfl | hq
    · exact ⟨⟨a, g, false⟩, (hlive _ rfl).mpr (.inr rfl), rfl, hp⟩
    · obtain ⟨b, hb, hbf, hqb⟩ := h.held q hq
      exact ⟨b, (hlive b hbf).mpr (.inl hb), hbf, hqb⟩

/-- The block that the freed pointer names is released, and nothing else. -/
theorem kfree_user {h : Heap} {c : Caller} {ptr : UInt32} (hb : BlocksFrom h.mem heapStart bs)
    (hc : Canonical 12 4 arenaLo arenaHi bs) (hm : h.mutex = mutexInit) (hf : heapFuel ≤ c.fuel) (hp0 : ptr ≠ 0)
    (hspare : SparesHeaders h.mem ptr bs) :
    ∃ h' cs, kfree c ptr h = .ok h' ∧ BlocksFrom h'.mem heapStart cs ∧ Canonical 12 4 arenaLo arenaHi cs ∧
      h'.mutex = mutexInit ∧ ∀ b : Block, b.free = false → b ∈ bs → b.addr + 12 ≠ ptr.toNat → b ∈ cs := by
  have hhi : arenaHi + 28 ≤ 2 ^ 32 := by rw [arenaHi_eq]; norm_num
  by_cases hnamed : ∃ b ∈ bs, b.addr = (ptr - sizeofHeader).toNat
  · obtain ⟨r, hr, hra⟩ := hnamed
    have hbd := hc.tiles.bounds hr
    have hptr : ptr.toNat = r.addr + 12 := by
      rw [hra, UInt32.toNat_sub, sizeofHeader_toNat]
      have := ptr.toNat_lt
      rw [hra, UInt32.toNat_sub, sizeofHeader_toNat, arenaHi_eq, arenaLo_eq] at hbd
      omega
    obtain ⟨h', hk, hblk, hmx, -⟩ := kfree_spec hb hc hm hf hr hptr
    refine ⟨h', _, hk, hblk, hc.free (by norm_num) r.addr, hmx, fun b hbf hbm hne => ?_⟩
    rw [mem_coalesce_live hbf, mem_release_live hbf]
    exact ⟨hbm, by omega⟩
  · have hmark : BlocksFrom (setIsFree h.mem (ptr - sizeofHeader) 1) heapStart bs :=
      hb.congr hc.tiles (by omega) fun b hbm => hspare.agree hbm fun he => hnamed ⟨b, hbm, he⟩
    obtain ⟨h', hk, hblk, hmx, -⟩ := kfree_marked hp0 hmark hc.tiles hm hf (length_lt_fuel hc hf)
    refine ⟨h', _, hk, hblk, ?_, hmx, fun b hbf hbm _ => (mem_coalesce_live hbf).mpr hbm⟩
    exact ⟨coalesce_tiles hc.tiles, coalesce_aligned (by norm_num) hc.aligned, coalesce_noFreePair 12 bs⟩

theorem freeCall_inv (h : UserHeapInv s bs) (hf : heapFuel ≤ fuel) {env : SysEnv} {ptr arg2 : UInt32}
    (hspare : FreeSpares s (.free env ptr arg2)) :
    ∃ s' cs, userHeapStep fuel s (.free env ptr arg2) = .ok s' ∧ UserHeapInv s' cs := by
  have hcall (h' : Heap) (hk : kfree (env.caller.withFuel fuel) ptr s.sys.heap = .ok h') :
      userHeapStep fuel s (.free env ptr arg2) =
        .ok { sys := { s.sys with heap := h' }, live := s.live.filter fun p => p ≠ ptr } := by
    have he : ofStop (kfree (env.withFuel fuel).caller ptr s.sys.heap) = .ok h' := by
      rw [ofStop, SysEnv.withFuel, hk]
      rfl
    simp only [userHeapStep, syscallHandler, sysFree, sysMalloc, sysWrite, sysGetticks, he]
    rfl
  by_cases hp0 : ptr = 0
  · refine ⟨_, bs, hcall s.sys.heap (by rw [kfree, if_pos hp0]; rfl), h.blocks, h.canonical, h.mutex,
      fun q hq => ?_⟩
    exact h.held q (List.mem_filter.mp hq).1
  · have hspares := (hspare.resolve_left hp0) bs h.blocks h.canonical.tiles
    obtain ⟨h', cs, hk, hblk, hcan, hmx, hkeep⟩ :=
      kfree_user (c := env.caller.withFuel fuel) h.blocks h.canonical h.mutex hf hp0 hspares
    refine ⟨_, cs, hcall h' hk, hblk, hcan, hmx, fun q hq => ?_⟩
    obtain ⟨hql, hqne⟩ := List.mem_filter.mp hq
    obtain ⟨b, hb, hbf, hqb⟩ := h.held q hql
    refine ⟨b, hkeep b hbf hb fun he => ?_, hbf, hqb⟩
    exact absurd (UInt32.toNat_inj.mp (hqb.trans he)) (by simpa using hqne)

theorem userHeapStep_inv (hf : heapFuel ≤ fuel) {op : UserHeapOp} (h : ∃ bs, UserHeapInv s bs)
    (hC : FreeSpares s op) :
    ∃ s', userHeapStep fuel s op = .ok s' ∧ ∃ cs, UserHeapInv s' cs := by
  obtain ⟨bs, h⟩ := h
  cases op with
  | malloc env arg1 arg2 =>
    obtain ⟨s', cs, hs, h'⟩ := mallocCall_inv h hf env arg1 arg2
    exact ⟨s', hs, cs, h'⟩
  | free env ptr arg2 =>
    obtain ⟨s', cs, hs, h'⟩ := freeCall_inv h hf hC
    exact ⟨s', hs, cs, h'⟩

end Steps

theorem bootUserHeap_inv (s₀ : SysState) : UserHeapInv (bootUserHeap s₀) initialBlocks where
  blocks := (bootHeap_inv s₀.heap.mem).blocks
  canonical := (bootHeap_inv s₀.heap.mem).canonical
  mutex := rfl
  held _ hp := absurd hp List.not_mem_nil

/-- **In every run of `SYS_MALLOC` and `SYS_FREE` calls with any arguments, in which no `SYS_FREE` stores
into the header of a block that it does not name, all calls return, the blocks tile the arena, and the
blocks that are held stay in use.** -/
theorem user_heap_intact {fuel : ℕ} (hf : heapFuel ≤ fuel) (s₀ : SysState) {ops : List UserHeapOp}
    (hC : AllSteps (userHeapStep fuel) (bootUserHeap s₀) FreeSpares ops) :
    Along (userHeapStep fuel) (bootUserHeap s₀) HeapIntact ops := by
  refine along_of_allSteps (I := fun s => ∃ bs, UserHeapInv s bs) ⟨_, bootUserHeap_inv s₀⟩ ?_ ?_ hC
  · exact fun s h => h.choose_spec.intact
  · exact fun s op h hop => userHeapStep_inv hf h hop

/-- A pointer to the payload of a block, in use or not, may always be freed. -/
theorem sparesHeaders_of_block {bs : List Block} (ht : Tiles 12 arenaLo arenaHi bs) {b : Block} (hb : b ∈ bs)
    {ptr : UInt32} (hp : b.addr = (ptr - sizeofHeader).toNat) (m : Mem) : SparesHeaders m ptr bs := by
  intro c hc hne i hi x hlo hhi
  exfalso
  have hbd := (ht.bounds hb).2
  rw [arenaHi_eq] at hbd
  have hx : x.toNat = b.addr + 4 + i := by
    have h4 : (ptr - sizeofHeader + 4).toNat = b.addr + 4 := by
      rw [UInt32.toNat_add, ← hp]
      show (b.addr + 4) % 2 ^ 32 = b.addr + 4
      omega
    have hi' : (UInt32.ofNat i).toNat = i := by
      rw [UInt32.toNat_ofNat']
      omega
    show (ptr - sizeofHeader + 4 + UInt32.ofNat i).toNat = b.addr + 4 + i
    rw [UInt32.toNat_add, h4, hi']
    omega
  have hdis := ht.disjoint hb hc fun e => hne (e ▸ hp)
  omega

theorem user_heap_intact_double_free :
    heapFuel ≤ heapFuel ∧ AllSteps (userHeapStep heapFuel) (bootUserHeap (bootSys zeroMem)) FreeSpares
        [.malloc soloEnv 16 0, .free soloEnv 0x0100000C 0, .free soloEnv 0x0100000C 0] ∧
      Along (userHeapStep heapFuel) (bootUserHeap (bootSys zeroMem)) HeapIntact
        [.malloc soloEnv 16 0, .free soloEnv 0x0100000C 0, .free soloEnv 0x0100000C 0] := by
  have hfirst (s : UserHeap) : FreeSpares s (.free soloEnv 0x0100000C 0) := by
    refine .inr fun bs _ ht => ?_
    cases bs with
    | nil => exact absurd (show arenaLo = arenaHi from ht) (by decide)
    | cons b bs => exact sparesHeaders_of_block ht (List.mem_cons_self ..) (ht.1.trans (by decide)) _
  have hC : AllSteps (userHeapStep heapFuel) (bootUserHeap (bootSys zeroMem)) FreeSpares
      [.malloc soloEnv 16 0, .free soloEnv 0x0100000C 0, .free soloEnv 0x0100000C 0] :=
    allSteps_cons.mpr ⟨trivial, fun s _ => allSteps_cons.mpr ⟨hfirst s, fun t _ => allSteps_cons.mpr
      ⟨hfirst t, fun _ _ => allSteps_nil⟩⟩⟩
  exact ⟨le_rfl, hC, user_heap_intact le_rfl _ hC⟩

/-- The pointer four bytes before the only allocation: `kfree` then overwrites the size of its block. -/
theorem user_free_breaks_tiling :
    ¬ Along (userHeapStep heapFuel) (bootUserHeap (bootSys zeroMem)) HeapIntact
      [.malloc soloEnv 16 0, .free soloEnv 0x01000008 0] := by
  apply not_along_of_returns (Q := fun s => (header s.sys.heap.mem heapStart).size = 1 ∧
    (header s.sys.heap.mem heapStart).next = 0x0100001C)
  · decide +kernel
  rintro s ⟨hsize, hnext⟩ ⟨bs, hb, ht, -⟩
  cases bs with
  | nil => exact absurd (show arenaLo = arenaHi from ht) (by decide)
  | cons b bs =>
    obtain ⟨-, ha, hs, -, hrest⟩ := hb
    rw [hsize] at hs
    rw [hnext] at hrest
    have hs1 : b.size = 1 := hs.symm
    cases bs with
    | nil => exact absurd (show (0x0100001C : UInt32) = 0 from hrest) (by decide)
    | cons c bs =>
      have hc : (0x0100001C : UInt32).toNat = c.addr := hrest.2.1
      have hc' := ht.2.1
      have ha' : b.addr = 16777216 := ha.symm
      rw [← hc, ha', hs1] at hc'
      exact absurd hc' (by decide)

end RtosKernel
