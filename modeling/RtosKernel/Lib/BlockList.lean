import Mathlib.Tactic

/-!
# First-fit allocation over a list of blocks

An arena `[lo, hi)` is cut into blocks, each a header of `hdr` bytes followed by its payload. A block
is free or live. This file is the allocator over such lists, without any memory: taking the first
block that fits (and splitting it when at least `slack` bytes are left over), releasing a block, and
joining neighbouring free blocks.

`Canonical` is the invariant of these operations: the blocks tile the arena, sizes are multiples of
`align`, and no two neighbours are free. A canonical list is determined by its live blocks
(`Canonical.eq_of_live`), so nothing of the order of past operations remains in it.
-/

namespace RtosKernel.Lib

/-- A block: the address of its header, the size of its payload, and whether it is free. -/
structure Block where
  addr : ℕ
  size : ℕ
  free : Bool
  deriving DecidableEq, Repr

namespace BlockList

/-- The blocks follow each other without a gap from `lo` to `hi`. -/
def Tiles (hdr : ℕ) : ℕ → ℕ → List Block → Prop
  | lo, hi, [] => lo = hi
  | lo, hi, b :: bs => b.addr = lo ∧ Tiles hdr (b.addr + hdr + b.size) hi bs

/-- Neighbouring blocks are not both free. -/
def NoFreePair (bs : List Block) : Prop := bs.IsChain fun a b => ¬ (a.free = true ∧ b.free = true)

/-- The block `b` after `n` bytes of it are taken: the rest becomes a free block of its own if it
has room for a header and `slack` bytes. -/
def carve (hdr slack n : ℕ) (b : Block) : List Block :=
  if n + hdr + slack ≤ b.size then
    [⟨b.addr, n, false⟩, ⟨b.addr + hdr + n, b.size - n - hdr, true⟩]
  else [⟨b.addr, b.size, false⟩]

/-- Takes `n` bytes of the first free block that is large enough; returns its address. -/
def firstFit (hdr slack n : ℕ) : List Block → Option (ℕ × List Block)
  | [] => none
  | b :: bs =>
    if b.free = true ∧ n ≤ b.size then some (b.addr, carve hdr slack n b ++ bs)
    else (firstFit hdr slack n bs).map fun r => (r.1, b :: r.2)

/-- Marks the block at `a` free. -/
def release (a : ℕ) (bs : List Block) : List Block :=
  bs.map fun b => if b.addr = a then ⟨b.addr, b.size, true⟩ else b

/-- Joins every run of neighbouring free blocks into one. -/
def coalesce (hdr : ℕ) : List Block → List Block
  | a :: b :: bs =>
    if a.free = true ∧ b.free = true then coalesce hdr (⟨a.addr, a.size + (hdr + b.size), true⟩ :: bs)
    else a :: coalesce hdr (b :: bs)
  | bs => bs
  termination_by bs => bs.length

/-- The invariant of the block list of an arena. -/
structure Canonical (hdr align lo hi : ℕ) (bs : List Block) : Prop where
  tiles : Tiles hdr lo hi bs
  aligned : ∀ b ∈ bs, align ∣ b.size
  noFreePair : NoFreePair bs

variable {hdr slack align n lo hi : ℕ} {bs cs : List Block}

/-! ## Tilings -/

theorem Tiles.le (h : Tiles hdr lo hi bs) : lo ≤ hi := by
  induction bs generalizing lo with
  | nil => exact le_of_eq h
  | cons b bs ih =>
    obtain ⟨h1, h2⟩ := h
    have := ih h2
    omega

theorem tiles_append : Tiles hdr lo hi (bs ++ cs) ↔ ∃ mid, Tiles hdr lo mid bs ∧ Tiles hdr mid hi cs := by
  induction bs generalizing lo with
  | nil => simp [Tiles]
  | cons b bs ih =>
    simp only [List.cons_append, Tiles, ih]
    constructor
    · rintro ⟨h1, mid, h2, h3⟩
      exact ⟨mid, ⟨h1, h2⟩, h3⟩
    · rintro ⟨mid, ⟨h1, h2⟩, h3⟩
      exact ⟨h1, mid, h2, h3⟩

/-- Every block of a tiling lies inside the arena. -/
theorem Tiles.bounds (h : Tiles hdr lo hi bs) {b : Block} (hb : b ∈ bs) :
    lo ≤ b.addr ∧ b.addr + hdr + b.size ≤ hi := by
  induction bs generalizing lo with
  | nil => exact absurd hb (by simp)
  | cons a bs ih =>
    obtain ⟨h1, h2⟩ := h
    rcases List.mem_cons.mp hb with rfl | hb
    · exact ⟨h1.ge, h2.le⟩
    · have := ih h2 hb
      omega

/-- Earlier blocks of a tiling end before later ones start. -/
theorem Tiles.pairwise (h : Tiles hdr lo hi bs) :
    bs.Pairwise fun a b => a.addr + hdr + a.size ≤ b.addr := by
  induction bs generalizing lo with
  | nil => exact List.Pairwise.nil
  | cons a bs ih =>
    refine List.pairwise_cons.mpr ⟨fun b hb => ?_, ih h.2⟩
    exact (h.2.bounds hb).1

/-- Two different blocks of a tiling do not overlap. -/
theorem Tiles.disjoint (h : Tiles hdr lo hi bs) {a b : Block} (ha : a ∈ bs) (hb : b ∈ bs)
    (hab : a ≠ b) : a.addr + hdr + a.size ≤ b.addr ∨ b.addr + hdr + b.size ≤ a.addr := by
  have hp : bs.Pairwise fun a b : Block => a.addr + hdr + a.size ≤ b.addr ∨
      b.addr + hdr + b.size ≤ a.addr := h.pairwise.imp Or.inl
  have : Std.Symm fun a b : Block => a.addr + hdr + a.size ≤ b.addr ∨
      b.addr + hdr + b.size ≤ a.addr := ⟨fun _ _ => Or.symm⟩
  exact hp.forall ha hb hab

/-- A block of a tiling is determined by its address. -/
theorem Tiles.eq_of_addr (hpos : 0 < hdr) (h : Tiles hdr lo hi bs) {a b : Block} (ha : a ∈ bs)
    (hb : b ∈ bs) (hab : a.addr = b.addr) : a = b := by
  by_contra hne
  rcases h.disjoint ha hb hne with h | h <;> omega

/-- Every block of a tiling by multiples of `align` starts at a multiple of `align`. -/
theorem Tiles.aligned_addr (h : Tiles hdr lo hi bs) (hlo : align ∣ lo) (hh : align ∣ hdr)
    (hs : ∀ b ∈ bs, align ∣ b.size) : ∀ b ∈ bs, align ∣ b.addr := by
  induction bs generalizing lo with
  | nil => simp
  | cons a bs ih =>
    intro b hb
    have ha : align ∣ a.addr := h.1 ▸ hlo
    rcases List.mem_cons.mp hb with rfl | hb
    · exact ha
    · exact ih h.2 (dvd_add (dvd_add ha hh) (hs a (by simp))) (fun c hc => hs c (by simp [hc])) b hb

/-- A tiling has no more blocks than headers fit into the arena. -/
theorem Tiles.length_le (h : Tiles hdr lo hi bs) : lo + bs.length * hdr ≤ hi := by
  induction bs generalizing lo with
  | nil =>
    have he : lo = hi := h
    simp [he]
  | cons a bs ih =>
    have h1 := ih h.2
    have h2 := h.1
    simp only [List.length_cons, Nat.add_mul, Nat.one_mul]
    omega

/-! ## Taking a block -/

/-- What `firstFit` does: the chosen block is the first one that fits, and it alone is replaced. -/
theorem firstFit_some {a : ℕ} (h : firstFit hdr slack n bs = some (a, cs)) :
    ∃ pre b post, bs = pre ++ b :: post ∧ b.free = true ∧ n ≤ b.size ∧ a = b.addr ∧
      (∀ x ∈ pre, ¬ (x.free = true ∧ n ≤ x.size)) ∧ cs = pre ++ (carve hdr slack n b ++ post) := by
  induction bs generalizing cs with
  | nil => exact absurd h (by simp [firstFit])
  | cons b bs ih =>
    by_cases hfit : b.free = true ∧ n ≤ b.size
    · rw [firstFit, if_pos hfit] at h
      obtain ⟨rfl, rfl⟩ := Prod.mk.inj (Option.some.inj h)
      exact ⟨[], b, bs, rfl, hfit.1, hfit.2, rfl, by simp, rfl⟩
    · rw [firstFit, if_neg hfit] at h
      obtain ⟨⟨a', cs'⟩, hr, he⟩ := Option.map_eq_some_iff.mp h
      obtain ⟨rfl, rfl⟩ := Prod.mk.inj he
      obtain ⟨pre, c, post, rfl, hc, hn, ha, hpre, rfl⟩ := ih hr
      refine ⟨b :: pre, c, post, rfl, hc, hn, ha, fun x hx => ?_, rfl⟩
      rcases List.mem_cons.mp hx with rfl | hx
      · exact hfit
      · exact hpre x hx

theorem tiles_carve (slack n : ℕ) (b : Block) :
    Tiles hdr b.addr (b.addr + hdr + b.size) (carve hdr slack n b) := by
  unfold carve
  split_ifs with hs
  · refine ⟨rfl, rfl, ?_⟩
    show b.addr + hdr + n + hdr + (b.size - n - hdr) = b.addr + hdr + b.size
    omega
  · exact ⟨rfl, rfl⟩

theorem aligned_carve {b : Block} (hh : align ∣ hdr) (hn : align ∣ n) (hb : align ∣ b.size) :
    ∀ x ∈ carve hdr slack n b, align ∣ x.size := by
  intro x hx
  unfold carve at hx
  split_ifs at hx
  · rcases List.mem_cons.mp hx with rfl | hx
    · exact hn
    · rw [List.mem_singleton.mp hx]
      exact Nat.dvd_sub (Nat.dvd_sub hb hn) hh
  · rw [List.mem_singleton.mp hx]
    exact hb

/-- The block taken by `carve`: it starts where `b` did and is live. -/
theorem carve_eq (hdr slack n : ℕ) (b : Block) :
    ∃ g rest, carve hdr slack n b = ⟨b.addr, g, false⟩ :: rest ∧ (∀ x ∈ rest, x.free = true) ∧
      NoFreePair (⟨b.addr, g, false⟩ :: rest) := by
  unfold carve
  split_ifs with hs
  · exact ⟨n, _, rfl, by simp, by simp [NoFreePair]⟩
  · exact ⟨b.size, [], rfl, by simp, by simp [NoFreePair]⟩

/-- The live blocks after `firstFit`: one more, at the returned address. -/
theorem mem_firstFit_live {a : ℕ} (h : firstFit hdr slack n bs = some (a, cs)) :
    ∃ g, ∀ x : Block, x.free = false → (x ∈ cs ↔ x ∈ bs ∨ x = ⟨a, g, false⟩) := by
  obtain ⟨pre, b, post, rfl, hb, -, rfl, -, rfl⟩ := firstFit_some h
  obtain ⟨g, rest, hc, hrest, -⟩ := carve_eq hdr slack n b
  refine ⟨g, fun x hx => ?_⟩
  have hxb : x ≠ b := fun e => by simp [e, hb] at hx
  have hxr : x ∉ rest := fun hm => by simp [hrest x hm] at hx
  rw [hc]
  simp only [List.mem_append, List.mem_cons, hxb, hxr, or_false, false_or]
  tauto

theorem noFreePair_append : NoFreePair (bs ++ cs) ↔ NoFreePair bs ∧ NoFreePair cs ∧
    ∀ a ∈ bs.getLast?, ∀ b ∈ cs.head?, ¬ (a.free = true ∧ b.free = true) :=
  List.isChain_append

theorem Canonical.firstFit (hh : align ∣ hdr) (hn : align ∣ n) {a : ℕ}
    (h : Canonical hdr align lo hi bs) (hf : firstFit hdr slack n bs = some (a, cs)) :
    Canonical hdr align lo hi cs := by
  obtain ⟨pre, b, post, rfl, hb, hnb, rfl, -, rfl⟩ := firstFit_some hf
  obtain ⟨mid, ht1, ht2, ht3⟩ := tiles_append.mp h.tiles
  subst ht2
  refine ⟨?_, fun x hx => ?_, ?_⟩
  · exact tiles_append.mpr ⟨_, ht1, tiles_append.mpr ⟨_, tiles_carve slack n b, ht3⟩⟩
  · simp only [List.mem_append] at hx
    rcases hx with hx | hx | hx
    · exact h.aligned x (by simp [hx])
    · exact aligned_carve hh hn (h.aligned b (by simp)) x hx
    · exact h.aligned x (by simp [hx])
  · -- the new pairs are (last of `pre`, taken block) and (rest of `b`, first of `post`)
    obtain ⟨hp1, hp2, -⟩ := noFreePair_append.mp h.noFreePair
    obtain ⟨g, rest, hc, hrest, hcp⟩ := carve_eq hdr slack n b
    have hpost : NoFreePair post ∧ ∀ y ∈ post.head?, ¬ (b.free = true ∧ y.free = true) := by
      rw [NoFreePair, List.isChain_cons] at hp2
      exact ⟨hp2.2, hp2.1⟩
    rw [hc]
    refine noFreePair_append.mpr ⟨hp1, noFreePair_append.mpr ⟨hcp, hpost.1, ?_⟩, ?_⟩
    · intro x _ y hy hxy
      exact hpost.2 y hy ⟨hb, hxy.2⟩
    · intro x _ y hy hxy
      have : y = ⟨b.addr, g, false⟩ := by simpa using hy.symm
      simp [this] at hxy

/-! ## Giving a block back -/

theorem tiles_release (a : ℕ) (h : Tiles hdr lo hi bs) : Tiles hdr lo hi (release a bs) := by
  induction bs generalizing lo with
  | nil => exact h
  | cons b bs ih =>
    obtain ⟨h1, h2⟩ := h
    simp only [release, List.map_cons]
    split_ifs
    · exact ⟨h1, ih h2⟩
    · exact ⟨h1, ih h2⟩

theorem mem_release {a : ℕ} {x : Block} (hx : x ∈ release a bs) :
    ∃ b ∈ bs, x.addr = b.addr ∧ x.size = b.size := by
  obtain ⟨b, hb, rfl⟩ := List.mem_map.mp hx
  refine ⟨b, hb, ?_⟩
  split_ifs <;> simp

theorem mem_release_live {a : ℕ} {x : Block} (hx : x.free = false) :
    x ∈ release a bs ↔ x ∈ bs ∧ x.addr ≠ a := by
  simp only [release, List.mem_map]
  constructor
  · rintro ⟨b, hb, rfl⟩
    split_ifs at hx ⊢ with hba
    exact ⟨hb, hba⟩
  · rintro ⟨hb, hne⟩
    exact ⟨x, hb, if_neg hne⟩

/-- Two neighbours joined into one block still tile the range. -/
theorem tiles_join {a b : Block} (h : Tiles hdr lo hi (a :: b :: bs)) :
    Tiles hdr lo hi (⟨a.addr, a.size + (hdr + b.size), true⟩ :: bs) := by
  obtain ⟨h1, h2, h3⟩ := h
  refine ⟨h1, ?_⟩
  have he : a.addr + hdr + (a.size + (hdr + b.size)) = b.addr + hdr + b.size := by omega
  show Tiles hdr (a.addr + hdr + (a.size + (hdr + b.size))) hi bs
  rw [he]
  exact h3

theorem coalesce_tiles (h : Tiles hdr lo hi bs) : Tiles hdr lo hi (coalesce hdr bs) := by
  fun_induction coalesce hdr bs generalizing lo with
  | case1 a b bs hab ih => exact ih (tiles_join h)
  | case2 a b bs hab ih => exact ⟨h.1, ih h.2⟩
  | case3 bs hbs => exact h

theorem coalesce_aligned (hh : align ∣ hdr) (h : ∀ b ∈ bs, align ∣ b.size) :
    ∀ b ∈ coalesce hdr bs, align ∣ b.size := by
  fun_induction coalesce hdr bs with
  | case1 a b bs hab ih =>
    refine ih fun x hx => ?_
    rcases List.mem_cons.mp hx with rfl | hx
    · exact dvd_add (h a (by simp)) (dvd_add hh (h b (by simp)))
    · exact h x (by simp [hx])
  | case2 a b bs hab ih =>
    intro x hx
    rcases List.mem_cons.mp hx with rfl | hx
    · exact h x (by simp)
    · exact ih (fun y hy => h y (List.mem_cons_of_mem _ hy)) x hx
  | case3 bs hbs => exact h

/-- The first block stays where it is and keeps its state. -/
theorem coalesce_head (hdr : ℕ) (bs : List Block) :
    (coalesce hdr bs).head?.map (fun b => (b.addr, b.free)) = bs.head?.map fun b => (b.addr, b.free) := by
  fun_induction coalesce hdr bs with
  | case1 a b bs hab ih =>
    rw [ih]
    simp [hab.1]
  | case2 a b bs hab ih => rfl
  | case3 bs hbs => rfl

theorem coalesce_noFreePair (hdr : ℕ) (bs : List Block) : NoFreePair (coalesce hdr bs) := by
  fun_induction coalesce hdr bs with
  | case1 a b bs hab ih => exact ih
  | case2 a b bs hab ih =>
    rw [NoFreePair, List.isChain_cons]
    refine ⟨fun y hy hay => ?_, ih⟩
    have hhead := coalesce_head hdr (b :: bs)
    rw [Option.mem_def.mp hy] at hhead
    have : y.free = b.free := by
      simp only [Option.map_some, List.head?_cons, Option.some.injEq, Prod.mk.injEq] at hhead
      exact hhead.2
    exact hab ⟨hay.1, this ▸ hay.2⟩
  | case3 bs hbs =>
    match bs, hbs with
    | [], _ => exact List.IsChain.nil
    | [a], _ => exact List.IsChain.singleton a
    | a :: b :: bs, h => exact absurd rfl (h a b bs)

theorem mem_coalesce_live {x : Block} (hx : x.free = false) : x ∈ coalesce hdr bs ↔ x ∈ bs := by
  fun_induction coalesce hdr bs with
  | case1 a b bs hab ih =>
    have hne : ∀ y : Block, y.free = true → x ≠ y := fun y hy e => by simp [e, hy] at hx
    rw [ih]
    simp only [List.mem_cons, hne a hab.1, hne b hab.2, hne ⟨_, _, true⟩ rfl, false_or]
  | case2 a b bs hab ih =>
    rw [List.mem_cons, ih]
    exact List.mem_cons.symm
  | case3 bs hbs => rfl

theorem Canonical.free (hh : align ∣ hdr) (h : Canonical hdr align lo hi bs) (a : ℕ) :
    Canonical hdr align lo hi (coalesce hdr (release a bs)) := by
  refine ⟨coalesce_tiles (tiles_release a h.tiles), coalesce_aligned hh fun b hb => ?_,
    coalesce_noFreePair hdr _⟩
  obtain ⟨c, hc, -, hs⟩ := mem_release hb
  exact hs ▸ h.aligned c hc

/-! ## Canonical lists are determined by their live blocks -/

/-- A free first block of a canonical list reaches as far as the live blocks allow. -/
theorem free_head_size_le {b c : Block} (hb : b.free = true) (hc : c.free = true)
    (htb : Tiles hdr lo hi (b :: bs)) (hpb : NoFreePair (b :: bs)) (htc : Tiles hdr lo hi (c :: cs))
    (hsub : ∀ x : Block, x.free = false → x ∈ b :: bs → x ∈ c :: cs) : c.size ≤ b.size := by
  obtain ⟨hb1, hb2⟩ := htb
  obtain ⟨hc1, hc2⟩ := htc
  cases bs with
  | nil =>
    have h1 : b.addr + hdr + b.size = hi := hb2
    have h2 := hc2.le
    omega
  | cons x bs =>
    have hx : x.free = false := by
      rw [NoFreePair, List.isChain_cons_cons] at hpb
      by_contra hxf
      exact hpb.1 ⟨hb, by simpa using hxf⟩
    have hxc : x ∈ cs := by
      rcases List.mem_cons.mp (hsub x hx (by simp)) with h | h
      · rw [h, hc] at hx
        exact absurd hx (by simp)
      · exact h
    have h1 := (hc2.bounds hxc).1
    have h2 := hb2.1
    omega

/-- The first block, if live, is the first block of every other tiling that contains it. -/
theorem live_head_eq (hpos : 0 < hdr) {b c : Block} (htb : Tiles hdr lo hi (b :: bs))
    (htc : Tiles hdr lo hi (c :: cs)) (hbc : b ∈ c :: cs) : b = c := by
  refine htc.eq_of_addr hpos hbc (by simp) ?_
  rw [htb.1, htc.1]

theorem Canonical.tail {b : Block} (h : Canonical hdr align lo hi (b :: bs)) :
    Canonical hdr align (b.addr + hdr + b.size) hi bs :=
  ⟨h.tiles.2, fun x hx => h.aligned x (by simp [hx]), (List.isChain_cons.mp h.noFreePair).2⟩

/-- **Two canonical block lists of one arena with the same live blocks are equal.** -/
theorem Canonical.eq_of_live (hpos : 0 < hdr) (hb : Canonical hdr align lo hi bs)
    (hc : Canonical hdr align lo hi cs)
    (hlive : ∀ x : Block, x.free = false → (x ∈ bs ↔ x ∈ cs)) : bs = cs := by
  induction bs generalizing lo cs with
  | nil =>
    cases cs with
    | nil => rfl
    | cons c cs =>
      have h1 : lo = hi := hb.tiles
      have h2 := (hc.tiles.bounds (List.mem_cons_self ..)).2
      have h3 := hc.tiles.1
      omega
  | cons b bs ih =>
    cases cs with
    | nil =>
      have h1 : lo = hi := hc.tiles
      have h2 := (hb.tiles.bounds (List.mem_cons_self ..)).2
      have h3 := hb.tiles.1
      omega
    | cons c cs =>
      have hbc : b = c := by
        cases hbf : b.free with
        | false => exact live_head_eq hpos hb.tiles hc.tiles ((hlive b hbf).mp (by simp))
        | true =>
          cases hcf : c.free with
          | false => exact (live_head_eq hpos hc.tiles hb.tiles ((hlive c hcf).mpr (by simp))).symm
          | true =>
            have h1 := free_head_size_le hbf hcf hb.tiles hb.noFreePair hc.tiles
              fun x hx => (hlive x hx).mp
            have h2 := free_head_size_le hcf hbf hc.tiles hc.noFreePair hb.tiles
              fun x hx => (hlive x hx).mpr
            have h3 : b.addr = c.addr := by rw [hb.tiles.1, hc.tiles.1]
            cases b
            cases c
            simp only [Block.mk.injEq] at *
            exact ⟨h3, by omega, by rw [hbf, hcf]⟩
      subst hbc
      -- a live block of one tail is not the common head, so it is in the other tail
      have hne : ∀ ds : List Block, Tiles hdr (b.addr + hdr + b.size) hi ds → ∀ x ∈ ds, x ≠ b := by
        intro ds hds x hx e
        have := (hds.bounds hx).1
        rw [e] at this
        omega
      rw [ih hb.tail hc.tail fun x hx => ?_]
      constructor
      · intro hxb
        exact (List.mem_cons.mp ((hlive x hx).mp (by simp [hxb]))).resolve_left (hne _ hb.tiles.2 x hxb)
      · intro hxc
        exact (List.mem_cons.mp ((hlive x hx).mpr (by simp [hxc]))).resolve_left (hne _ hc.tiles.2 x hxc)

end BlockList

end RtosKernel.Lib
