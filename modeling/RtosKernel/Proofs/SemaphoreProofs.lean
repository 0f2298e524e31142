import RtosKernel.Semaphore
import RtosKernel.Lib.SignedWord
import RtosKernel.Proofs.ExclusionProofs

/-!
# Proofs: semaphores

A wait does what it should in every state. A post compares the unsigned reading of the count with the
maximum: it does not raise a negative count, unless the maximum is larger still, and it raises the largest
`int32_t` beyond its range. Where no post of a run meets these cases (`PostInRange`), the count is conserved;
and no run meets them exactly if the initial value is not negative and the maximum is an `int32_t`.
-/

namespace RtosKernel

open Lib

section Calls

variable {s : Semaphore}

theorem semTake_pos (h : 0 < s.count.toInt) :
    ∃ s', semTake s = some s' ∧ s'.max = s.max ∧ s'.count.toInt = s.count.toInt - 1 := by
  have hlt : 0 < s.count := pos_iff_toInt_pos.mpr h
  have hrange : IsInt32 (s.count.toInt - (1 : Int32).toInt) := by
    have := s.count.toInt_lt
    constructor
    · show _ ≤ s.count.toInt - 1
      omega
    · show s.count.toInt - 1 < _
      omega
  exact ⟨{ s with count := s.count - 1 }, if_pos hlt, rfl, toInt_sub_of_isInt32 hrange⟩

theorem semTake_none (h : ¬ 0 < s.count.toInt) : semTake s = none :=
  if_neg fun hlt => h (pos_iff_toInt_pos.mp hlt)

/-- `sem_trywait` succeeds as an attempt of `sem_wait` does. -/
theorem semTrywait_eq (s : Semaphore) :
    semTrywait s = if 0 < s.count.toInt then (0, (semTake s).getD s) else (-1, s) := by
  unfold semTrywait
  by_cases h : 0 < s.count.toInt
  · obtain ⟨s', hs', -⟩ := semTake_pos h
    rw [hs', if_pos h]
    rfl
  · rw [semTake_none h, if_neg h]

/-- The comparison of `sem_post`. -/
theorem count_lt_max_iff (s : Semaphore) : s.count.toUInt32 < s.max ↔ s.count.toInt % 2 ^ 32 < s.max.toNat := by
  rw [UInt32.lt_iff_toNat_lt, ← toNat_toUInt32]
  exact Int.ofNat_lt.symm

theorem semPost_count (s : Semaphore) :
    (semPost s).count.toInt =
      if s.count.toInt % 2 ^ 32 < s.max.toNat then
        if s.count.toInt = 2 ^ 31 - 1 then -2 ^ 31 else s.count.toInt + 1
      else s.count.toInt := by
  unfold semPost
  simp only [count_lt_max_iff]
  split_ifs with hlt hmax
  · rw [toInt_add_one, if_pos hmax]
  · rw [toInt_add_one, if_neg hmax]
  · rfl

theorem semPost_max (s : Semaphore) : (semPost s).max = s.max := by
  unfold semPost
  split_ifs <;> rfl

/-- A post raises the count exactly where it should, unless it meets the comparison where it goes wrong. -/
theorem semPost_right_iff (hle : s.count.toInt ≤ s.max.toNat) :
    CallRight s .post ↔ (s.count.toInt < 0 → 2 ^ 32 + s.count.toInt < s.max.toNat) ∧
      (s.count.toInt = 2 ^ 31 - 1 → s.max.toNat < 2 ^ 31) := by
  obtain ⟨hlo, hhi⟩ := isInt32_toInt s.count
  have hmod : s.count.toInt % 2 ^ 32 = if s.count.toInt < 0 then 2 ^ 32 + s.count.toInt else s.count.toInt := by
    split_ifs <;> omega
  rw [CallRight, semPost_count, hmod]
  split_ifs <;> omega

/-- A wait is right in every state. -/
theorem callRight_wait (s : Semaphore) : CallRight s .wait ∧ CallRight s .trywait := by
  rw [CallRight, CallRight, semTrywait_eq]
  by_cases h : 0 < s.count.toInt
  · obtain ⟨s', hs', -, hcount⟩ := semTake_pos h
    simp only [hs', h, hcount, if_true, Option.isSome_some, Option.getD_some, true_and, and_true,
      Option.some.injEq]
    rintro t rfl
    exact hcount
  · simp only [semTake_none h, h, if_false, Option.isSome_none]
    simp

end Calls

/-! ## Runs -/

section Runs

variable {initial : Int32} {max : UInt32} {s : SemSys}

/-- In a state in which the count is conserved, the calls that obey their law are the ones that do not meet
the wrong comparison. -/
theorem Conserved.callRight_iff (h : Conserved initial max s) (op : SemOp) :
    CallRight s.sem op ↔ PostInRange s op := by
  cases op with
  | post =>
    have hle : s.sem.count.toInt ≤ s.sem.max.toNat := h.max_eq ▸ h.upper
    exact semPost_right_iff hle
  | wait => exact iff_of_true (callRight_wait s.sem).1 trivial
  | trywait => exact iff_of_true (callRight_wait s.sem).2 trivial

/-- A wait that succeeds. -/
theorem Conserved.take (h : Conserved initial max s) {sem : Semaphore} (hmax : sem.max = s.sem.max)
    (hpos : 0 < s.sem.count.toInt) (hcount : sem.count.toInt = s.sem.count.toInt - 1) :
    Conserved initial max { s with sem := sem, takes := s.takes + 1 } := by
  have hupper := h.upper
  have hbalance := h.balance
  refine ⟨hmax.trans h.max_eq, ?_, ?_, ?_⟩
  · rw [hcount]
    omega
  · rw [hcount]
    omega
  · rw [hcount]
    push_cast
    omega

theorem Conserved.post (h : Conserved initial max s) (hright : CallRight s.sem .post) :
    Conserved initial max { s with
      sem := semPost s.sem
      posts := if s.sem.count.toInt < s.sem.max.toNat then s.posts + 1 else s.posts } := by
  have hlower := h.lower
  have hupper := h.upper
  have hbalance := h.balance
  rw [CallRight, h.max_eq] at hright
  refine ⟨(semPost_max _).trans h.max_eq, ?_, ?_, ?_⟩
  · rw [hright]
    split_ifs <;> omega
  · rw [hright]
    split_ifs <;> omega
  · rw [hright, h.max_eq]
    split_ifs
    · push_cast
      omega
    · exact hbalance

/-- One call. -/
theorem semStep_conserved (h : Conserved initial max s) (op : SemOp) (hright : PostInRange s op) :
    ∃ s', semStep s op = .ok s' ∧ Conserved initial max s' := by
  cases op with
  | post => exact ⟨_, rfl, h.post ((h.callRight_iff .post).mpr hright)⟩
  | wait =>
    unfold semStep
    by_cases hpos : 0 < s.sem.count.toInt
    · obtain ⟨sem, hsem, hmax, hcount⟩ := semTake_pos hpos
      rw [hsem]
      exact ⟨_, rfl, h.take hmax hpos hcount⟩
    · rw [semTake_none hpos]
      exact ⟨s, rfl, h⟩
  | trywait =>
    unfold semStep
    rw [semTrywait_eq]
    by_cases hpos : 0 < s.sem.count.toInt
    · obtain ⟨sem, hsem, hmax, hcount⟩ := semTake_pos hpos
      rw [if_pos hpos, hsem]
      exact ⟨_, rfl, h.take hmax hpos hcount⟩
    · rw [if_neg hpos]
      exact ⟨s, rfl, h⟩

theorem initSem_conserved (hle : initial.toInt ≤ max.toNat) : Conserved initial max (initSem initial max) :=
  ⟨rfl, min_le_left .., hle, by simp [initSem, semInit]⟩

theorem semCorrect_iff (hle : initial.toInt ≤ max.toNat) (ops : List SemOp) :
    SemCorrect initial max ops ↔ AllSteps semStep (initSem initial max) PostInRange ops := by
  constructor
  · rintro ⟨hright, halong⟩ pre op hpre s hr
    obtain ⟨t, ht, hs⟩ := halong pre ((List.prefix_append ..).trans hpre)
    obtain rfl : t = s := Except.ok.inj (ht.symm.trans hr)
    exact (hs.callRight_iff op).mp (hright pre op hpre t hr)
  · intro hrange
    have halong := along_of_allSteps (initSem_conserved hle) (fun _ h => h)
      (fun s op h hop => semStep_conserved h op hop) hrange
    refine ⟨fun pre op hpre s hr => ?_, halong⟩
    obtain ⟨t, ht, hs⟩ := halong pre ((List.prefix_append ..).trans hpre)
    obtain rfl : t = s := Except.ok.inj (ht.symm.trans hr)
    exact (hs.callRight_iff op).mpr (hrange pre op hpre t hr)

/-- With a count that stays in the range of both types no post meets the wrong comparison. -/
theorem semCorrect_of_range (hle : initial.toInt ≤ max.toNat) (h0 : 0 ≤ initial.toInt)
    (hmax : max.toNat < 2 ^ 31) (ops : List SemOp) : SemCorrect initial max ops := by
  have hrange : ∀ s, Conserved initial max s → ∀ op, PostInRange s op := by
    intro s hs op
    have hlower := hs.lower
    cases op with
    | post => exact ⟨fun hneg => by omega, fun _ => hs.max_eq ▸ hmax⟩
    | wait => trivial
    | trywait => trivial
  refine (semCorrect_iff hle ops).mpr fun pre op hpre s hr => hrange s ?_ op
  exact run_inv (fun s op s' hs hstep => by
    obtain ⟨t, ht, htc⟩ := semStep_conserved hs op (hrange s hs op)
    rwa [← Except.ok.inj (ht.symm.trans hstep)]) (initSem_conserved hle) hr

/-- Posts alone raise the count up to the maximum. -/
theorem posts_raise (hright : ∀ ops, SemCorrect initial max ops) (n : ℕ)
    (hn : initial.toInt + n ≤ max.toNat) :
    ∃ s, run semStep (initSem initial max) (List.replicate n .post) = .ok s ∧ s.sem.max = max ∧
      s.sem.count.toInt = initial.toInt + n := by
  induction n with
  | zero => exact ⟨_, rfl, rfl, by simp [initSem, semInit]⟩
  | succ n ih =>
    push_cast at hn ⊢
    obtain ⟨s, hr, hmax, hcount⟩ := ih (by omega)
    have hpost : CallRight s.sem .post := (hright (List.replicate (n + 1) .post)).1 (List.replicate n .post) .post
      (by rw [← List.replicate_succ']) s hr
    refine ⟨_, by rw [List.replicate_succ', run_snoc hr]; rfl, (semPost_max _).trans hmax, ?_⟩
    rw [CallRight] at hpost
    show (semPost s.sem).count.toInt = _
    rw [hpost, hmax, hcount, if_pos (by omega)]
    omega

/-- A run of posts reaches the wrong comparison, unless the initial value and the maximum exclude it. -/
theorem range_of_semCorrect (hle : initial.toInt ≤ max.toNat) (hright : ∀ ops, SemCorrect initial max ops) :
    0 ≤ initial.toInt ∧ max.toNat < 2 ^ 31 := by
  obtain ⟨hlo, hhi⟩ := isInt32_toInt initial
  -- the post after `n` others
  have hnext : ∀ n : ℕ, initial.toInt + n ≤ max.toNat →
      (initial.toInt + n < 0 → 2 ^ 32 + (initial.toInt + n) < max.toNat) ∧
        (initial.toInt + n = 2 ^ 31 - 1 → max.toNat < 2 ^ 31) := by
    intro n hn
    obtain ⟨s, hr, hmax, hcount⟩ := posts_raise hright n hn
    have hrange := (semCorrect_iff hle _).mp (hright (List.replicate n .post ++ [.post]))
    have hpost := hrange _ .post List.prefix_rfl s hr
    rwa [PostInRange, hmax, hcount] at hpost
  have hmax := max.toNat_lt
  constructor
  · by_contra hneg
    have hlast := (hnext (-1 - initial.toInt).toNat (by omega)).1 (by omega)
    omega
  · by_contra hbig
    exact hbig ((hnext (2 ^ 31 - 1 - initial.toInt).toNat (by omega)).2 (by omega))

end Runs

/-! ## The runs of the kernel -/

section Kernel

variable {body : Callbacks} {fuel : ℕ} {k k' : Kernel}

/-- A step of the kernel leaves a semaphore as it is, or is one call on it. -/
theorem kernelCall_sems {op : KernelOp} (h : kernelCall body fuel k op = .ok k') (i : ℕ) :
    k'.sems i = k.sems i ∨ k'.sems i = semPost (k.sems i) ∨ semTake (k.sems i) = some (k'.sems i) := by
  cases kernelCall_effect h with
  | keeps hm hs hp => exact .inl (by rw [hs])
  | lock m mx hmx he =>
    subst he
    exact .inl rfl
  | unlock m he =>
    subst he
    exact .inl rfl
  | take j sem hsem he =>
    subst he
    by_cases hij : i = j
    · subst hij
      exact .inr (.inr (by simp [hsem]))
    · exact .inl (Function.update_of_ne hij ..)
  | post j he =>
    subst he
    by_cases hij : i = j
    · subst hij
      exact .inr (.inl (Function.update_self ..))
    · exact .inl (Function.update_of_ne hij ..)

/-- **In every state of a run of the kernel a semaphore is in a state of a run of calls on it.** -/
theorem kernelRun_sems {frequency : UInt32} {s₀ : Tasking} {p₀ : Procs} {sems : ℕ → Semaphore}
    {ops : List KernelOp} {s : KernelSys}
    (h : run (kernelStep body fuel) (bootKernel frequency s₀ p₀ sems) ops = .ok s) (i : ℕ) :
    ∃ calls t, run semStep { sem := sems i, posts := 0, takes := 0 } calls = .ok t ∧
      t.sem = s.kernel.sems i := by
  refine run_inv (I := fun s => ∃ calls t,
    run semStep { sem := sems i, posts := 0, takes := 0 } calls = .ok t ∧ t.sem = s.kernel.sems i)
    ?_ ⟨[], _, rfl, rfl⟩ h
  rintro s op s' ⟨calls, t, hr, ht⟩ hstep
  unfold kernelStep at hstep
  obtain ⟨k', hk, hs'⟩ := bind_eq_ok.mp hstep
  rw [← Except.ok.inj hs']
  obtain hsame | hpost | htake := kernelCall_sems hk i
  · exact ⟨calls, t, hr, by rw [ht, hsame]⟩
  · refine ⟨calls ++ [.post], _, run_snoc hr, ?_⟩
    rw [hpost, ← ht]
  · refine ⟨calls ++ [.wait], { t with sem := k'.sems i, takes := t.takes + 1 }, ?_, rfl⟩
    rw [run_snoc hr]
    simp only [semStep, ht, htake, pure_eq_ok]

end Kernel

/-- **A semaphore is correct in a run exactly if no post of the run meets the wrong comparison, and in all runs
exactly if its initial value is not negative and its maximum fits into an `int32_t`.** -/
theorem semaphore_conserves_iff {initial : Int32} {max : UInt32} (hle : initial.toInt ≤ max.toNat) :
    (∀ ops, SemCorrect initial max ops ↔ AllSteps semStep (initSem initial max) PostInRange ops) ∧
      ((∀ ops, SemCorrect initial max ops) ↔ 0 ≤ initial.toInt ∧ max.toNat < 2 ^ 31) :=
  ⟨semCorrect_iff hle, range_of_semCorrect hle, fun h => semCorrect_of_range hle h.1 h.2⟩

/-- The semaphore of the shell's demonstration. -/
theorem semaphore_conserves_demo :
    (3 : Int32).toInt ≤ (3 : UInt32).toNat ∧
      SemCorrect 3 3 [.wait, .wait, .post, .trywait, .post, .post, .post] :=
  ⟨by decide, (semaphore_conserves_iff (by decide)).2.mpr (by decide) _⟩

/-- A post on a semaphore that starts at `-1` is lost. -/
theorem negative_post_lost :
    (-1 : Int32).toInt ≤ (5 : UInt32).toNat ∧ (semPost (semInit (-1) 5)).count = -1 ∧
      ¬ SemCorrect (-1) 5 [.post] := by
  refine ⟨by decide, by decide, fun h => ?_⟩
  have hpost := h.1 [] .post List.prefix_rfl _ rfl
  exact absurd hpost (by unfold CallRight; decide)

end RtosKernel
