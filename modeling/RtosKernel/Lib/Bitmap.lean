import Mathlib.Tactic
import Mathlib.Data.Nat.Bitwise

/-!
# Sets kept as bits of a byte array

A byte array `bm` keeps one bit for each number `p`, in byte `p / 8` at position `p % 8`. Setting and
clearing a bit with the masks `1 << k` and `~(1 << k)` changes that bit only (`bit_setMask`,
`bit_clearMask`), and testing it with the mask reads it (`and_mask_eq_zero`).

`clearBits n bm` is the set of the numbers below `n` whose bit is clear. `scanRun` is the first-fit scan
for `count` consecutive hits of a predicate, with one counter and one start mark: it finds the lowest
run, and finds one if there is one (`scanRun_spec`).
-/

namespace RtosKernel.Lib

/-- Bit `p` of the byte array. -/
def bit (bm : ℕ → UInt8) (p : ℕ) : Bool := (bm (p / 8)).toNat.testBit (p % 8)

/-- The mask `1 << k` of a byte. -/
def mask (k : ℕ) : UInt8 := 1 <<< UInt8.ofNat k

section Masks

variable {k j : ℕ}

theorem mask_toNat (hk : k < 8) : (mask k).toNat = 2 ^ k := by
  have hpow : 2 ^ k < 256 := by
    calc 2 ^ k < 2 ^ 8 := Nat.pow_lt_pow_right (by decide) hk
      _ = 256 := by decide
  have hmod : k % 2 ^ 8 % 8 = k := by omega
  simp only [mask, UInt8.toNat_shiftLeft, UInt8.toNat_ofNat', hmod, Nat.shiftLeft_eq]
  simpa using Nat.mod_eq_of_lt hpow

/-- The test `b & (1 << k)`. -/
theorem and_mask_eq_zero (b : UInt8) (hk : k < 8) : b &&& mask k = 0 ↔ b.toNat.testBit k = false := by
  rw [← UInt8.toNat_inj, UInt8.toNat_and, mask_toNat hk, Nat.and_two_pow]
  cases b.toNat.testBit k <;> simp

theorem testBit_or_mask (b : UInt8) (hk : k < 8) :
    (b ||| mask k).toNat.testBit j = (b.toNat.testBit j || decide (k = j)) := by
  rw [UInt8.toNat_or, mask_toNat hk, Nat.testBit_or, Nat.testBit_two_pow]

theorem testBit_and_not_mask (b : UInt8) (hk : k < 8) (hj : j < 8) :
    (b &&& ~~~ mask k).toNat.testBit j = (b.toNat.testBit j && !decide (k = j)) := by
  have hpow : 2 ^ k < 2 ^ 8 := Nat.pow_lt_pow_right (by decide) hk
  have hnot : (~~~ mask k).toNat = 2 ^ 8 - (2 ^ k + 1) := by
    rw [UInt8.toNat_not, mask_toNat hk, UInt8.size]
    omega
  rw [UInt8.toNat_and, hnot, Nat.testBit_and, Nat.testBit_two_pow_sub_succ hpow, Nat.testBit_two_pow]
  simp [hj]

end Masks

section Bits

variable {bm : ℕ → UInt8} {p q n : ℕ}

theorem bit_setMask :
    bit (Function.update bm (p / 8) (bm (p / 8) ||| mask (p % 8))) q = (bit bm q || decide (q = p)) := by
  have hmod : p % 8 < 8 := Nat.mod_lt _ (by decide)
  by_cases hb : q / 8 = p / 8
  · have hiff : (p % 8 = q % 8) ↔ q = p := by omega
    simp only [bit, hb, Function.update_self, testBit_or_mask _ hmod, hiff]
  · have hne : q ≠ p := fun e => hb (by rw [e])
    simp [bit, Function.update_of_ne hb, hne]

theorem bit_clearMask :
    bit (Function.update bm (p / 8) (bm (p / 8) &&& ~~~ mask (p % 8))) q =
      (bit bm q && !decide (q = p)) := by
  have hmod : p % 8 < 8 := Nat.mod_lt _ (by decide)
  by_cases hb : q / 8 = p / 8
  · have hiff : (p % 8 = q % 8) ↔ q = p := by omega
    simp only [bit, hb, Function.update_self,
      testBit_and_not_mask _ hmod (Nat.mod_lt q (by decide)), hiff]
  · have hne : q ≠ p := fun e => hb (by rw [e])
    simp [bit, Function.update_of_ne hb, hne]

/-- The numbers below `n` whose bit is clear. -/
def clearBits (n : ℕ) (bm : ℕ → UInt8) : Finset ℕ := (Finset.range n).filter fun p => bit bm p = false

theorem mem_clearBits : p ∈ clearBits n bm ↔ p < n ∧ bit bm p = false := by
  simp [clearBits]

theorem card_clearBits_le (n : ℕ) (bm : ℕ → UInt8) : (clearBits n bm).card ≤ n :=
  (Finset.card_filter_le _ _).trans (by simp)

theorem clearBits_setMask :
    clearBits n (Function.update bm (p / 8) (bm (p / 8) ||| mask (p % 8))) = (clearBits n bm).erase p := by
  ext q
  simp only [mem_clearBits, bit_setMask, Finset.mem_erase, Bool.or_eq_false_iff, decide_eq_false_iff_not]
  tauto

theorem clearBits_clearMask (hp : p < n) :
    clearBits n (Function.update bm (p / 8) (bm (p / 8) &&& ~~~ mask (p % 8))) =
      insert p (clearBits n bm) := by
  ext q
  simp only [mem_clearBits, bit_clearMask, Finset.mem_insert, Bool.and_eq_false_iff, Bool.not_eq_false',
    decide_eq_true_eq]
  constructor
  · rintro ⟨hq, h | h⟩
    · exact .inr ⟨hq, h⟩
    · exact .inl h
  · rintro (rfl | ⟨hq, h⟩)
    · exact ⟨hp, .inr rfl⟩
    · exact ⟨hq, .inl h⟩

end Bits

/-! ## The scan for a run -/

/-- The next `n` numbers from `i` on, with `consecutive` hits right before `i`, the first at `start`. -/
def scanRun (hit : ℕ → Bool) (count : ℕ) : ℕ → ℕ → ℕ → ℕ → Option ℕ
  | 0, _, _, _ => none
  | n + 1, i, consecutive, start =>
    if hit i then
      let start := if consecutive = 0 then i else start
      if consecutive + 1 = count then some start
      else scanRun hit count n (i + 1) (consecutive + 1) start
    else scanRun hit count n (i + 1) 0 start

/-- The numbers `s, ..., s + count - 1` are hits below `N`. -/
structure IsRun (hit : ℕ → Bool) (N count s : ℕ) : Prop where
  bound : s + count ≤ N
  hits : ∀ j, s ≤ j → j < s + count → hit j = true

theorem scanRun_from {hit : ℕ → Bool} {count N : ℕ} (n i k start : ℕ) (hN : i + n = N) (hk : k < count)
    (hki : k ≤ i) (hhits : ∀ j, i - k ≤ j → j < i → hit j = true) (hstart : k ≠ 0 → start = i - k) :
    (∀ s, scanRun hit count n i k start = some s →
      IsRun hit N count s ∧ ∀ a, i - k ≤ a → IsRun hit N count a → s ≤ a) ∧
    (scanRun hit count n i k start = none → ∀ a, i - k ≤ a → ¬ IsRun hit N count a) := by
  induction n generalizing i k start with
  | zero =>
    refine ⟨fun s hs => absurd hs (by simp [scanRun]), fun _ a ha hrun => ?_⟩
    have := hrun.bound
    omega
  | succ n ih =>
    by_cases hi : hit i = true
    · have hst : (if k = 0 then i else start) = i - k := by
        split
        · omega
        · exact hstart ‹_›
      by_cases hc : k + 1 = count
      · have hres : scanRun hit count (n + 1) i k start = some (i - k) := by
          simp [scanRun, hi, hc, hst]
        rw [hres]
        refine ⟨fun s hs => ?_, fun h => absurd h (by simp)⟩
        obtain rfl : i - k = s := by simpa using hs
        refine ⟨⟨by omega, fun j h1 h2 => ?_⟩, fun a ha _ => ha⟩
        rcases Nat.lt_or_ge j i with hj | hj
        · exact hhits j h1 hj
        · obtain rfl : j = i := by omega
          exact hi
      · have hres : scanRun hit count (n + 1) i k start = scanRun hit count n (i + 1) (k + 1) (i - k) := by
          simp [scanRun, hi, hc, hst]
        rw [hres, show i - k = i + 1 - (k + 1) by omega]
        refine ih (i + 1) (k + 1) _ (by omega) (by omega) (by omega) (fun j h1 h2 => ?_) fun _ => rfl
        rcases Nat.lt_or_ge j i with hj | hj
        · exact hhits j (by omega) hj
        · obtain rfl : j = i := by omega
          exact hi
    · have hres : scanRun hit count (n + 1) i k start = scanRun hit count n (i + 1) 0 start := by
        simp [scanRun, hi]
      rw [hres]
      obtain ⟨h1, h2⟩ := ih (i + 1) 0 start (by omega) (by omega) (by omega) (fun j _ _ => by omega)
        (fun h => absurd rfl h)
      -- a run from at most `i` on would contain the miss `i`
      have hlater : ∀ a, i - k ≤ a → IsRun hit N count a → i + 1 - 0 ≤ a := by
        intro a ha hrun
        by_contra hlt
        exact hi (hrun.hits i (by omega) (by omega))
      exact ⟨fun s hs => ⟨(h1 s hs).1, fun a ha hrun => (h1 s hs).2 a (hlater a ha hrun) hrun⟩,
        fun hs a ha hrun => h2 hs a (hlater a ha hrun) hrun⟩

/-- **The scan finds the lowest run, and finds one if there is one.** -/
theorem scanRun_spec {hit : ℕ → Bool} {count N : ℕ} (hc : 0 < count) :
    (∀ s, scanRun hit count N 0 0 0 = some s →
      IsRun hit N count s ∧ ∀ a, IsRun hit N count a → s ≤ a) ∧
    (scanRun hit count N 0 0 0 = none → ∀ a, ¬ IsRun hit N count a) := by
  obtain ⟨h1, h2⟩ := @scanRun_from hit count N N 0 0 0 (Nat.zero_add N) hc le_rfl
    (fun j _ hj => absurd hj (Nat.not_lt_zero j)) (fun h => absurd rfl h)
  exact ⟨fun s hs => ⟨(h1 s hs).1, fun a ha => (h1 s hs).2 a (by omega) ha⟩,
    fun hs a ha => h2 hs a (by omega) ha⟩

end RtosKernel.Lib
