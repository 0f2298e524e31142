import Mathlib.Tactic
import Mathlib.Data.Nat.Bitwise

/-!
# Sets kept as the bits of a word

A 32-bit word stands for a set of numbers below 32. The test with the mask `1 << k` reads one bit
(`hasBit_iff`), and the bitwise operations are the operations on sets.

A word also stands for two numbers side by side, the one in its lowest `k` bits and the one above: masks
take them apart (`and_lowMask`, `and_highMask`), and an or puts them together (`or_low`). Half-words and bytes that are
cut out of a word and kept apart give the word back (`word_halves`, `word_parts`).
-/

namespace RtosKernel.Lib

/-- The mask `1 << k` of a word. -/
def bitMask (k : ℕ) : UInt32 := 1 <<< UInt32.ofNat k

/-- The test `w & (1 << k)`. -/
def HasBit (w : UInt32) (k : ℕ) : Prop := w &&& bitMask k ≠ 0

instance (w : UInt32) (k : ℕ) : Decidable (HasBit w k) := inferInstanceAs (Decidable (_ ≠ _))

section

variable {v w : UInt32} {j k : ℕ}

theorem bitMask_toNat (hk : k < 32) : (bitMask k).toNat = 2 ^ k := by
  have hpow : 2 ^ k < 2 ^ 32 := Nat.pow_lt_pow_right (by decide) hk
  have hmod : k % 2 ^ 32 % 32 = k := by omega
  simp only [bitMask, UInt32.toNat_shiftLeft, UInt32.toNat_ofNat', hmod, Nat.shiftLeft_eq]
  simpa using Nat.mod_eq_of_lt hpow

theorem hasBit_iff (hk : k < 32) : HasBit w k ↔ w.toNat.testBit k = true := by
  rw [HasBit, ne_eq, ← UInt32.toNat_inj, UInt32.toNat_and, bitMask_toNat hk, Nat.and_two_pow]
  cases w.toNat.testBit k <;> simp

theorem not_hasBit_zero (k : ℕ) : ¬ HasBit 0 k := by
  simp [HasBit]

theorem hasBit_bitMask (hj : j < 32) (hk : k < 32) : HasBit (bitMask j) k ↔ j = k := by
  rw [hasBit_iff hk, bitMask_toNat hj, Nat.testBit_two_pow, decide_eq_true_iff]

theorem hasBit_or (hk : k < 32) : HasBit (v ||| w) k ↔ HasBit v k ∨ HasBit w k := by
  rw [hasBit_iff hk, hasBit_iff hk, hasBit_iff hk, UInt32.toNat_or, Nat.testBit_or, Bool.or_eq_true]

theorem hasBit_and (hk : k < 32) : HasBit (v &&& w) k ↔ HasBit v k ∧ HasBit w k := by
  rw [hasBit_iff hk, hasBit_iff hk, hasBit_iff hk, UInt32.toNat_and, Nat.testBit_and, Bool.and_eq_true]

theorem hasBit_and_not (hk : k < 32) : HasBit (v &&& ~~~ w) k ↔ HasBit v k ∧ ¬ HasBit w k := by
  have hlt := w.toNat_lt
  have hnot : (~~~ w).toNat = 2 ^ 32 - (w.toNat + 1) := by
    rw [UInt32.toNat_not, UInt32.size]
    omega
  rw [hasBit_iff hk, hasBit_iff hk, hasBit_iff hk, UInt32.toNat_and, hnot, Nat.testBit_and,
    Nat.testBit_two_pow_sub_succ hlt]
  simp [hk]

end

section Fields

variable {v w m : UInt32} {k : ℕ}

theorem and_lowMask (hm : m.toNat = 2 ^ k - 1) : (w &&& m).toNat = w.toNat % 2 ^ k := by
  rw [UInt32.toNat_and, hm, Nat.and_two_pow_sub_one_eq_mod]

theorem and_highMask (hk : k ≤ 32) (hm : m.toNat = 2 ^ 32 - 2 ^ k) :
    (w &&& m).toNat = w.toNat / 2 ^ k * 2 ^ k := by
  have hmask : 2 ^ 32 - 2 ^ k = (2 ^ (32 - k) - 1) * 2 ^ k := by
    rw [Nat.sub_mul, ← Nat.pow_add, Nat.sub_add_cancel hk, one_mul]
  rw [UInt32.toNat_and, hm, hmask]
  refine Nat.eq_of_testBit_eq fun i => ?_
  rw [Nat.testBit_and, Nat.testBit_mul_two_pow, Nat.testBit_mul_two_pow, Nat.testBit_div_two_pow,
    Nat.testBit_two_pow_sub_one]
  by_cases hi : k ≤ i
  · -- above the field, the mask has every bit that a word can have
    have hadd : i - k + k = i := by omega
    by_cases h32 : i < 32
    · simp [hi, hadd, show i - k < 32 - k by omega]
    · have hlt : w.toNat < 2 ^ i :=
        lt_of_lt_of_le w.toNat_lt (Nat.pow_le_pow_right (by decide) (by omega))
      simp [hadd, Nat.testBit_lt_two_pow hlt]
  · simp [hi]

/-- The two fields of a word put together. -/
theorem or_low (hv : 2 ^ k ∣ v.toNat) (hw : w.toNat < 2 ^ k) : (v ||| w).toNat = v.toNat + w.toNat := by
  obtain ⟨a, ha⟩ := hv
  rw [UInt32.toNat_or, ha, Nat.two_pow_add_eq_or_of_lt hw]

end Fields

section Split

variable {v w s : UInt32} {k : ℕ}

theorem shiftLeft_toNat (hs : s.toNat = k) (hk : k < 32) (hv : v.toNat * 2 ^ k < 2 ^ 32) :
    (v <<< s).toNat = v.toNat * 2 ^ k := by
  rw [UInt32.toNat_shiftLeft, hs, Nat.mod_eq_of_lt hk, Nat.shiftLeft_eq, Nat.mod_eq_of_lt hv]

theorem shiftRight_toNat (hs : s.toNat = k) (hk : k < 32) : (v >>> s).toNat = v.toNat / 2 ^ k := by
  rw [UInt32.toNat_shiftRight, hs, Nat.mod_eq_of_lt hk, Nat.shiftRight_eq_div_pow]

/-- A half-word cut out of a word. -/
theorem halfWord_toNat (hs : s.toNat = k) (hk : k < 32) :
    ((w >>> s) &&& 0xFFFF).toUInt16.toUInt32.toNat = w.toNat / 2 ^ k % 2 ^ 16 := by
  rw [UInt16.toNat_toUInt32, UInt32.toNat_toUInt16, and_lowMask (k := 16) rfl, shiftRight_toNat hs hk, Nat.mod_mod]

/-- A byte cut out of a word. -/
theorem byteField_toNat (hs : s.toNat = k) (hk : k < 32) :
    ((w >>> s) &&& 0xFF).toUInt8.toUInt32.toNat = w.toNat / 2 ^ k % 2 ^ 8 := by
  rw [UInt8.toNat_toUInt32, UInt32.toNat_toUInt8, and_lowMask (k := 8) rfl, shiftRight_toNat hs hk, Nat.mod_mod]

theorem lowHalf_toNat (w : UInt32) : (w &&& 0xFFFF).toUInt16.toUInt32.toNat = w.toNat % 2 ^ 16 := by
  rw [UInt16.toNat_toUInt32, UInt32.toNat_toUInt16, and_lowMask (k := 16) rfl, Nat.mod_mod]

/-- A word from its two halves. -/
theorem word_halves (w : UInt32) :
    (w &&& 0xFFFF).toUInt16.toUInt32 ||| (((w >>> 16) &&& 0xFFFF).toUInt16.toUInt32 <<< 16) = w := by
  have hlt := w.toNat_lt
  have hlow := lowHalf_toNat w
  have hmid := halfWord_toNat (w := w) (s := 16) (k := 16) rfl (by decide)
  have hhigh := shiftLeft_toNat (v := ((w >>> 16) &&& 0xFFFF).toUInt16.toUInt32) (s := 16) (k := 16) rfl (by decide)
    (by rw [hmid]; omega)
  apply UInt32.toNat_inj.mp
  rw [UInt32.or_comm, or_low (k := 16) (by rw [hhigh]; exact Nat.dvd_mul_left _ _) (by rw [hlow]; omega), hhigh, hlow,
    hmid]
  omega

/-- A word from its lower half and the two bytes above. -/
theorem word_parts (w : UInt32) :
    (w &&& 0xFFFF).toUInt16.toUInt32 ||| (((w >>> 16) &&& 0xFF).toUInt8.toUInt32 <<< 16) |||
      (((w >>> 24) &&& 0xFF).toUInt8.toUInt32 <<< 24) = w := by
  have hlt := w.toNat_lt
  have hlow := lowHalf_toNat w
  have hmid := byteField_toNat (w := w) (s := 16) (k := 16) rfl (by decide)
  have hmid' := shiftLeft_toNat (v := ((w >>> 16) &&& 0xFF).toUInt8.toUInt32) (s := 16) (k := 16) rfl (by decide)
    (by rw [hmid]; omega)
  have hhigh := byteField_toNat (w := w) (s := 24) (k := 24) rfl (by decide)
  have hhigh' := shiftLeft_toNat (v := ((w >>> 24) &&& 0xFF).toUInt8.toUInt32) (s := 24) (k := 24) rfl (by decide)
    (by rw [hhigh]; omega)
  have hfirst := or_low (v := ((w >>> 16) &&& 0xFF).toUInt8.toUInt32 <<< 16) (w := (w &&& 0xFFFF).toUInt16.toUInt32)
    (k := 16) (by rw [hmid']; exact Nat.dvd_mul_left _ _) (by rw [hlow]; omega)
  apply UInt32.toNat_inj.mp
  rw [UInt32.or_comm ((w &&& 0xFFFF).toUInt16.toUInt32), UInt32.or_comm _ (((w >>> 24) &&& 0xFF).toUInt8.toUInt32 <<< 24),
    or_low (k := 24) (by rw [hhigh']; exact Nat.dvd_mul_left _ _) (by rw [hfirst, hmid', hlow, hmid]; omega), hfirst,
    hhigh', hmid', hlow, hmid, hhigh]
  omega

end Split
end RtosKernel.Lib
