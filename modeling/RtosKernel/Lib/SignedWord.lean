import Mathlib.Tactic

/-!
# Signed 32-bit words as integers

The operations on `Int32` wrap around. `IsInt32` is the range in which they do not, and the rules say that
an operation whose exact result is in that range gives it. The unsigned reading of a word is its value
modulo `2 ^ 32`.
-/

namespace RtosKernel.Lib

/-- The integers that a signed 32-bit word can hold. -/
def IsInt32 (x : ℤ) : Prop := -2 ^ 31 ≤ x ∧ x < 2 ^ 31

instance (x : ℤ) : Decidable (IsInt32 x) := inferInstanceAs (Decidable (_ ∧ _))

section

variable {a b : Int32} {x : ℤ}

theorem isInt32_toInt (a : Int32) : IsInt32 a.toInt := ⟨a.le_toInt, a.toInt_lt⟩

theorem IsInt32.bmod_eq (h : IsInt32 x) : x.bmod (2 ^ 32) = x := by
  obtain ⟨hlo, hhi⟩ := h
  refine Int.bmod_eq_of_le ?_ ?_
  · norm_num
    omega
  · norm_num
    omega

theorem toInt_add_of_isInt32 (h : IsInt32 (a.toInt + b.toInt)) : (a + b).toInt = a.toInt + b.toInt := by
  rw [Int32.toInt_add, h.bmod_eq]

theorem toInt_sub_of_isInt32 (h : IsInt32 (a.toInt - b.toInt)) : (a - b).toInt = a.toInt - b.toInt := by
  rw [Int32.toInt_sub, h.bmod_eq]

theorem pos_iff_toInt_pos : 0 < a ↔ 0 < a.toInt := Int32.lt_iff_toInt_lt

/-- The successor of the largest word is the smallest one. -/
theorem toInt_add_one (a : Int32) : (a + 1).toInt = if a.toInt = 2 ^ 31 - 1 then -2 ^ 31 else a.toInt + 1 := by
  have hone : (1 : Int32).toInt = 1 := rfl
  obtain ⟨hlo, hhi⟩ := isInt32_toInt a
  split_ifs with hmax
  · rw [Int32.toInt_add, hone, hmax]
    decide
  · have hrange : IsInt32 (a.toInt + (1 : Int32).toInt) := by
      rw [hone]
      constructor <;> omega
    rw [toInt_add_of_isInt32 hrange, hone]

/-- The unsigned reading of a word. -/
theorem toNat_toUInt32 (a : Int32) : (a.toUInt32.toNat : ℤ) = a.toInt % 2 ^ 32 := by
  have hlt : (a.toBitVec.toNat : ℤ) < 2 ^ 32 := by exact_mod_cast a.toBitVec.isLt
  have hmod : (a.toBitVec.toNat : ℤ).bmod (2 ^ 32) % 2 ^ 32 = (a.toBitVec.toNat : ℤ) % 2 ^ 32 := Int.bmod_emod
  rw [← Int32.toNat_toBitVec, ← Int32.toInt_toBitVec, BitVec.toInt_eq_toNat_bmod, hmod]
  exact (Int.emod_eq_of_lt (Int.natCast_nonneg _) hlt).symm

end

end RtosKernel.Lib
