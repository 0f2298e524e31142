import RtosKernel.Lib.WordRange
import RtosKernel.Syscall

/-!
# The check of user ranges

`is_user_accessible` compares the two ends of a range with the ends of the user window, the second one modulo
`2^32`. It is exact for the ranges that end below `2^32`, and an accepted one has only accepted parts; a range that
wraps around is accepted if its end falls below `user_top` again (`rangeChecked_iff`).
-/

namespace RtosKernel

open Lib

section UserRange

variable {ptr len : UInt32}

theorem isUserAccessible_iff :
    isUserAccessible ptr len = 1 ↔
      userBase.toNat ≤ ptr.toNat ∧ (ptr.toNat + len.toNat) % 2 ^ 32 ≤ userTop.toNat := by
  have hend : ptr + len ≤ userTop ↔ (ptr.toNat + len.toNat) % 2 ^ 32 ≤ userTop.toNat := by
    rw [UInt32.le_iff_toNat_le, UInt32.toNat_add]
  rw [← UInt32.le_iff_toNat_le, ← hend, isUserAccessible]
  split_ifs with h
  · apply iff_of_false (by decide)
    rintro ⟨hlo, hhi⟩
    rcases h with h | h
    · exact absurd h (UInt32.not_lt.mpr hlo)
    · exact absurd h (UInt32.not_lt.mpr hhi)
  · rw [not_or, UInt32.not_lt, gt_iff_lt, UInt32.not_lt] at h
    exact iff_of_true rfl h

/-- The check accepts the range exactly if it is in the user window, and with it every part of the range. -/
def RangeChecked (ptr len : UInt32) : Prop :=
  (isUserAccessible ptr len = 1 ↔ InWindow userBase.toNat userTop.toNat ptr.toNat len.toNat) ∧
    (isUserAccessible ptr len = 1 →
      ∀ i k : UInt32, i.toNat + k.toNat ≤ len.toNat → isUserAccessible (ptr + i) k = 1)

/-- A range in the user window is accepted. -/
theorem isUserAccessible_of_inWindow (h : InWindow userBase.toNat userTop.toNat ptr.toNat len.toNat) :
    isUserAccessible ptr len = 1 := by
  obtain ⟨hlo, hhi⟩ := inWindow_iff.mp h
  rw [isUserAccessible_iff]
  exact ⟨hlo, (Nat.mod_le _ _).trans hhi⟩

/-- A part of a range in the user window does not wrap around either. -/
theorem part_toNat (h : InWindow userBase.toNat userTop.toNat ptr.toNat len.toNat) {i : UInt32}
    (hi : i.toNat ≤ len.toNat) : (ptr + i).toNat = ptr.toNat + i.toNat := by
  obtain ⟨-, hhi⟩ := inWindow_iff.mp h
  have htop : userTop.toNat < 2 ^ 32 := userTop.toNat_lt
  rw [UInt32.toNat_add]
  apply Nat.mod_eq_of_lt
  omega

/-- **The check of a range is exact, and closed under parts, if and only if its address is below the window, its
end is below `2^32`, or its end is above the window modulo `2^32` as well.** -/
theorem rangeChecked_iff (ptr len : UInt32) :
    RangeChecked ptr len ↔
      ptr < userBase ∨ ptr.toNat + len.toNat < 2 ^ 32 ∨ userTop.toNat + 2 ^ 32 < ptr.toNat + len.toNat := by
  have hexact : (isUserAccessible ptr len = 1 ↔ InWindow userBase.toNat userTop.toNat ptr.toNat len.toNat) ↔
      (ptr < userBase ∨ ptr.toNat + len.toNat < 2 ^ 32 ∨ userTop.toNat + 2 ^ 32 < ptr.toNat + len.toNat) := by
    rw [isUserAccessible_iff, UInt32.lt_iff_toNat_lt]
    exact wrappedCheck_iff ptr.toNat_lt len.toNat_lt userTop.toNat_lt
  constructor
  · rintro ⟨h, -⟩
    exact hexact.mp h
  · intro h
    have hcheck := hexact.mpr h
    refine ⟨hcheck, ?_⟩
    intro hone i k hik
    have hwindow := hcheck.mp hone
    apply isUserAccessible_of_inWindow
    rw [part_toNat hwindow (by omega)]
    exact hwindow.part hik

/-- The rest of the address space from `user_base` on: it ends at `2^32`, which the check takes for `0`. -/
theorem user_range_wraps : ¬ RangeChecked 0x08000000 0xF8000000 := by
  rintro ⟨hexact, -⟩
  have haccepted : isUserAccessible 0x08000000 0xF8000000 = 1 := by decide
  have hend := (inWindow_iff.mp (hexact.mp haccepted)).2
  exact absurd hend (by decide)

end UserRange

end RtosKernel
