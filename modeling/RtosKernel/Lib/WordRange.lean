import Mathlib.Tactic

/-!
# Ranges of addresses

A range is an address and a length, and it lies in a window `[lo, hi)` if all of its bytes do; the empty range may
stand at the end of the window too. To check this it is enough to compare the two ends (`inWindow_iff`). A check
that computes the end in machine words compares it modulo their number, and is right exactly as long as the end
is not one that wraps around into the window (`wrappedCheck_iff`).
-/

namespace RtosKernel.Lib

/-- Every byte of the range is in the window, and so is its address, or it is the end of the window. -/
def InWindow (lo hi ptr len : ℕ) : Prop := (∀ i < len, lo ≤ ptr + i ∧ ptr + i < hi) ∧ lo ≤ ptr ∧ ptr ≤ hi

section

variable {lo hi ptr len m : ℕ}

theorem inWindow_iff : InWindow lo hi ptr len ↔ lo ≤ ptr ∧ ptr + len ≤ hi := by
  constructor
  · rintro ⟨hbytes, hlo, hhi⟩
    refine ⟨hlo, ?_⟩
    cases len with
    | zero => exact hhi
    | succ n =>
      have hlast := (hbytes n (Nat.lt_succ_self n)).2
      omega
  · rintro ⟨hlo, hhi⟩
    refine ⟨?_, hlo, by omega⟩
    intro i hi
    omega

/-- A part of a range that is in the window is in it. -/
theorem InWindow.part (h : InWindow lo hi ptr len) {i k : ℕ} (hik : i + k ≤ len) : InWindow lo hi (ptr + i) k := by
  rw [inWindow_iff] at h ⊢
  omega

/-- The comparison of the two ends with the second one modulo `m` is right if and only if that one is below `m`, or
would be refused anyway. -/
theorem wrappedCheck_iff (hptr : ptr < m) (hlen : len < m) (hhi : hi < m) :
    ((lo ≤ ptr ∧ (ptr + len) % m ≤ hi) ↔ InWindow lo hi ptr len) ↔
      (ptr < lo ∨ ptr + len < m ∨ hi + m < ptr + len) := by
  rw [inWindow_iff]
  by_cases hwrap : ptr + len < m
  · rw [Nat.mod_eq_of_lt hwrap]
    exact iff_of_true Iff.rfl (Or.inr (Or.inl hwrap))
  · have hmod : (ptr + len) % m = ptr + len - m := by
      rw [Nat.mod_eq_sub_mod (not_lt.mp hwrap), Nat.mod_eq_of_lt (by omega)]
    rw [hmod]
    omega

end

end RtosKernel.Lib
