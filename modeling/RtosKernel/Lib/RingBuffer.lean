import Mathlib.Data.List.DropRight
import Mathlib.Tactic

/-!
# Circular buffers

An array of `n` cells with the index of the oldest value, the index of the next free cell and the number
of values held. `ringItems` is the FIFO list of the values; the cells outside it may hold anything.

The indices are integers and advance by C's `%`, which on the nonnegative ones is `Int.emod`.

A buffer that drops its oldest value when it is full holds the last values of a list (`List.rtake`), and
`rtake_concat` says how a new value changes them.
-/

namespace RtosKernel.Lib

variable {α : Type*}

/-- The `k` values from index `i` on, in a buffer of `n` cells. -/
def ringItems (buf : ℤ → α) (n i : ℤ) (k : ℕ) : List α :=
  (List.range k).map fun j : ℕ => buf ((i + j) % n)

/-- The indices of a buffer of `n` cells that holds `count` values. -/
structure RingIdx (n read write count : ℤ) : Prop where
  count_nonneg : 0 ≤ count
  count_le : count ≤ n
  read_nonneg : 0 ≤ read
  read_lt : read < n
  write_nonneg : 0 ≤ write
  write_lt : write < n
  write_eq : write = (read + count) % n

section

variable {buf : ℤ → α} {n i read write count : ℤ} {k : ℕ}

@[simp] theorem ringItems_length : (ringItems buf n i k).length = k := by
  simp [ringItems]

/-- A store into the cell behind the last value changes none of the values. -/
theorem ringItems_store (hk : (k : ℤ) < n) (x : α) :
    ringItems (Function.update buf ((i + k) % n) x) n i k = ringItems buf n i k := by
  refine List.map_congr_left fun j hj => ?_
  have hj' := List.mem_range.mp hj
  have hne : (i + j) % n ≠ (i + k) % n := by
    intro he
    have hdvd : n ∣ (i + k) - (i + j) := Int.ModEq.dvd he
    have hle := Int.le_of_dvd (by omega) hdvd
    omega
  exact Function.update_of_ne hne ..

/-- The value stored behind the last one is appended. -/
theorem ringItems_push (hk : (k : ℤ) < n) (x : α) :
    ringItems (Function.update buf ((i + k) % n) x) n i (k + 1) = ringItems buf n i k ++ [x] := by
  rw [← ringItems_store hk x]
  simp [ringItems, List.range_succ]

/-- The oldest value is the one at the read index; the others follow it. -/
theorem ringItems_pop (buf : ℤ → α) (n i : ℤ) (k : ℕ) :
    ringItems buf n i (k + 1) = buf (i % n) :: ringItems buf n ((i + 1) % n) k := by
  rw [ringItems, List.range_succ_eq_map, List.map_cons, List.map_map]
  refine congrArg₂ List.cons (by simp) (List.map_congr_left fun j _ => ?_)
  show buf ((i + ((j + 1 : ℕ) : ℤ)) % n) = buf (((i + 1) % n + j) % n)
  rw [Int.emod_add_emod]
  push_cast
  ring_nf

theorem RingIdx.pos (h : RingIdx n read write count) : 0 < n := lt_of_le_of_lt h.read_nonneg h.read_lt

theorem ringIdx_empty (hn : 0 < n) : RingIdx n 0 0 0 :=
  ⟨le_rfl, hn.le, le_rfl, hn, le_rfl, hn, by simp⟩

/-- The next index, as C computes it. -/
theorem tmod_succ_range {i : ℤ} (hn : 0 < n) (hi : 0 ≤ i) :
    (i + 1).tmod n = (i + 1) % n ∧ 0 ≤ (i + 1).tmod n ∧ (i + 1).tmod n < n := by
  have heq : (i + 1).tmod n = (i + 1) % n := Int.tmod_eq_emod_of_nonneg (by omega)
  refine ⟨heq, ?_, ?_⟩
  · rw [heq]
    exact Int.emod_nonneg _ hn.ne'
  · rw [heq]
    exact Int.emod_lt_of_pos _ hn

/-- Storing a value advances the write index. -/
theorem RingIdx.push (h : RingIdx n read write count) (hc : count < n) :
    RingIdx n read ((write + 1).tmod n) (count + 1) := by
  obtain ⟨heq, hge, hlt⟩ := tmod_succ_range h.pos h.write_nonneg
  refine ⟨by have := h.count_nonneg; omega, by omega, h.read_nonneg, h.read_lt, hge, hlt, ?_⟩
  rw [heq, h.write_eq, Int.emod_add_emod]
  ring_nf

/-- Taking the oldest value advances the read index. -/
theorem RingIdx.pop (h : RingIdx n read write count) (hc : 0 < count) :
    RingIdx n ((read + 1).tmod n) write (count - 1) := by
  obtain ⟨heq, hge, hlt⟩ := tmod_succ_range h.pos h.read_nonneg
  refine ⟨by omega, by have := h.count_le; omega, hge, hlt, h.write_nonneg, h.write_lt, ?_⟩
  rw [heq, h.write_eq, Int.emod_add_emod]
  ring_nf

/-- The values after a value was stored at the write index. -/
theorem RingIdx.items_push (h : RingIdx n read write count) (hc : count < n) (x : α) :
    ringItems (Function.update buf write x) n read (count + 1).toNat =
      ringItems buf n read count.toNat ++ [x] := by
  have h0 := h.count_nonneg
  have hk : ((count.toNat : ℕ) : ℤ) = count := Int.toNat_of_nonneg h0
  have hsucc : (count + 1).toNat = count.toNat + 1 := by omega
  have hw : write = (read + (count.toNat : ℕ)) % n := by
    rw [hk]
    exact h.write_eq
  rw [hsucc, hw]
  exact ringItems_push (by omega) x

/-- The values before the oldest one was taken. -/
theorem RingIdx.items_pop (h : RingIdx n read write count) (hc : 0 < count) (buf : ℤ → α) :
    ringItems buf n read count.toNat =
      buf read :: ringItems buf n ((read + 1).tmod n) (count - 1).toNat := by
  have hsucc : count.toNat = (count - 1).toNat + 1 := by omega
  have hnn := h.read_nonneg
  have heq : (read + 1).tmod n = (read + 1) % n := Int.tmod_eq_emod_of_nonneg (by omega)
  rw [hsucc, ringItems_pop, heq, Int.emod_eq_of_lt hnn h.read_lt]

/-- In a full buffer the next free cell is the one of the oldest value. -/
theorem RingIdx.full (h : RingIdx n read write n) : write = read := by
  rw [h.write_eq, Int.add_emod_right, Int.emod_eq_of_lt h.read_nonneg h.read_lt]

/-- A value stored into a full buffer takes the place of the oldest one. -/
theorem RingIdx.overwrite (h : RingIdx n read write n) :
    RingIdx n ((write + 1).tmod n) ((write + 1).tmod n) n := by
  have hpop := h.pop h.pos
  have hpush := hpop.push (by omega)
  rw [sub_add_cancel, ← h.full] at hpush
  exact hpush

theorem RingIdx.items_overwrite (h : RingIdx n read write n) (x : α) :
    ringItems (Function.update buf write x) n ((write + 1).tmod n) n.toNat =
      (ringItems buf n read n.toNat).tail ++ [x] := by
  have hpop := h.pop h.pos
  have hpush := @RingIdx.items_push α buf n _ _ _ hpop (by omega) x
  rw [sub_add_cancel] at hpush
  rw [h.items_pop h.pos, List.tail_cons, ← hpush, h.full]

end

/-! ## The last values of a list -/

section Last

variable {l : List α} {n : ℕ}

theorem rtake_append_of_lt (h : l.length < n) (x : α) : (l ++ [x]).rtake n = l.rtake n ++ [x] := by
  have h1 : l.length + 1 - n = 0 := by omega
  have h2 : l.length - n = 0 := by omega
  simp [List.rtake, h1, h2]

theorem rtake_append_of_le (hn : 0 < n) (h : n ≤ l.length) (x : α) :
    (l ++ [x]).rtake n = (l.rtake n).tail ++ [x] := by
  have h1 : l.length + 1 - n = l.length - n + 1 := by omega
  rw [List.rtake, List.rtake, List.tail_drop, List.length_append, List.length_singleton, h1,
    List.drop_append_of_le_length (by omega)]

theorem rtake_length (l : List α) (n : ℕ) : (l.rtake n).length = min n l.length := by
  rw [List.rtake, List.length_drop]
  omega

/-- Only the values that are held count when the next one comes. -/
theorem rtake_concat (hn : 0 < n) (l : List α) (x : α) : (l.rtake n ++ [x]).rtake n = (l ++ [x]).rtake n := by
  have hlen := rtake_length l n
  by_cases h : l.length < n
  · have hall : l.rtake n = l := by
      rw [List.rtake, Nat.sub_eq_zero_of_le h.le, List.drop_zero]
    rw [hall]
  · rw [rtake_append_of_le hn (not_lt.mp h), rtake_append_of_le hn (by omega), List.rtake, hlen,
      min_eq_left (not_lt.mp h), Nat.sub_self, List.drop_zero]

theorem getLast?_rtake (hn : 0 < n) (l : List α) : (l.rtake n).getLast? = l.getLast? := by
  rw [List.rtake, List.getLast?_drop]
  by_cases hl : l = []
  · simp [hl]
  · have hpos := List.length_pos_iff.mpr hl
    rw [if_neg (by omega)]

end Last

end RtosKernel.Lib
