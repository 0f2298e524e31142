import Mathlib.Data.List.TakeWhile
import Mathlib.Tactic
import RtosKernel.Lib.Loop

/-!
# NUL-terminated strings in character arrays

A `CString` is a string as a C function receives it: the characters before the NUL. A character array is a
function from indices to characters; `HoldsString` says that a string stands at its start, whatever
follows the NUL, and `readString` reads it back.
-/

namespace RtosKernel.Lib

/-- The characters of a string, without the NUL that ends it. -/
@[ext]
structure CString where
  chars : List UInt8
  no_nul : 0 ∉ chars
  deriving DecidableEq

/-- The string of a literal, in UTF-8 as the sources are. -/
def CString.ofString (s : String) : CString where
  chars := (s.toList.flatMap String.utf8EncodeChar).takeWhile (· ≠ 0)
  no_nul h := by simpa using List.mem_takeWhile_imp h

/-- The array holds the string, with its NUL. -/
def HoldsString (buf : ℕ → UInt8) (cs : List UInt8) : Prop := ∀ i ≤ cs.length, buf i = cs.getD i 0

/-- The string in an array of `n` characters. -/
def readString (n : ℕ) (buf : ℕ → UInt8) : List UInt8 := ((List.range n).map buf).takeWhile (· ≠ 0)

/-- The array after the first `n` characters of `src` are copied into it, one after the other. -/
def copyChars (src : ℕ → UInt8) : ℕ → (ℕ → UInt8) → ℕ → UInt8
  | 0, dest => dest
  | n + 1, dest => Function.update (copyChars src n dest) n (src n)

/-- The array with its first `n` characters in the opposite order, exchanged pair by pair from the ends. -/
def reverseChars (n : ℕ) (buf : ℕ → UInt8) : ℕ → UInt8 :=
  (List.range (n / 2)).foldl
    (fun buf i => Function.update (Function.update buf i (buf (n - 1 - i))) (n - 1 - i) (buf i)) buf

section

variable {buf dest src : ℕ → UInt8} {c : UInt8} {cs : List UInt8} {n : ℕ}

theorem holdsString_nil : HoldsString buf [] ↔ buf 0 = 0 := by
  simp [HoldsString]

theorem holdsString_cons :
    HoldsString buf (c :: cs) ↔ buf 0 = c ∧ HoldsString (fun i => buf (i + 1)) cs := by
  constructor
  · intro h
    exact ⟨h 0 (Nat.zero_le _), fun i hi => h (i + 1) (Nat.succ_le_succ hi)⟩
  · rintro ⟨h0, h⟩ i hi
    cases i with
    | zero => exact h0
    | succ i => exact h i (Nat.le_of_succ_le_succ hi)

theorem readString_succ (n : ℕ) (buf : ℕ → UInt8) :
    readString (n + 1) buf = if buf 0 ≠ 0 then buf 0 :: readString n (fun i => buf (i + 1)) else [] := by
  rw [readString, List.range_succ_eq_map, List.map_cons, List.map_map, List.takeWhile_cons]
  by_cases h0 : buf 0 = 0
  · simp [h0]
  · simp only [h0, ne_eq, not_false_eq_true, decide_true, if_true]
    rfl

theorem zero_notMem_readString (n : ℕ) (buf : ℕ → UInt8) : 0 ∉ readString n buf :=
  fun h => by simpa using List.mem_takeWhile_imp h

/-- Reading back the string that an array holds. -/
theorem HoldsString.read (h : HoldsString buf cs) (hcs : 0 ∉ cs) (hn : cs.length ≤ n) :
    readString n buf = cs := by
  induction cs generalizing buf n with
  | nil =>
    have h0 := holdsString_nil.mp h
    cases n with
    | zero => rfl
    | succ m => rw [readString_succ, if_neg (not_not.mpr h0)]
  | cons c cs ih =>
    obtain ⟨m, rfl⟩ : ∃ m, n = m + 1 := ⟨n - 1, by simp at hn; omega⟩
    obtain ⟨h0, h'⟩ := holdsString_cons.mp h
    have hc : c ≠ 0 := fun e => hcs (by simp [e])
    have hrest : readString m (fun i => buf (i + 1)) = cs :=
      ih h' (fun hm => hcs (List.mem_cons_of_mem _ hm)) (Nat.le_of_succ_le_succ hn)
    rw [readString_succ, h0, if_pos hc, hrest]

theorem HoldsString.unique {cs' : List UInt8} (h : HoldsString buf cs) (h' : HoldsString buf cs') (hcs : 0 ∉ cs)
    (hcs' : 0 ∉ cs') : cs = cs' := by
  rw [← h.read hcs (le_max_left cs.length cs'.length), h'.read hcs' (le_max_right cs.length cs'.length)]

/-- An array that has a NUL holds the string that is read from it. -/
theorem holdsString_readString (h : (readString n buf).length < n) : HoldsString buf (readString n buf) := by
  induction n generalizing buf with
  | zero => exact absurd h (Nat.not_lt_zero _)
  | succ n ih =>
    rw [readString_succ] at h ⊢
    by_cases h0 : buf 0 ≠ 0
    · rw [if_pos h0] at h ⊢
      exact holdsString_cons.mpr ⟨rfl, ih (Nat.lt_of_succ_lt_succ h)⟩
    · rw [if_neg h0]
      exact holdsString_nil.mpr (not_not.mp h0)

/-- A string ends at the first NUL, or before. -/
theorem readString_length_le {k : ℕ} (hk : buf k = 0) (hn : k < n) : (readString n buf).length ≤ k := by
  induction n generalizing buf k with
  | zero => exact absurd hn (Nat.not_lt_zero k)
  | succ n ih =>
    rw [readString_succ]
    by_cases h0 : buf 0 ≠ 0
    · rw [if_pos h0]
      cases k with
      | zero => exact absurd hk h0
      | succ k => exact Nat.succ_le_succ (ih hk (Nat.lt_of_succ_lt_succ hn))
    · rw [if_neg h0]
      exact Nat.zero_le k

theorem HoldsString.map_range (h : HoldsString buf cs) {k : ℕ} (hk : k ≤ cs.length) :
    (List.range k).map buf = cs.take k := by
  refine List.ext_getElem ?_ fun i hi hi' => ?_
  · simp [hk]
  · have hlt : i < k := by simpa using hi
    rw [List.getElem_map, List.getElem_range, List.getElem_take, h i (by omega), List.getD_eq_getElem?_getD,
      List.getElem?_eq_getElem (by omega), Option.getD_some]

theorem copyChars_apply (i : ℕ) : copyChars src n dest i = if i < n then src i else dest i := by
  induction n with
  | zero => simp [copyChars]
  | succ n ih =>
    rw [copyChars]
    by_cases hi : i = n
    · subst hi
      simp
    · rw [Function.update_of_ne hi, ih]
      have hlt : i < n ↔ i < n + 1 := by omega
      simp only [hlt]

/-- A string that is copied character by character and then ended with a NUL. -/
theorem holdsString_copy (dest : ℕ → UInt8) (cs : List UInt8) :
    HoldsString (Function.update (copyChars (fun i => cs.getD i 0) cs.length dest) cs.length 0) cs := by
  intro i hi
  by_cases he : i = cs.length
  · subst he
    simp
  · rw [Function.update_of_ne he, copyChars_apply, if_pos (lt_of_le_of_ne hi he)]

theorem reverseChars_other {i : ℕ} (hi : n ≤ i) : reverseChars n buf i = buf i := by
  refine foldl_range (P := fun _ (t : ℕ → UInt8) => t i = buf i) rfl ?_
  intro k hk t ht
  rw [Function.update_of_ne (by omega), Function.update_of_ne (by omega), ht]

theorem reverseChars_apply {i : ℕ} (hi : i < n) : reverseChars n buf i = buf (n - 1 - i) := by
  -- after `k` exchanges the `k` characters at either end are in place, and the others are as they were
  have hloop : ∀ i < n, reverseChars n buf i =
      if i < n / 2 ∨ n - n / 2 ≤ i then buf (n - 1 - i) else buf i := by
    unfold reverseChars
    refine foldl_range (P := fun k (t : ℕ → UInt8) => ∀ i < n, t i =
      if i < k ∨ n - k ≤ i then buf (n - 1 - i) else buf i) ?_ ?_
    · intro i hi
      have hout : ¬ (i < 0 ∨ n - 0 ≤ i) := by omega
      rw [if_neg hout]
    · intro k hk t ht i hi
      by_cases hlast : i = n - 1 - k
      · subst hlast
        have hin : n - 1 - k < k + 1 ∨ n - (k + 1) ≤ n - 1 - k := by omega
        have hout : ¬ (k < k ∨ n - k ≤ k) := by omega
        have hback : n - 1 - (n - 1 - k) = k := by omega
        rw [Function.update_self, if_pos hin, ht k (by omega), if_neg hout, hback]
      · rw [Function.update_of_ne hlast]
        by_cases hfirst : i = k
        · subst hfirst
          have hout : ¬ (n - 1 - i < i ∨ n - i ≤ n - 1 - i) := by omega
          rw [Function.update_self, if_pos (by omega), ht _ (by omega), if_neg hout]
        · rw [Function.update_of_ne hfirst, ht i hi]
          have hiff : (i < k ∨ n - k ≤ i) ↔ (i < k + 1 ∨ n - (k + 1) ≤ i) := by omega
          simp only [hiff]
  rw [hloop i hi]
  by_cases hmid : i < n / 2 ∨ n - n / 2 ≤ i
  · rw [if_pos hmid]
  · have hself : n - 1 - i = i := by omega
    rw [if_neg hmid, hself]

end

end RtosKernel.Lib
