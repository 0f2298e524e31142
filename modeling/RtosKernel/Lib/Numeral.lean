import Mathlib.Data.List.TakeWhile
import Mathlib.Tactic

/-!
# Numerals

A decimal numeral is a text of decimal digits that is not empty, with its value as a natural number; a signed
numeral may have a minus before it. A program reads one with a loop that stops at the first character that is not a
digit (`digitLoop`), in a type of machine words: it finds the value of the digits up to there, reduced to a
word. The hexadecimal digits of a number, from place `k` down, have its value modulo `16 ^ k`
(`hexFrom_hexDigits`).
-/

namespace RtosKernel.Lib

/-- The characters from `'0'` to `'9'`. -/
def IsDigit (c : UInt8) : Prop := 48 ≤ c ∧ c ≤ 57

instance (c : UInt8) : Decidable (IsDigit c) := inferInstanceAs (Decidable (_ ∧ _))

/-- The value of digits that follow a number. -/
def digitsFrom (n : ℕ) (cs : List UInt8) : ℕ := cs.foldl (fun n c => n * 10 + (c.toNat - 48)) n

/-- The longest start of a text that has only digits. -/
def digitPrefix (cs : List UInt8) : List UInt8 := cs.takeWhile fun c => decide (IsDigit c)

/-- The value of a text that is a numeral. -/
def numeralValue (cs : List UInt8) : Option ℕ :=
  if !cs.isEmpty && cs.all fun c => decide (IsDigit c) then some (digitsFrom 0 cs) else none

/-- The text starts with a minus. -/
def IsNegative (cs : List UInt8) : Prop := cs.head? = some 45

instance (cs : List UInt8) : Decidable (IsNegative cs) := inferInstanceAs (Decidable (_ = _))

/-- The text without a minus at its start. -/
def unsignedPart (cs : List UInt8) : List UInt8 := if IsNegative cs then cs.tail else cs

/-- The value of a text that is a signed numeral. -/
def signedValue (cs : List UInt8) : Option ℤ :=
  (numeralValue (unsignedPart cs)).map fun n : ℕ => if IsNegative cs then -(n : ℤ) else (n : ℤ)

/-- `while (*p >= '0' && *p <= '9') n = n * 10 + (*p++ - '0');`, in a type with the literals `lit`. -/
def digitLoop {α : Type} [Add α] [Mul α] (lit : ℕ → α) : α → List UInt8 → α
  | n, [] => n
  | n, c :: cs => if IsDigit c then digitLoop lit (n * lit 10 + lit (c.toNat - 48)) cs else n

section

variable {cs : List UInt8} {n : ℕ}

theorem numeralValue_eq_some (h : numeralValue cs = some n) :
    cs ≠ [] ∧ (∀ c ∈ cs, IsDigit c) ∧ digitsFrom 0 cs = n := by
  unfold numeralValue at h
  split_ifs at h with hnum
  obtain ⟨hne, hdigits⟩ : cs ≠ [] ∧ ∀ c ∈ cs, IsDigit c := by simpa using hnum
  exact ⟨hne, hdigits, Option.some.inj h⟩

theorem digitPrefix_of_digits (h : ∀ c ∈ cs, IsDigit c) : digitPrefix cs = cs :=
  List.takeWhile_eq_self_iff.mpr fun c hc => decide_eq_true (h c hc)

/-- The value that is read from a numeral is its own. -/
theorem digitPrefix_of_numeral (h : numeralValue cs = some n) : digitsFrom 0 (digitPrefix cs) = n := by
  obtain ⟨-, hdigits, hvalue⟩ := numeralValue_eq_some h
  rw [digitPrefix_of_digits hdigits, hvalue]

/-- The loop reads the digits at the start of the text, in any type where the literals add and multiply. -/
theorem digitLoop_eq {α : Type} [Add α] [Mul α] {lit : ℕ → α} (hadd : ∀ a b, lit (a + b) = lit a + lit b)
    (hmul : ∀ a b, lit (a * b) = lit a * lit b) (n : ℕ) (cs : List UInt8) :
    digitLoop lit (lit n) cs = lit (digitsFrom n (digitPrefix cs)) := by
  induction cs generalizing n with
  | nil => rfl
  | cons c cs ih =>
    rw [digitLoop]
    by_cases hc : IsDigit c
    · have hcons : digitPrefix (c :: cs) = c :: digitPrefix cs := List.takeWhile_cons_of_pos (decide_eq_true hc)
      rw [if_pos hc, ← hmul, ← hadd, ih, hcons]
      rfl
    · have hnil : digitPrefix (c :: cs) = [] := List.takeWhile_cons_of_neg (by simpa using hc)
      rw [if_neg hc, hnil]
      rfl

theorem digitLoop_uint32 (cs : List UInt8) :
    digitLoop UInt32.ofNat 0 cs = UInt32.ofNat (digitsFrom 0 (digitPrefix cs)) :=
  digitLoop_eq UInt32.ofNat_add UInt32.ofNat_mul 0 cs

theorem digitLoop_int32 (cs : List UInt8) :
    digitLoop Int32.ofNat 0 cs = Int32.ofNat (digitsFrom 0 (digitPrefix cs)) :=
  digitLoop_eq Int32.ofNat_add Int32.ofNat_mul 0 cs

end

/-! ## Hexadecimal numerals -/

/-- The value of a hexadecimal digit, in either case. -/
def hexValue (c : UInt8) : Option ℕ :=
  if 48 ≤ c ∧ c ≤ 57 then some (c.toNat - 48)
  else if 97 ≤ c ∧ c ≤ 102 then some (c.toNat - 87)
  else if 65 ≤ c ∧ c ≤ 70 then some (c.toNat - 55)
  else none

/-- The value of hexadecimal digits that follow a number. -/
def hexFrom (n : ℕ) (cs : List UInt8) : ℕ := cs.foldl (fun n c => n * 16 + (hexValue c).getD 0) n

/-- The digit with a value below 16. -/
def hexChar (v : ℕ) : UInt8 := if v < 10 then UInt8.ofNat (48 + v) else UInt8.ofNat (55 + v)

/-- The last `k` digits of a number. -/
def hexDigits (k n : ℕ) : List UInt8 := (List.range k).reverse.map fun i => hexChar (n / 16 ^ i % 16)

section

variable {c : UInt8} {cs : List UInt8} {k n v : ℕ}

theorem hexValue_lt (h : hexValue c = some v) : v < 16 := by
  unfold hexValue at h
  simp only [UInt8.le_iff_toNat_le] at h
  split_ifs at h with h1 h2 h3
  · obtain rfl := Option.some.inj h
    have : c.toNat ≤ 57 := h1.2
    omega
  · obtain rfl := Option.some.inj h
    have : c.toNat ≤ 102 := h2.2
    omega
  · obtain rfl := Option.some.inj h
    have : c.toNat ≤ 70 := h3.2
    omega

theorem hexValue_hexChar (h : v < 16) : hexValue (hexChar v) = some v := by
  interval_cases v <;> rfl

theorem hexFrom_eq_add (n : ℕ) (cs : List UInt8) : hexFrom n cs = n * 16 ^ cs.length + hexFrom 0 cs := by
  induction cs generalizing n with
  | nil => simp [hexFrom]
  | cons c cs ih =>
    show hexFrom (n * 16 + (hexValue c).getD 0) cs = n * 16 ^ (cs.length + 1) + hexFrom (0 * 16 + (hexValue c).getD 0) cs
    rw [ih, ih (0 * 16 + (hexValue c).getD 0)]
    ring

theorem hexFrom_lt (h : ∀ c ∈ cs, (hexValue c).isSome) : hexFrom 0 cs < 16 ^ cs.length := by
  induction cs with
  | nil => exact Nat.one_pos
  | cons c cs ih =>
    obtain ⟨v, hv⟩ := Option.isSome_iff_exists.mp (h c (List.mem_cons_self ..))
    have hlt := hexValue_lt hv
    have hrest := ih fun c hc => h c (List.mem_cons_of_mem _ hc)
    have hcons : hexFrom 0 (c :: cs) = v * 16 ^ cs.length + hexFrom 0 cs := by
      show hexFrom (0 * 16 + (hexValue c).getD 0) cs = _
      rw [hexFrom_eq_add, hv, Option.getD_some, Nat.zero_mul, Nat.zero_add]
    have hle : v * 16 ^ cs.length ≤ 15 * 16 ^ cs.length := Nat.mul_le_mul_right _ (by omega)
    rw [hcons, List.length_cons, pow_succ]
    omega

theorem hexDigits_succ (k n : ℕ) : hexDigits (k + 1) n = hexChar (n / 16 ^ k % 16) :: hexDigits k n := by
  rw [hexDigits, List.range_succ, List.reverse_append, List.reverse_singleton, List.singleton_append, List.map_cons]
  rfl

theorem hexDigits_length (k n : ℕ) : (hexDigits k n).length = k := by
  simp [hexDigits]

theorem hexDigits_getD {j : ℕ} (hj : j < k) : (hexDigits k n).getD j 0 = hexChar (n / 16 ^ (k - 1 - j) % 16) := by
  have hj' : j < (List.range k).reverse.length := by simpa using hj
  rw [hexDigits, List.getD_eq_getElem?_getD, List.getElem?_map, List.getElem?_eq_getElem hj', Option.map_some,
    Option.getD_some, List.getElem_reverse, List.getElem_range, List.length_range]

theorem hexDigits_isSome (h : c ∈ hexDigits k n) : (hexValue c).isSome := by
  obtain ⟨i, -, rfl⟩ := List.mem_map.mp h
  rw [hexValue_hexChar (Nat.mod_lt _ (by decide))]
  rfl

/-- The digits of a number have its value. -/
theorem hexFrom_hexDigits (k n : ℕ) : hexFrom 0 (hexDigits k n) = n % 16 ^ k := by
  induction k with
  | zero => exact (Nat.mod_one n).symm
  | succ k ih =>
    have hdigit := hexValue_hexChar (Nat.mod_lt (n / 16 ^ k) (show 0 < 16 by decide))
    have hcons : hexFrom 0 (hexDigits (k + 1) n) = hexFrom (n / 16 ^ k % 16) (hexDigits k n) := by
      rw [hexDigits_succ, hexFrom, List.foldl_cons, hdigit, Option.getD_some, Nat.zero_mul, Nat.zero_add, hexFrom]
    rw [hcons, hexFrom_eq_add, ih, hexDigits_length, Nat.mod_pow_succ]
    ring

end

end RtosKernel.Lib
