import RtosKernel.Printing
import RtosKernel.Proofs.ShellCommandProofs
import RtosKernel.Proofs.TerminalProofs

/-!
# Numbers as texts

All decimal printers give the numeral of the number: they write its digits from the last one on, in arrays that are
long enough (`putDigits_eq`), and turn them around. The hexadecimal ones give its eight digits, and the address
parser of `hexdump` finds the value of the digits that it reads (`HexAddress.value`).
-/

namespace RtosKernel

open Lib

/-! ## Decimal -/

/-- A positive number whose numeral fits is written as `log_msg` writes the tick count. -/
theorem putDigits_eq {places : ℕ} {n : UInt32} (h0 : 0 < n) (hlen : (decimal n.toNat).length ≤ places)
    (buf : ℕ → UInt8) (i : ℕ) : putDigits places n buf i = .ok (tickLoop places n buf i) := by
  induction places generalizing n buf i with
  | zero => exact absurd (List.length_eq_zero_iff.mp (Nat.le_zero.mp hlen)) (decimal_ne_nil _)
  | succ places ih =>
    have hpos : 0 < n.toNat := UInt32.lt_iff_toNat_lt.mp h0
    have hdiv : (n / 10).toNat = n.toNat / 10 := rfl
    rw [putDigits, tickLoop, if_pos h0, if_pos h0]
    by_cases hd : n.toNat / 10 = 0
    · have hstop : ¬ 0 < n / 10 := by
        rw [UInt32.lt_iff_toNat_lt, hdiv, hd]
        exact lt_irrefl _
      cases places with
      | zero => rw [putDigits, tickLoop, if_neg hstop, pure_eq_ok]
      | succ places => rw [putDigits, tickLoop, if_neg hstop, if_neg hstop, pure_eq_ok]
    · have hgo : 0 < n / 10 := by
        rw [UInt32.lt_iff_toNat_lt, hdiv]
        exact Nat.pos_of_ne_zero hd
      rw [decimal_eq_concat hpos, if_neg hd, List.length_append, List.length_singleton] at hlen
      apply ih hgo
      rw [hdiv]
      omega

/-- The digits that a printer has in its array when it begins to turn them around. -/
theorem putDigits_spec (places : ℕ) (hplaces : 10 ≤ places) {n : UInt32} (h0 : n ≠ 0) (buf : ℕ → UInt8) :
    ∃ buf', putDigits places n buf 0 = .ok (buf', (decimal n.toNat).length) ∧
      ∀ j < (decimal n.toNat).length, buf' ((decimal n.toNat).length - 1 - j) = (decimal n.toNat).getD j 0 := by
  have hpos : 0 < n := by
    rw [UInt32.lt_iff_toNat_lt]
    exact Nat.pos_of_ne_zero fun h => h0 (UInt32.toNat_inj.mp h)
  have hlen : (decimal n.toNat).length ≤ places := (decimal_length_le n.toNat_lt).trans hplaces
  obtain ⟨buf', he, -, hdigits⟩ := tickLoop_spec hpos hlen buf 0
  rw [Nat.zero_add] at he
  refine ⟨buf', by rw [putDigits_eq hpos hlen, he], ?_⟩
  intro j hj
  have hback := hdigits ((decimal n.toNat).length - 1 - j) (by omega)
  have hself : (decimal n.toNat).length - 1 - ((decimal n.toNat).length - 1 - j) = j := by omega
  rw [Nat.zero_add, List.getD_eq_getElem?_getD, List.getElem?_reverse (by omega), hself] at hback
  rw [hback, List.getD_eq_getElem?_getD]

/-- Stores of the first `k` characters of a text into an array that has room for them. -/
theorem foldlM_setAt {size k : ℕ} (hk : k ≤ size) (c out : ℕ → UInt8) :
    ∃ out', (List.range k).foldlM (fun out j => setAt size j (c j) out) out = .ok out' ∧ ∀ j < k, out' j = c j := by
  apply foldlM_range (P := fun n (out : ℕ → UInt8) => ∀ j < n, out j = c j)
  · exact fun j hj => absurd hj (Nat.not_lt_zero j)
  · intro n hn out' hout
    refine ⟨_, setAt_ok (by omega) _ out', ?_⟩
    intro j hj
    rw [Function.update_apply]
    split_ifs with hjn
    · rw [hjn]
    · exact hout j (by omega)

/-- `print_uint` prints the decimal numeral. -/
theorem printUint_eq (buf out : ℕ → UInt8) (n : UInt32) :
    printUint buf out n = .ok ⟨decimal n.toNat, decimal_no_nul _⟩ := by
  unfold printUint
  by_cases h0 : n = 0
  · subst h0
    rw [if_pos rfl, pure_eq_ok]
    rfl
  · obtain ⟨buf', he, hdigits⟩ := putDigits_spec 16 (by decide) h0 buf
    have hlen := decimal_length_le n.toNat_lt
    obtain ⟨out', hout, hchars⟩ : ∃ out', (List.range (decimal n.toNat).length).foldlM
        (fun out j => setAt 16 j (buf' ((decimal n.toNat).length - 1 - j)) out) out = .ok out' ∧
          ∀ j < (decimal n.toNat).length, out' j = buf' ((decimal n.toNat).length - 1 - j) :=
      foldlM_setAt (by omega) _ out
    have hholds : HoldsString (Function.update out' (decimal n.toNat).length 0) (decimal n.toNat) := by
      intro j hj
      rw [Function.update_apply]
      split_ifs with hjlen
      · rw [hjlen]
        simp
      · rw [hchars j (by omega), hdigits j (by omega)]
    rw [if_neg h0, he, ok_bind]
    simp only [hout, ok_bind]
    rw [setAt, if_pos (by omega), ok_bind]
    exact cString_holds hholds (by show (decimal n.toNat).length < 16; omega)

/-- `terminal_write_dec` writes the decimal numeral and a blank, as `terminal_write_at` writes a string. -/
theorem terminalWriteDec_eq (buf : ℕ → UInt8) (n : UInt32) (row col : Int32) (s : Terminal) :
    terminalWriteDec buf n row col s =
      .ok (vgaPutAt row.toInt (col + Int32.ofNat (decimal n.toNat).length).toInt 32 vgaColorDefault
        (terminalWriteAt ⟨decimal n.toNat, decimal_no_nul _⟩ row col s)) := by
  unfold terminalWriteDec terminalWriteAt terminalWriteAtCol
  by_cases h0 : n = 0
  · subst h0
    have hzero : decimal (0 : UInt32).toNat = [48] := decimal_of_lt (by decide)
    have hcol : col + Int32.ofNat 0 = col := Int32.add_zero col
    simp only [if_pos, hzero, List.length_singleton, List.range_one, List.foldl_cons, List.foldl_nil, hcol, pure_eq_ok]
    rfl
  · obtain ⟨buf', he, hdigits⟩ := putDigits_spec 12 (by decide) h0 buf
    rw [if_neg h0, he, ok_bind]
    simp only [pure_eq_ok]
    congr 2
    apply List.foldl_ext
    intro t j hj
    rw [hdigits j (List.mem_range.mp hj)]

/-- A column that is not beyond the screen. -/
theorem column_toInt {col : Int32} {k : ℕ} (hcol : 0 ≤ col.toInt) (hk : col.toInt + k ≤ 80) :
    (col + Int32.ofNat k).toInt = col.toInt + k := by
  have hofNat : (Int32.ofNat k).toInt = k := Int32.toInt_ofNat_of_lt (by omega)
  have hsum : IsInt32 (col.toInt + (Int32.ofNat k).toInt) := by
    rw [hofNat, IsInt32]
    omega
  rw [toInt_add_of_isInt32 hsum, hofNat]

/-- A string that fits into a row on the screen stands there afterwards. -/
theorem terminalWriteAt_charAt (str : CString) {row col : Int32} (hrow : 0 ≤ row.toInt ∧ row.toInt < 25)
    (hcol : 0 ≤ col.toInt) (hfits : col.toInt + str.chars.length ≤ 80) (s : Terminal) :
    ∀ j < str.chars.length, charAt (terminalWriteAt str row col s) row.toInt (col.toInt + j) = str.chars.getD j 0 := by
  apply foldl_range (P := fun k t => ∀ j < k, charAt t row.toInt (col.toInt + j) = str.chars.getD j 0)
  · exact fun j hj => absurd hj (Nat.not_lt_zero j)
  · intro k hk t ht j hj
    rw [column_toInt hcol (by omega), vgaPutAt_charAt ⟨hrow, by omega⟩ (by omega)]
    split_ifs with hjk
    · obtain rfl : j = k := by omega
      rfl
    · exact ht j (by omega)

/-- The columns permitting, `terminal_write_dec` puts the numeral on the screen. -/
theorem terminalWriteDec_charAt (buf : ℕ → UInt8) (n : UInt32) {row col : Int32} (hrow : 0 ≤ row.toInt ∧ row.toInt < 25)
    (hcol : 0 ≤ col.toInt) (hfits : col.toInt + (decimal n.toNat).length ≤ 80) (s : Terminal) :
    ∃ s', terminalWriteDec buf n row col s = .ok s' ∧
      ∀ j < (decimal n.toNat).length, charAt s' row.toInt (col.toInt + j) = (decimal n.toNat).getD j 0 := by
  refine ⟨_, terminalWriteDec_eq buf n row col s, ?_⟩
  intro j hj
  have hblank := column_toInt hcol hfits
  rw [vgaPutAt_other (by omega) (by omega)]
  exact terminalWriteAt_charAt ⟨decimal n.toNat, decimal_no_nul _⟩ hrow hcol hfits s j hj

/-- The text is the decimal numeral of the number, without leading zeros. -/
structure CanonicalDecimal (n : ℕ) (text : List UInt8) : Prop where
  digits : ∀ c ∈ text, IsDigit c
  value : digitsFrom 0 text = n
  noLeadingZero : text.head? = some 48 → text = [48]
  nonempty : text ≠ []

theorem digitsFrom_decimal (n : ℕ) : digitsFrom 0 (decimal n) = n := by
  induction n using Nat.strong_induction_on with
  | _ n ih =>
    have hdigit {d : ℕ} (hd : d < 10) : (48 + UInt8.ofNat d).toNat - 48 = d := by
      rw [UInt8.toNat_add, UInt8.toNat_ofNat']
      show (48 + d % 2 ^ 8) % 2 ^ 8 - 48 = d
      omega
    by_cases hn : n < 10
    · rw [decimal_of_lt hn, digitsFrom, List.foldl_cons, List.foldl_nil, hdigit hn]
      omega
    · have hlast := hdigit (Nat.mod_lt n (show 0 < 10 by decide))
      have hrest := ih (n / 10) (by omega)
      rw [digitsFrom] at hrest ⊢
      rw [decimal_of_le (not_lt.mp hn), List.foldl_append, hrest, List.foldl_cons, List.foldl_nil, hlast]
      omega

theorem decimal_head {n : ℕ} (h : (decimal n).head? = some 48) : n = 0 := by
  induction n using Nat.strong_induction_on with
  | _ n ih =>
    by_cases hn : n < 10
    · rw [decimal_of_lt hn] at h
      have hchar : (48 : UInt8) + UInt8.ofNat n = 48 := Option.some.inj h
      interval_cases n
      · rfl
      all_goals exact absurd hchar (by decide)
    · rw [decimal_of_le (not_lt.mp hn), List.head?_append_of_ne_nil _ (decimal_ne_nil _)] at h
      have := ih (n / 10) (by omega) h
      omega

theorem decimal_canonical (n : ℕ) : CanonicalDecimal n (decimal n) where
  digits c hc := digit_of_mem_decimal hc
  value := digitsFrom_decimal n
  noLeadingZero h := by
    rw [decimal_head h]
    rfl
  nonempty := decimal_ne_nil n

/-- The digit loop of `cmd_alloc` reads the numeral back. -/
theorem allocSize_decimal (n : UInt32) : allocSize (decimal n.toNat) = n := by
  have hdigits : ∀ c ∈ decimal n.toNat, IsDigit c := (decimal_canonical n.toNat).digits
  rw [allocSize, digitLoop_uint32, digitPrefix_of_digits hdigits, digitsFrom_decimal]
  exact UInt32.ofNat_toNat

/-- `alloc` with the numeral of a positive number allocates that many bytes, and prints the number and the address. -/
theorem cmdAlloc_decimal {c : Caller} {argc : ℕ} {args : Args} {n ptr : UInt32} {h h' : Heap} (hargc : 2 ≤ argc)
    (harg : argString args 1 = .ok ⟨decimal n.toNat, decimal_no_nul _⟩) (hn : n ≠ 0)
    (hk : kmalloc c n h = .ok (ptr, h')) (hptr : ptr ≠ 0) :
    cmdAlloc c argc args 0 h =
      .ok ((CString.ofString "\nAllocated ").chars ++ decimal n.toNat ++ (CString.ofString " bytes @ ").chars ++
        printHex ptr, ptr, h') := by
  unfold cmdAlloc
  rw [if_neg (by decide), if_pos hargc, harg, ok_bind, allocSize_decimal]
  simp only [pure_eq_ok, ok_bind, if_neg hn, hk, Except.mapError, if_pos hptr, printDec_eq]

/-- The loop of `log_msg` leaves what is beyond its digits as it is. -/
theorem tickLoop_other (k : ℕ) (t : UInt32) (str : ℕ → UInt8) (len i : ℕ) (hi : len + k ≤ i) :
    (tickLoop k t str len).1 i = str i ∧ (tickLoop k t str len).2 ≤ len + k := by
  induction k generalizing t str len with
  | zero => exact ⟨rfl, le_rfl⟩
  | succ k ih =>
    rw [tickLoop]
    split_ifs
    · obtain ⟨hsame, hlen⟩ := ih (t / 10) (Function.update str len (48 + (t % 10).toUInt8)) (len + 1) (by omega)
      exact ⟨hsame.trans (Function.update_of_ne (by omega) ..), by omega⟩
    · exact ⟨rfl, Nat.le_add_right ..⟩

theorem tickStr_other (ticks : UInt32) (str : ℕ → UInt8) {i : ℕ} (hi : 16 ≤ i) : tickStr ticks str i = str i := by
  rw [tickStr]
  split_ifs
  · rw [Function.update_of_ne (by omega), Function.update_of_ne (by omega)]
  · obtain ⟨hsame, hlen⟩ := tickLoop_other 15 ticks str 0 i (by omega)
    simp only
    rw [Function.update_of_ne (by omega), reverseChars_other (by omega), hsame]

/-- **For every number, the string of `print_dec`, of `print_uint`, of `terminal_write_dec` on the screen and of the
tick field of `log_msg` is its canonical decimal numeral, which the digit loop of `cmd_alloc` reads back; the stores
into the local arrays all succeed, and that of `log_msg` is left as it is from place 16 on.** -/
theorem decimal_renderers_agree (n : UInt32) (buf out tick : ℕ → UInt8) (row col : Int32) (s : Terminal) :
    CanonicalDecimal n.toNat (decimal n.toNat) ∧
      printDec n = .ok (decimal n.toNat) ∧
      (printUint buf out n).map CString.chars = .ok (decimal n.toNat) ∧
      (∃ s', terminalWriteDec buf n row col s = .ok s' ∧
        ((0 ≤ row.toInt ∧ row.toInt < 25) → 0 ≤ col.toInt → col.toInt + (decimal n.toNat).length ≤ 80 →
          ∀ j < (decimal n.toNat).length, charAt s' row.toInt (col.toInt + j) = (decimal n.toNat).getD j 0)) ∧
      (readString 16 (tickStr n tick) = decimal n.toNat ∧ ∀ i, 16 ≤ i → tickStr n tick i = tick i) ∧
      allocSize (decimal n.toNat) = n := by
  refine ⟨decimal_canonical _, printDec_eq n, ?_, ⟨_, terminalWriteDec_eq buf n row col s, ?_⟩, ⟨?_, ?_⟩,
    allocSize_decimal n⟩
  · rw [printUint_eq]
    rfl
  · intro hrow hcol hfits
    obtain ⟨s', he, hcells⟩ := terminalWriteDec_charAt buf n hrow hcol hfits s
    rw [terminalWriteDec_eq] at he
    rw [Except.ok.inj he]
    exact hcells
  · have hlen := decimal_length_le n.toNat_lt
    exact (tickStr_holds n tick).read (decimal_no_nul _) (by omega)
  · exact fun i hi => tickStr_other n tick hi

/-! ## Hexadecimal -/

section Hexadecimal

/-- A nibble as a number. -/
theorem nibble_toNat (n : UInt32) : (n &&& 0xF).toNat = n.toNat % 16 := by
  rw [UInt32.toNat_and]
  exact Nat.and_two_pow_sub_one_eq_mod n.toNat 4

/-- `print_hex` of `shell.c` prints the eight digits. -/
theorem printHex_eq (n : UInt32) : printHex n = (CString.ofString "0x").chars ++ hexDigits 8 n.toNat := by
  have hchar {v : ℕ} (hv : v < 16) : (CString.ofString "0123456789ABCDEF").chars.getD v 0 = hexChar v := by
    interval_cases v <;> rfl
  rw [printHex, hexDigits]
  congr 1
  apply List.map_congr_left
  intro i hi
  have hi' : i < 8 := by simpa using hi
  have hshift : (n >>> UInt32.ofNat (i * 4)).toNat = n.toNat / 16 ^ i := by
    have hmod : (UInt32.ofNat (i * 4)).toNat % 32 = i * 4 := by
      rw [UInt32.toNat_ofNat']
      omega
    have hpow : 2 ^ (i * 4) = 16 ^ i := by
      rw [mul_comm, pow_mul]
      norm_num
    rw [UInt32.toNat_shiftRight, hmod, Nat.shiftRight_eq_div_pow, hpow]
  rw [nibble_toNat, hshift, hchar (Nat.mod_lt _ (by decide))]

/-- The loop of `print_hex` of `panic.c` puts a digit into each place. -/
theorem panicHexLoop_apply (k : ℕ) (n : UInt32) (buf : ℕ → UInt8) (i : ℕ) :
    panicHexLoop k n buf i =
      if 2 ≤ i ∧ i < k + 2 then hexChar (n.toNat / 16 ^ (k + 1 - i) % 16) else buf i := by
  induction k generalizing n buf with
  | zero =>
    rw [panicHexLoop, if_neg (by omega)]
  | succ k ih =>
    have hshift : (n >>> 4).toNat = n.toNat / 16 := by
      rw [UInt32.toNat_shiftRight]
      exact Nat.shiftRight_eq_div_pow n.toNat 4
    have hchar : (if (n &&& 0xF).toUInt8 < 10 then 48 + (n &&& 0xF).toUInt8 else 65 + (n &&& 0xF).toUInt8 - 10) =
        hexChar (n.toNat % 16) := by
      have hnib : (n &&& 0xF).toUInt8 = UInt8.ofNat (n.toNat % 16) := by
        rw [← nibble_toNat]
        rfl
      have hlt : n.toNat % 16 < 16 := Nat.mod_lt _ (by decide)
      rw [hnib]
      interval_cases n.toNat % 16 <;> rfl
    rw [panicHexLoop, ih, hshift, hchar, Function.update_apply]
    by_cases hlast : i = k + 2
    · subst hlast
      have hzero : k + 1 + 1 - (k + 2) = 0 := by omega
      rw [if_neg (by omega), if_pos rfl, if_pos (by omega), hzero, pow_zero, Nat.div_one]
    · rw [if_neg hlast]
      split_ifs with hin hin' hin'
      · have hexp : k + 1 + 1 - i = (k + 1 - i) + 1 := by omega
        rw [hexp, Nat.div_div_eq_div_mul, pow_succ, mul_comm 16]
      · omega
      · omega
      · rfl

/-- `print_hex` of `panic.c` prints the same. -/
theorem panicPrintHex_eq (n : UInt32) : panicPrintHex n = (CString.ofString "0x").chars ++ hexDigits 8 n.toNat := by
  have hpre : (CString.ofString "0x").chars = [48, 120] := by decide
  have hlen : ((CString.ofString "0x").chars ++ hexDigits 8 n.toNat).length = 10 := by
    rw [hpre, List.length_append, hexDigits_length]
    rfl
  have hholds : HoldsString (panicHexLoop 8 n fun i => (CString.ofString "0x00000000").chars.getD i 0)
      ((CString.ofString "0x").chars ++ hexDigits 8 n.toNat) := by
    intro i hi
    rw [hlen] at hi
    rw [panicHexLoop_apply, hpre]
    split_ifs with hin
    · obtain ⟨j, rfl⟩ := Nat.exists_eq_add_of_le' hin.1
      have hj : j < 8 := by omega
      have hexp : 8 + 1 - (j + 2) = 8 - 1 - j := by omega
      show _ = (hexDigits 8 n.toNat).getD j 0
      rw [hexDigits_getD hj, hexp]
    · have hcases : i = 0 ∨ i = 1 ∨ i = 10 := by omega
      rcases hcases with rfl | rfl | rfl <;> rfl
  have hnul : 0 ∉ (CString.ofString "0x").chars ++ hexDigits 8 n.toNat := by
    intro hmem
    rcases List.mem_append.mp hmem with hmem | hmem
    · exact absurd hmem (by decide)
    · exact absurd (hexDigits_isSome hmem) (by decide)
  exact hholds.read hnul (by omega)

/-- The parser takes a character for the digit that it is. -/
theorem nibble_eq (c : UInt8) : nibble c = (hexValue c).map UInt8.ofNat := by
  have hletter {a : UInt8} {k : ℕ} (ha : a ≤ c) (hk : a.toNat = k + 10) (hc : c.toNat < 246) :
      c - a + 10 = UInt8.ofNat (c.toNat - k) := by
    have hle : a.toNat ≤ c.toNat := UInt8.le_iff_toNat_le.mp ha
    apply UInt8.toNat_inj.mp
    rw [UInt8.toNat_add, UInt8.toNat_sub_of_le _ _ ha, UInt8.toNat_ofNat', hk]
    show (c.toNat - (k + 10) + 10) % 2 ^ 8 = (c.toNat - k) % 2 ^ 8
    congr 1
    omega
  unfold nibble hexValue
  split_ifs with hdigit hlower hupper
  · apply congrArg some
    apply UInt8.toNat_inj.mp
    rw [UInt8.toNat_sub_of_le _ _ hdigit.1, UInt8.toNat_ofNat']
    have := c.toNat_lt
    exact (Nat.mod_eq_of_lt (by omega)).symm
  · have hc : c.toNat ≤ 102 := UInt8.le_iff_toNat_le.mp hlower.2
    exact congrArg some (hletter hlower.1 rfl (by omega))
  · have hc : c.toNat ≤ 70 := UInt8.le_iff_toNat_le.mp hupper.2
    exact congrArg some (hletter hupper.1 rfl (by omega))
  · rfl

/-- One pass of the loop: the disjunction adds the nibble. -/
theorem shiftLeft_or (a : ℕ) {v : ℕ} (hv : v < 16) :
    (UInt32.ofNat a <<< 4) ||| (UInt8.ofNat v).toUInt32 = UInt32.ofNat (a * 16 + v) := by
  have hshift : (UInt32.ofNat a <<< 4).toNat = 2 ^ 4 * (a % 2 ^ 28) := by
    rw [UInt32.toNat_shiftLeft, UInt32.toNat_ofNat']
    show (a % 2 ^ 32) <<< 4 % 2 ^ 32 = 2 ^ 4 * (a % 2 ^ 28)
    rw [Nat.shiftLeft_eq]
    omega
  have hnib : (UInt8.ofNat v).toUInt32.toNat = v := by
    rw [UInt8.toNat_toUInt32, UInt8.toNat_ofNat']
    omega
  apply UInt32.toNat_inj.mp
  rw [UInt32.toNat_or, hshift, hnib, ← Nat.two_pow_add_eq_or_of_lt hv, UInt32.toNat_ofNat']
  omega

/-- The loop stops behind the digits, with their value. -/
theorem hexLoop_eq {digits rest : List UInt8} (hdigits : ∀ c ∈ digits, (hexValue c).isSome)
    (hrest : ∀ c, rest.head? = some c → hexValue c = none) (a : ℕ) :
    hexLoop (UInt32.ofNat a) (digits ++ rest) = UInt32.ofNat (hexFrom a digits) := by
  induction digits generalizing a with
  | nil =>
    cases rest with
    | nil => rfl
    | cons c rest =>
      have hstop : nibble c = none := by
        rw [nibble_eq, hrest c rfl]
        rfl
      rw [List.nil_append, hexLoop, hstop]
      rfl
  | cons c digits ih =>
    obtain ⟨v, hv⟩ := Option.isSome_iff_exists.mp (hdigits c (List.mem_cons_self ..))
    have hnib : nibble c = some (UInt8.ofNat v) := by
      rw [nibble_eq, hv]
      rfl
    have hfrom : hexFrom a (c :: digits) = hexFrom (a * 16 + v) digits := by
      rw [hexFrom, List.foldl_cons, hv]
      rfl
    rw [List.cons_append, hexLoop, hnib, hfrom]
    show hexLoop ((UInt32.ofNat a <<< 4) ||| (UInt8.ofNat v).toUInt32) (digits ++ rest) = _
    rw [shiftLeft_or a (hexValue_lt hv)]
    exact ih (fun c hc => hdigits c (List.mem_cons_of_mem _ hc)) _

/-- A text that the address parser is meant to read: at most eight digits, with or without a prefix, up to the end
of the text or a character that is not a digit. A lone `0` followed by an `x` is itself a prefix. -/
structure HexAddress (pre digits rest : List UInt8) : Prop where
  pre_eq : pre = [] ∨ pre = (CString.ofString "0x").chars ∨ pre = (CString.ofString "0X").chars
  isDigit : ∀ c ∈ digits, (hexValue c).isSome
  length_le : digits.length ≤ 8
  stops : ∀ c, rest.head? = some c → hexValue c = none
  notPrefix : pre = [] → digits = [48] → rest.head? ≠ some 120 ∧ rest.head? ≠ some 88

section Address

variable {pre digits rest : List UInt8}

/-- What has no prefix is not taken to have one. -/
theorem HexAddress.no_prefix (h : HexAddress [] digits rest) :
    ¬ ((digits ++ rest)[0]? = some 48 ∧ ((digits ++ rest)[1]? = some 120 ∨ (digits ++ rest)[1]? = some 88)) := by
  rintro ⟨hzero, hx⟩
  rcases digits with _ | ⟨c, _ | ⟨d, digits⟩⟩
  · have hhead : rest.head? = some 48 := by
      rw [List.head?_eq_getElem?]
      exact hzero
    exact absurd (h.stops 48 hhead) (by decide)
  · obtain rfl : c = 48 := Option.some.inj hzero
    obtain ⟨hlower, hupper⟩ := h.notPrefix rfl rfl
    rw [List.head?_eq_getElem?] at hlower hupper
    rcases hx with hx | hx
    · exact hlower hx
    · exact hupper hx
  · have hd := h.isDigit d (by simp)
    rcases hx with hx | hx
    · obtain rfl : d = 120 := Option.some.inj hx
      exact absurd hd (by decide)
    · obtain rfl : d = 88 := Option.some.inj hx
      exact absurd hd (by decide)

/-- The parser skips the prefix. -/
theorem HexAddress.addr_eq (h : HexAddress pre digits rest) :
    hexdumpAddr (pre ++ digits ++ rest) = UInt32.ofNat (hexFrom 0 digits) := by
  have hloop : hexLoop 0 (digits ++ rest) = UInt32.ofNat (hexFrom 0 digits) := hexLoop_eq h.isDigit h.stops 0
  rw [← hloop, hexdumpAddr, List.append_assoc]
  rcases h.pre_eq with rfl | rfl | rfl
  · rw [List.nil_append, if_neg h.no_prefix]
  · have hlower : (CString.ofString "0x").chars = [48, 120] := by decide
    rw [hlower]
    exact if_pos ⟨rfl, Or.inl rfl⟩
  · have hupper : (CString.ofString "0X").chars = [48, 88] := by decide
    rw [hupper]
    exact if_pos ⟨rfl, Or.inr rfl⟩

theorem HexAddress.value (h : HexAddress pre digits rest) :
    (hexdumpAddr (pre ++ digits ++ rest)).toNat = hexFrom 0 digits := by
  have hlt : hexFrom 0 digits < 2 ^ 32 := calc
    hexFrom 0 digits < 16 ^ digits.length := hexFrom_lt h.isDigit
    _ ≤ 16 ^ 8 := Nat.pow_le_pow_right (by decide) h.length_le
    _ = 2 ^ 32 := by norm_num
  rw [h.addr_eq, UInt32.toNat_ofNat']
  exact Nat.mod_eq_of_lt hlt

/-- What is printed is such a text. -/
theorem printHex_hexAddress (n : UInt32) : HexAddress (CString.ofString "0x").chars (hexDigits 8 n.toNat) [] where
  pre_eq := Or.inr (Or.inl rfl)
  isDigit c hc := hexDigits_isSome hc
  length_le := (hexDigits_length 8 n.toNat).le
  stops c hc := absurd hc (by simp)
  notPrefix hpre := absurd hpre (by decide)

theorem hexdumpAddr_printHex (n : UInt32) : hexdumpAddr (printHex n) = n := by
  have hvalue := (printHex_hexAddress n).value
  rw [List.append_nil, ← printHex_eq, hexFrom_hexDigits] at hvalue
  apply UInt32.toNat_inj.mp
  rw [hvalue]
  exact Nat.mod_eq_of_lt n.toNat_lt

/-- `hexdump` with an address that was printed shows the memory there. -/
theorem cmdHexdump_printHex (m : Mem) {str : CString} {n : UInt32} (h : str.chars = printHex n) :
    cmdHexdump m str =
      (CString.ofString "\nHexdump @ ").chars ++ printHex n ++ (CString.ofString " :\n").chars ++
        (List.range 4).flatMap (hexdumpRow m n) := by
  rw [cmdHexdump, h, hexdumpAddr_printHex]

end Address

/-- **Both printers print the same ten characters, from which the address parser of `hexdump` gets the number back;
and of every text that it is meant to read it gets the value of the digits.** -/
theorem hex_round_trip :
    (∀ n : UInt32, panicPrintHex n = printHex n ∧ (printHex n).length = 10 ∧ hexdumpAddr (printHex n) = n) ∧
      ∀ pre digits rest, HexAddress pre digits rest →
        (hexdumpAddr (pre ++ digits ++ rest)).toNat = hexFrom 0 digits := by
  refine ⟨?_, fun pre digits rest h => h.value⟩
  intro n
  refine ⟨by rw [panicPrintHex_eq, printHex_eq], ?_, hexdumpAddr_printHex n⟩
  rw [printHex_eq, List.length_append, hexDigits_length]
  rfl

end Hexadecimal

end RtosKernel
