import RtosKernel.ShellCommands
import RtosKernel.Proofs.ArgumentProofs
import RtosKernel.Proofs.LogProofs
import RtosKernel.Proofs.ShellDataProofs
import RtosKernel.Proofs.SignalProofs

/-!
# Proofs: the commands with numeric arguments

The digit loops find the value of the digits at the start of the argument, modulo `2 ^ 32`, and do not tell a
numeral from another text. So `loglevel` and `testsig` are right where these agree, and `calc` is exact where
nothing overflows; the one division that traps is reached by an operand that did.
-/

namespace RtosKernel

open Lib

/-! ## Printing and reading -/

theorem argString_ok {args : Args} {i : ℕ} {str : CString} (h : HoldsString (args i) str.chars)
    (hlen : str.chars.length ≤ 31) : argString args i = .ok str := by
  rw [argString, cString_holds h (Nat.lt_succ_of_le hlen)]
  rfl

/-- The loop of `print_dec` finds the digits from the last one on. -/
theorem decLoop_eq {places : ℕ} {n : UInt32} (h0 : 0 < n) (hlen : (decimal n.toNat).length ≤ places)
    (buf : List UInt8) : decLoop places n buf = .ok (decimal n.toNat ++ buf) := by
  induction places generalizing n buf with
  | zero => exact absurd (List.length_eq_zero_iff.mp (Nat.le_zero.mp hlen)) (decimal_ne_nil _)
  | succ places ih =>
    have hpos : 0 < n.toNat := UInt32.lt_iff_toNat_lt.mp h0
    have hdiv : (n / 10).toNat = n.toNat / 10 := rfl
    have hdigit : (48 : UInt8) + (n % 10).toUInt8 = 48 + UInt8.ofNat (n.toNat % 10) := rfl
    rw [decimal_eq_concat hpos, List.length_append] at hlen
    rw [decLoop, if_pos h0, hdigit, decimal_eq_concat hpos, List.append_assoc, List.singleton_append]
    by_cases hd : n.toNat / 10 = 0
    · have hzero : ¬ 0 < n / 10 := by
        rw [UInt32.lt_iff_toNat_lt, hdiv, hd]
        exact lt_irrefl _
      rw [if_pos hd]
      cases places with
      | zero => rw [decLoop, if_neg hzero]; rfl
      | succ places => rw [decLoop, if_neg hzero]; rfl
    · have hgo : 0 < n / 10 := by
        rw [UInt32.lt_iff_toNat_lt, hdiv]
        exact Nat.pos_of_ne_zero hd
      rw [if_neg hd] at hlen ⊢
      exact ih hgo (by rw [hdiv]; simpa using hlen) _

/-- `print_dec` prints the decimal numeral. -/
theorem printDec_eq (n : UInt32) : printDec n = .ok (decimal n.toNat) := by
  unfold printDec
  by_cases h0 : n = 0
  · rw [if_pos h0, h0, decimal_of_lt (by decide)]
    rfl
  · have hpos : 0 < n := by
      rw [UInt32.lt_iff_toNat_lt]
      exact Nat.pos_of_ne_zero fun h => h0 (UInt32.toNat_inj.mp h)
    have hlen := decimal_length_le n.toNat_lt
    rw [if_neg h0, decLoop_eq hpos (by omega), List.append_nil]

/-- The value that the digit loops find, before it is reduced to a word. -/
def readValue (str : CString) : ℕ := digitsFrom 0 (digitPrefix str.chars)

/-- An array `args` with this text in every row. -/
def argsOf (str : CString) : Args := fun _ i => str.chars.getD i 0

theorem argsOf_holds (str : CString) (i : ℕ) : HoldsString (argsOf str i) str.chars := fun _ _ => rfl

/-! ## `loglevel` -/

section Loglevel

variable {argc : ℕ} {args : Args} {str : CString} {k : ShellKernel}

theorem level_in_range (n : ℕ) : 0 ≤ Int32.ofNat n ∧ Int32.ofNat n ≤ 4 ↔ n % 2 ^ 32 ≤ 4 := by
  have h0 : (0 : Int32).toInt = 0 := rfl
  have h4 : (4 : Int32).toInt = 4 := rfl
  have hsize : ((Int32.size : ℕ) : ℤ) = 2 ^ 32 := rfl
  rw [Int32.le_iff_toInt_le, Int32.le_iff_toInt_le, Int32.toInt_ofNat', h0, h4, Int.bmod_def, hsize]
  omega

theorem cmdLoglevel_eq (hargc : 2 ≤ argc) (h : HoldsString (args 1) str.chars) (hlen : str.chars.length ≤ 31) :
    (cmdLoglevel argc args k).map Prod.snd =
      .ok (if readValue str % 2 ^ 32 ≤ 4 then { k with log := logSetLevel (UInt32.ofNat (readValue str)) k.log }
        else k) := by
  rw [cmdLoglevel, if_neg (by omega), argString_ok h hlen, ok_bind, digitLoop_int32]
  simp only [level_in_range, Int32.toUInt32_ofNat', printDec_eq, ok_bind]
  rw [readValue]
  split_ifs <;> rfl

theorem setNamedLevel_of_level {n : ℕ} (hvalue : numeralValue str.chars = some n) (hn : n ≤ 4)
    (k : ShellKernel) : setNamedLevel str k = { k with log := logSetLevel (UInt32.ofNat n) k.log } := by
  rw [setNamedLevel, hvalue]
  exact if_pos hn

theorem setNamedLevel_of_not (h : ∀ n ≤ 4, numeralValue str.chars ≠ some n) (k : ShellKernel) :
    setNamedLevel str k = k := by
  unfold setNamedLevel
  cases hvalue : numeralValue str.chars with
  | none => rfl
  | some n => exact if_neg fun hn => h n hn hvalue

/-- `loglevel` checks its argument only if it is a level, or if what the loop finds in it is not one. -/
theorem loglevelChecks_iff (hlen : str.chars.length ≤ 31) :
    LoglevelChecks str ↔
      (∃ n ≤ 4, numeralValue str.chars = some n) ∨ 4 < digitsFrom 0 (digitPrefix str.chars) % 2 ^ 32 := by
  constructor
  · intro h
    by_contra hnot
    push Not at hnot
    obtain ⟨hnum, hread⟩ := hnot
    -- a log at a level that the command cannot set
    have hset := h 2 (argsOf str) ⟨{ bootLog with currentLevel := 5 }, bootSignals (bootProcs 0), []⟩ le_rfl
      (argsOf_holds str 1)
    rw [setNamedLevel_of_not hnum, cmdLoglevel_eq le_rfl (argsOf_holds str 1) hlen] at hset
    rw [if_pos (show readValue str % 2 ^ 32 ≤ 4 from hread)] at hset
    have hlevel : (UInt32.ofNat (readValue str)).toNat = (5 : UInt32).toNat :=
      congrArg (fun k : ShellKernel => k.log.currentLevel.toNat) (Except.ok.inj hset)
    rw [UInt32.toNat_ofNat'] at hlevel
    exact absurd (hlevel.symm.le.trans hread) (by decide)
  · intro h argc args k hargc hholds
    rw [cmdLoglevel_eq hargc hholds hlen]
    by_cases hlevel : ∃ n ≤ 4, numeralValue str.chars = some n
    · obtain ⟨n, hn, hvalue⟩ := hlevel
      have hread : readValue str = n := digitPrefix_of_numeral hvalue
      rw [hread, if_pos ((Nat.mod_le _ _).trans hn), setNamedLevel_of_level hvalue hn]
    · have hread : 4 < readValue str % 2 ^ 32 := h.resolve_left hlevel
      push Not at hlevel
      rw [if_neg (Nat.not_le.mpr hread), setNamedLevel_of_not hlevel]

end Loglevel

/-! ## `testsig` -/

section Testsig

variable {c : Caller} {argc : ℕ} {args : Args} {str : CString} {k : ShellKernel}

theorem cmdTestsig_eq (hargc : 2 ≤ argc) (h : HoldsString (args 1) str.chars) (hlen : str.chars.length ≤ 31) :
    (cmdTestsig c argc args k).map Prod.snd =
      (shellKill c (UInt32.ofNat (readValue str)) sigTerm k).map Prod.snd := by
  rw [cmdTestsig, if_neg (by omega), argString_ok h hlen, ok_bind, digitLoop_uint32]
  cases hkill : shellKill c (UInt32.ofNat (readValue str)) sigTerm k with
  | error e =>
    rw [readValue] at hkill
    simp only [hkill]
    rfl
  | ok r =>
    rw [readValue] at hkill
    simp only [hkill, ok_bind, printDec_eq]
    rfl

theorem shellKill_eq (hl : k.signals.lock = mutexInit) (hf : 0 < c.fuel) (pid : UInt32) (signum : ℤ) :
    (shellKill c pid signum k).map Prod.snd =
      .ok { k with signals := k.signals.send pid signum, kills := k.kills ++ [(pid, signum)] } := by
  obtain ⟨e, he⟩ := kill_eq hl hf pid signum
  rw [shellKill, he]
  rfl

theorem killNamed_of_not (h : ∀ n < 2 ^ 32, numeralValue str.chars ≠ some n) : killNamed c str k = .ok k := by
  unfold killNamed
  cases hvalue : numeralValue str.chars with
  | none => rfl
  | some n => exact if_neg fun hn => h n hn hvalue

/-- `testsig` always calls `kill`, so it checks its argument only if that is a numeral of 32 bits. -/
theorem testsigChecks_iff (hlen : str.chars.length ≤ 31) :
    TestsigChecks str ↔ ∃ n < 2 ^ 32, numeralValue str.chars = some n := by
  constructor
  · intro h
    by_contra hnot
    push Not at hnot
    have hcall := h ((soloCaller (.pool 0)).withFuel 1) 2 (argsOf str) ⟨bootLog, bootSignals (bootProcs 0), []⟩
      le_rfl (argsOf_holds str 1)
    rw [killNamed_of_not hnot, cmdTestsig_eq le_rfl (argsOf_holds str 1) hlen, shellKill_eq rfl Nat.one_pos] at hcall
    exact absurd (congrArg ShellKernel.kills (Except.ok.inj hcall)) (List.cons_ne_nil _ _)
  · rintro ⟨n, hn, hvalue⟩ c argc args k hargc hholds
    have hread : readValue str = n := digitPrefix_of_numeral hvalue
    rw [cmdTestsig_eq hargc hholds hlen, killNamed, hvalue, hread]
    simp only [if_pos hn]

end Testsig

/-- **The arguments of `loglevel` and `testsig` are checked only in part.** -/
theorem numeric_arguments_checked_iff {str : CString} (hlen : str.chars.length ≤ 31) :
    (LoglevelChecks str ↔
      (∃ n ≤ 4, numeralValue str.chars = some n) ∨ 4 < digitsFrom 0 (digitPrefix str.chars) % 2 ^ 32) ∧
    (TestsigChecks str ↔ ∃ n < 2 ^ 32, numeralValue str.chars = some n) :=
  ⟨loglevelChecks_iff hlen, testsigChecks_iff hlen⟩

/-- The argument `3`. -/
theorem numeric_arguments_checked_three :
    LoglevelChecks (.ofString "3") ∧ TestsigChecks (.ofString "3") := by
  have hlen : (CString.ofString "3").chars.length ≤ 31 := by decide
  have hvalue : numeralValue (CString.ofString "3").chars = some 3 := by decide +kernel
  obtain ⟨hlevel, hsig⟩ := numeric_arguments_checked_iff hlen
  exact ⟨hlevel.mpr (.inl ⟨3, by decide, hvalue⟩), hsig.mpr ⟨3, by decide, hvalue⟩⟩

/-- The argument `abc` sets the level 0 and sends the signal to process 0. -/
theorem letters_as_zero : ¬ LoglevelChecks (.ofString "abc") ∧ ¬ TestsigChecks (.ofString "abc") := by
  have hlen : (CString.ofString "abc").chars.length ≤ 31 := by decide
  have hnot : ∀ n, numeralValue (CString.ofString "abc").chars ≠ some n := fun n h =>
    absurd (show none = some n from h) (Option.some_ne_none n).symm
  rw [loglevelChecks_iff hlen, testsigChecks_iff hlen]
  constructor
  · rintro (⟨n, -, hn⟩ | hread)
    · exact hnot n hn
    · exact absurd hread (by decide)
  · rintro ⟨n, -, hn⟩
    exact hnot n hn

/-! ## `calc` -/

section Calc

variable {argc : ℕ} {args : Args} {a b : Int32}

/-- The value of an operand before it is reduced to a word. -/
def operandValue (chars : List UInt8) : ℤ :=
  let n := digitsFrom 0 (digitPrefix (unsignedPart chars))
  if IsNegative chars then -(n : ℤ) else n

theorem calcOperand_eq (chars : List UInt8) : calcOperand chars = Int32.ofInt (operandValue chars) := by
  rw [calcOperand, operandValue, digitLoop_int32]
  split_ifs
  · rw [Int32.ofInt_neg, Int32.ofInt_eq_ofNat]
  · rw [Int32.ofInt_eq_ofNat]

theorem operandValue_of_signed {chars : List UInt8} {x : ℤ} (h : signedValue chars = some x) :
    operandValue chars = x := by
  obtain ⟨n, hn, hx⟩ := Option.map_eq_some_iff.mp h
  rw [operandValue, digitPrefix_of_numeral hn]
  exact hx

/-- An operand that fits is read exactly. -/
theorem calcOperand_toInt {chars : List UInt8} {x : ℤ} (h : signedValue chars = some x) (hx : IsInt32 x) :
    (calcOperand chars).toInt = x := by
  rw [calcOperand_eq, operandValue_of_signed h]
  exact Int32.toInt_ofInt_of_le hx.1 hx.2

theorem negated_toNat (hneg : a.toInt < 0) : (-a).toUInt32.toNat = a.toInt.natAbs := by
  obtain ⟨hlo, -⟩ := isInt32_toInt a
  have hmod : (-a.toInt).bmod (2 ^ 32) % 2 ^ 32 = -a.toInt % 2 ^ 32 := Int.bmod_emod
  have hword := toNat_toUInt32 (-a)
  rw [Int32.toInt_neg, hmod] at hword
  omega

theorem kept_toNat (hpos : ¬ a.toInt < 0) : a.toUInt32.toNat = a.toInt.natAbs := by
  obtain ⟨-, hhi⟩ := isInt32_toInt a
  have hword := toNat_toUInt32 a
  omega

/-- The result is printed with its sign, the smallest word included. -/
theorem printResult_eq (res : Int32) :
    printResult res = .ok ((CString.ofString "\nResult: ").chars ++ signedDecimal res.toInt) := by
  have hneg : res < 0 ↔ res.toInt < 0 := Int32.lt_iff_toInt_lt
  rw [printResult]
  simp only [hneg, printDec_eq, ok_bind]
  by_cases h : res.toInt < 0
  · simp only [if_pos h, negated_toNat h, signedDecimal, List.append_assoc, List.singleton_append]
    rfl
  · simp only [if_neg h, kept_toNat h, signedDecimal, List.append_nil]
    rfl

/-- A division by another number than zero. -/
theorem calcSwitch_div (hb : b ≠ 0) :
    calcSwitch 47 a b =
      if a = Int32.minValue ∧ b = -1 then .error .divideError else .ok (.inr (a / b)) := by
  have hswitch : calcSwitch 47 a b = (idiv a b).map .inr := if_neg hb
  rw [hswitch, idiv]
  by_cases hmin : a = Int32.minValue ∧ b = -1
  · rw [if_pos (.inr hmin), if_pos hmin]
    rfl
  · have hsafe : ¬ (b = 0 ∨ (a = Int32.minValue ∧ b = -1)) := by
      rintro (h0 | h)
      · exact hb h0
      · exact hmin h
    rw [if_neg hsafe, if_neg hmin]
    rfl

/-- The `switch` gives the exact result where it fits. -/
theorem calcSwitch_exact {op : CalcOp} {r : ℤ} (hr : op.exact a.toInt b.toInt = some r) (hr32 : IsInt32 r)
    (hmin : a ≠ Int32.minValue) : ∃ res, calcSwitch op.char a b = .ok (.inr res) ∧ res.toInt = r := by
  cases op with
  | add =>
    obtain rfl := Option.some.inj hr
    exact ⟨a + b, rfl, toInt_add_of_isInt32 hr32⟩
  | sub =>
    obtain rfl := Option.some.inj hr
    exact ⟨a - b, rfl, toInt_sub_of_isInt32 hr32⟩
  | mul =>
    obtain rfl := Option.some.inj hr
    refine ⟨a * b, rfl, ?_⟩
    rw [Int32.toInt_mul, hr32.bmod_eq]
  | div =>
    have hb : b.toInt ≠ 0 := by
      intro h0
      rw [CalcOp.exact, if_pos h0] at hr
      cases hr
    rw [CalcOp.exact, if_neg hb] at hr
    obtain rfl := Option.some.inj hr
    have hne : b ≠ 0 := fun h0 => hb (congrArg Int32.toInt h0)
    refine ⟨a / b, ?_, Int32.toInt_div_of_ne_left a b hmin⟩
    rw [CalcOp.char, calcSwitch_div hne, if_neg fun h => hmin h.1]

theorem cmdCalc_eq {sa sb : CString} (hargc : 4 ≤ argc) (hsa : HoldsString (args 1) sa.chars)
    (hsb : HoldsString (args 3) sb.chars) (hla : sa.chars.length ≤ 31) (hlb : sb.chars.length ≤ 31) :
    cmdCalc argc args = (calcSwitch (args 2 0) (calcOperand sa.chars) (calcOperand sb.chars)).map fun r =>
      r.elim id fun res => (CString.ofString "\nResult: ").chars ++ signedDecimal res.toInt := by
  rw [cmdCalc, if_neg (by omega), argString_ok hsa hla, ok_bind, argString_ok hsb hlb, ok_bind]
  simp only [printResult_eq]
  cases calcSwitch (args 2 0) (calcOperand sa.chars) (calcOperand sb.chars) with
  | error e => rfl
  | ok r =>
    cases r with
    | inl text => rfl
    | inr res => rfl

end Calc

/-- **`calc` prints the exact result** where the operands and the result fit. -/
theorem calc_exact {argc : ℕ} {args : Args} {sa sb : CString} {a b r : ℤ} {op : CalcOp} (hargc : 4 ≤ argc)
    (hsa : HoldsString (args 1) sa.chars) (hsb : HoldsString (args 3) sb.chars) (hop : args 2 0 = op.char)
    (hla : sa.chars.length ≤ 31) (hlb : sb.chars.length ≤ 31) (ha : signedValue sa.chars = some a)
    (hb : signedValue sb.chars = some b) (habs : |a| < 2 ^ 31) (hbbs : |b| < 2 ^ 31)
    (hr : op.exact a b = some r) (hr32 : IsInt32 r) :
    cmdCalc argc args = .ok ((CString.ofString "\nResult: ").chars ++ signedDecimal r) := by
  obtain ⟨halo, hahi⟩ := abs_lt.mp habs
  obtain ⟨hblo, hbhi⟩ := abs_lt.mp hbbs
  have ha' : (calcOperand sa.chars).toInt = a := calcOperand_toInt ha ⟨halo.le, hahi⟩
  have hb' : (calcOperand sb.chars).toInt = b := calcOperand_toInt hb ⟨hblo.le, hbhi⟩
  have hmin : calcOperand sa.chars ≠ Int32.minValue := by
    intro hmin
    rw [hmin, Int32.toInt_minValue] at ha'
    omega
  rw [← ha', ← hb'] at hr
  obtain ⟨res, hres, hvalue⟩ := calcSwitch_exact hr hr32 hmin
  rw [cmdCalc_eq hargc hsa hsb hla hlb, hop, hres, ← hvalue]
  rfl

/-- The array `args` with four texts. -/
def argsOfTexts (a b c d : String) : Args := fun i =>
  ([a, b, c, d].map fun text => argsOf (.ofString text) 0).getD i fun _ => 0

/-- `calc -7 / 2` prints `-3`. -/
theorem calc_exact_quotient :
    cmdCalc 4 (argsOfTexts "calc" "-7" "/" "2") = .ok (CString.ofString "\nResult: -3").chars := by
  have hsa : HoldsString (argsOfTexts "calc" "-7" "/" "2" 1) (CString.ofString "-7").chars := argsOf_holds _ 0
  have hsb : HoldsString (argsOfTexts "calc" "-7" "/" "2" 3) (CString.ofString "2").chars := argsOf_holds _ 0
  have hop : argsOfTexts "calc" "-7" "/" "2" 2 0 = CalcOp.div.char := rfl
  have ha : signedValue (CString.ofString "-7").chars = some (-7) := by decide +kernel
  have hb : signedValue (CString.ofString "2").chars = some 2 := by decide +kernel
  have hr : CalcOp.div.exact (-7) 2 = some (-3) := by decide
  exact calc_exact le_rfl hsa hsb hop (by decide) (by decide) ha hb (by decide) (by decide) hr (by decide)

/-! ## The division -/

theorem operand_eq_min (chars : List UInt8) :
    calcOperand chars = Int32.minValue ↔ digitsFrom 0 (digitPrefix (unsignedPart chars)) % 2 ^ 32 = 2 ^ 31 := by
  rw [calcOperand_eq, Int32.ofInt_eq_iff_bmod_eq_toInt, Int32.toInt_minValue, Int.bmod_def, operandValue]
  split_ifs <;> omega

theorem operand_eq_neg_one (chars : List UInt8) :
    calcOperand chars = -1 ↔
      digitsFrom 0 (digitPrefix (unsignedPart chars)) % 2 ^ 32 = if IsNegative chars then 1 else 2 ^ 32 - 1 := by
  have hone : (-1 : Int32).toInt = -1 := rfl
  rw [calcOperand_eq, Int32.ofInt_eq_iff_bmod_eq_toInt, hone, Int.bmod_def, operandValue]
  split_ifs <;> omega

/-- The `switch` traps only at the one quotient that does not fit. -/
theorem calcSwitch_traps_iff {op : UInt8} {a b : Int32} :
    calcSwitch op a b = .error .divideError ↔ op = 47 ∧ a = Int32.minValue ∧ b = -1 := by
  by_cases hop : op = 47
  · subst hop
    by_cases hb : b = 0
    · have hswitch : calcSwitch 47 a b = .ok (.inl (CString.ofString "\nDiv/0!").chars) := if_pos hb
      rw [hswitch]
      refine iff_of_false (by simp) ?_
      rintro ⟨-, -, hone⟩
      exact absurd (hb.symm.trans hone) (by decide)
    · rw [calcSwitch_div hb]
      by_cases hmin : a = Int32.minValue ∧ b = -1
      · rw [if_pos hmin]
        exact iff_of_true rfl ⟨rfl, hmin⟩
      · rw [if_neg hmin]
        exact iff_of_false (by simp) fun h => hmin h.2
  · refine iff_of_false ?_ fun h => hop h.1
    unfold calcSwitch
    split_ifs <;> simp [pure, Except.pure]

/-- **`calc` raises `#DE` at the quotient of `-2^31` by `-1`**, which operands that overflow reach, and nowhere
else. -/
theorem calc_traps_iff {argc : ℕ} {args : Args} {sa sb : CString} (hargc : 4 ≤ argc)
    (hsa : HoldsString (args 1) sa.chars) (hsb : HoldsString (args 3) sb.chars) (hla : sa.chars.length ≤ 31)
    (hlb : sb.chars.length ≤ 31) :
    cmdCalc argc args ≠ .error .divideError ↔ ¬ (args 2 0 = 47 ∧ DividesMinByMinusOne sa.chars sb.chars) := by
  have htrap : cmdCalc argc args = .error .divideError ↔
      calcSwitch (args 2 0) (calcOperand sa.chars) (calcOperand sb.chars) = .error .divideError := by
    rw [cmdCalc_eq hargc hsa hsb hla hlb]
    cases calcSwitch (args 2 0) (calcOperand sa.chars) (calcOperand sb.chars) with
    | error e => simp [Except.map]
    | ok r => simp [Except.map]
  rw [ne_eq, htrap, calcSwitch_traps_iff, operand_eq_min, operand_eq_neg_one, DividesMinByMinusOne]

/-- `calc 6 / 2` does not trap. -/
theorem calc_six_by_two_returns :
    cmdCalc 4 (argsOfTexts "calc" "6" "/" "2") ≠ .error .divideError := by
  have hsa : HoldsString (argsOfTexts "calc" "6" "/" "2" 1) (CString.ofString "6").chars := argsOf_holds _ 0
  have hsb : HoldsString (argsOfTexts "calc" "6" "/" "2" 3) (CString.ofString "2").chars := argsOf_holds _ 0
  refine (calc_traps_iff le_rfl hsa hsb (by decide) (by decide)).mpr ?_
  rintro ⟨-, hmin, -⟩
  exact absurd hmin (by decide)

/-- The line `calc -2147483648 / -1` halts the machine. -/
theorem calc_min_traps :
    ∃ argc args, splitArgs (.ofString "calc -2147483648 / -1") = .ok (argc, args) ∧
      cmdCalc argc args = .error .divideError ∧
      ∀ (c : Caller) (others : Commands ShellKernel) (s : ShellSys ShellKernel),
        runCommand (numericCommands c others) .calc argc args s = .error .halted := by
  refine ⟨_, _, rfl, ?_, fun c others s => ?_⟩
  · rfl
  · rfl

end RtosKernel
