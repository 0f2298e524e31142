import RtosKernel.Log
import Mathlib.Data.List.GetD

/-!
# Proofs: the system log

The ring implements the log without bounds: what it holds are the last 32 of the accepted lines, in their
order (`logStep_refines`). A line is put together piece by piece under the cap of 63 characters, so it is
the first 63 characters of the whole text (`logLine_holds`).
-/

namespace RtosKernel

open Lib

/-! ## The tick count in decimal -/

theorem digit_char {n : ℕ} (h : n < 10) : UInt8.ofNat (Nat.digitChar n).toNat = 48 + UInt8.ofNat n := by
  interval_cases n <;> rfl

theorem decimal_of_lt {n : ℕ} (h : n < 10) : decimal n = [48 + UInt8.ofNat n] := by
  rw [decimal, Nat.toDigits_of_lt_base h, List.map_singleton, digit_char h]

theorem decimal_of_le {n : ℕ} (h : 10 ≤ n) :
    decimal n = decimal (n / 10) ++ [48 + UInt8.ofNat (n % 10)] := by
  rw [decimal, Nat.toDigits_of_base_le (by decide) h, List.map_append, List.map_singleton,
    digit_char (Nat.mod_lt _ (by decide)), decimal]

/-- A numeral is made of digits. -/
theorem digit_of_mem_decimal {n : ℕ} {c : UInt8} (h : c ∈ decimal n) : 48 ≤ c.toNat ∧ c.toNat ≤ 57 := by
  rw [decimal, List.mem_map] at h
  obtain ⟨d, hd, rfl⟩ := h
  have hdigit := Nat.isDigit_of_mem_toDigits (by decide) (by decide) hd
  have hrange : 48 ≤ d.toNat ∧ d.toNat ≤ 57 := Char.isDigit_iff_toNat.mp hdigit
  rw [UInt8.toNat_ofNat']
  omega

theorem decimal_no_nul (n : ℕ) : 0 ∉ decimal n :=
  fun h => absurd (digit_of_mem_decimal h).1 (by decide)

theorem decimal_length_le_iff {n k : ℕ} (hk : 0 < k) : (decimal n).length ≤ k ↔ n < 10 ^ k := by
  rw [decimal, List.length_map, Nat.length_toDigits_le_iff (by decide) hk]

theorem decimal_length_le {n : ℕ} (h : n < 2 ^ 32) : (decimal n).length ≤ 10 :=
  (decimal_length_le_iff (by decide)).mpr (by omega)

/-- The numeral of a positive number, and its last digit. -/
theorem decimal_eq_concat {n : ℕ} (h : 0 < n) :
    decimal n = (if n / 10 = 0 then [] else decimal (n / 10)) ++ [48 + UInt8.ofNat (n % 10)] := by
  by_cases hn : n < 10
  · have hd : n / 10 = 0 := by omega
    rw [decimal_of_lt hn, if_pos hd, Nat.mod_eq_of_lt hn, List.nil_append]
  · have hd : n / 10 ≠ 0 := by omega
    rw [decimal_of_le (by omega), if_neg hd]

theorem decimal_reverse {n : ℕ} (h : 0 < n) :
    (decimal n).reverse =
      (48 + UInt8.ofNat (n % 10)) :: if n / 10 = 0 then [] else (decimal (n / 10)).reverse := by
  rw [decimal_eq_concat h, List.reverse_append, List.reverse_singleton, List.singleton_append]
  split_ifs <;> rfl

theorem decimal_ne_nil (n : ℕ) : decimal n ≠ [] := by
  simp [decimal]

/-- The loop writes the digits from the last one on. -/
theorem tickLoop_spec {n : ℕ} {t : UInt32} (h0 : 0 < t) (hn : (decimal t.toNat).length ≤ n) (str : ℕ → UInt8)
    (len : ℕ) :
    ∃ str', tickLoop n t str len = (str', len + (decimal t.toNat).length) ∧
      (∀ i < len, str' i = str i) ∧
      ∀ i < (decimal t.toNat).length, str' (len + i) = (decimal t.toNat).reverse.getD i 0 := by
  -- one pass for each digit; the digits written so far are not touched again
  induction n generalizing t str len with
  | zero => exact absurd (List.length_eq_zero_iff.mp (Nat.le_zero.mp hn)) (decimal_ne_nil _)
  | succ n ih =>
    have hpos : 0 < t.toNat := UInt32.lt_iff_toNat_lt.mp h0
    have hdigit : (48 : UInt8) + (t % 10).toUInt8 = 48 + UInt8.ofNat (t.toNat % 10) := by
      congr 1
    have hlen : (decimal t.toNat).length =
        (if t.toNat / 10 = 0 then [] else (decimal (t.toNat / 10)).reverse).length + 1 := by
      rw [← List.length_reverse, decimal_reverse hpos, List.length_cons]
    have hdiv : (t / 10).toNat = t.toNat / 10 := rfl
    rw [tickLoop, if_pos h0, decimal_reverse hpos, hdigit]
    by_cases hd : t.toNat / 10 = 0
    · have hstop : ¬ 0 < t / 10 := by
        rw [UInt32.lt_iff_toNat_lt, hdiv, hd]
        exact lt_irrefl _
      rw [if_pos hd] at hlen ⊢
      refine ⟨Function.update str len (48 + UInt8.ofNat (t.toNat % 10)), ?_,
        fun i hi => Function.update_of_ne hi.ne _ _, fun i hi => ?_⟩
      · rw [hlen]
        cases n with
        | zero => rfl
        | succ n => rw [tickLoop, if_neg hstop]; rfl
      · obtain rfl : i = 0 := by simpa [hlen] using hi
        exact Function.update_self ..
    · rw [if_neg hd] at hlen ⊢
      rw [List.length_reverse] at hlen
      have hgo : 0 < t / 10 := by
        rw [UInt32.lt_iff_toNat_lt, hdiv]
        exact Nat.pos_of_ne_zero hd
      obtain ⟨str', he, hold, hnew⟩ := ih hgo (by rw [hdiv]; omega)
        (Function.update str len (48 + UInt8.ofNat (t.toNat % 10))) (len + 1)
      rw [hdiv] at he hnew
      refine ⟨str', ?_, fun i hi => ?_, fun i hi => ?_⟩
      · rw [he, hlen, add_assoc, add_comm 1]
      · rw [hold i (by omega), Function.update_of_ne hi.ne]
      · cases i with
        | zero => rw [add_zero, hold len (by omega), Function.update_self]; rfl
        | succ i =>
          have := hnew i (by omega)
          rw [show len + (i + 1) = len + 1 + i by omega, this]
          rfl

/-- `tick_str` holds the decimal numeral of the tick count, whatever it held before. -/
theorem tickStr_holds (ticks : UInt32) (str : ℕ → UInt8) :
    HoldsString (tickStr ticks str) (decimal ticks.toNat) := by
  by_cases h0 : ticks = 0
  · subst h0
    have hz : decimal (0 : UInt32).toNat = [48] := decimal_of_lt (by decide)
    rw [tickStr, if_pos rfl, hz]
    intro i hi
    have : i = 0 ∨ i = 1 := by simp at hi; omega
    rcases this with rfl | rfl <;> rfl
  · have hpos : 0 < ticks := by
      rw [UInt32.lt_iff_toNat_lt]
      exact Nat.pos_of_ne_zero fun h => h0 (UInt32.toNat_inj.mp h)
    have hlen : (decimal ticks.toNat).length ≤ 15 := by
      have := decimal_length_le ticks.toNat_lt
      omega
    obtain ⟨str', he, -, hnew⟩ := tickLoop_spec hpos hlen str 0
    rw [zero_add] at he
    rw [tickStr, if_neg h0, he]
    intro i hi
    by_cases hlast : i = (decimal ticks.toNat).length
    · subst hlast
      simp
    · have hi' : i < (decimal ticks.toNat).length := lt_of_le_of_ne hi hlast
      have hback := hnew ((decimal ticks.toNat).length - 1 - i) (by omega)
      rw [zero_add] at hback
      simp only [Function.update_of_ne hlast, reverseChars_apply hi', hback]
      have hself : (decimal ticks.toNat).length - 1 - ((decimal ticks.toNat).length - 1 - i) = i := by omega
      rw [List.getD_eq_getElem?_getD, List.getElem?_reverse (by omega), hself, List.getD_eq_getElem?_getD]

/-! ## A line of the log -/

/-- The first 63 characters of `text` stand in the array, and `pos` is behind them. -/
structure LineBuf.Holds (b : LineBuf) (text : List UInt8) : Prop where
  pos_eq : b.pos = min 63 text.length
  chars_eq : ∀ i < b.pos, b.chars i = text.getD i 0

namespace LineBuf

variable {b : LineBuf} {text : List UInt8}

theorem holds_start (chars : ℕ → UInt8) : Holds { chars := chars, pos := 0 } [] :=
  ⟨rfl, fun i hi => absurd hi (Nat.not_lt_zero i)⟩

/-- Beyond the cap nothing is written. -/
theorem Holds.full (h : b.Holds text) (hf : ¬ b.pos < logEntryMax - 1) (str : List UInt8) :
    b.Holds (text ++ str) := by
  have hpos := h.pos_eq
  simp only [logEntryMax] at hf
  refine ⟨by rw [List.length_append]; omega, fun i hi => ?_⟩
  rw [h.chars_eq i hi, List.getD_append _ _ _ _ (by omega)]

theorem Holds.put (h : b.Holds text) (c : UInt8) : (b.put c).Holds (text ++ [c]) := by
  have hpos := h.pos_eq
  by_cases hf : b.pos < logEntryMax - 1
  · rw [LineBuf.put, if_pos hf]
    simp only [logEntryMax] at hf
    have hlen : b.pos = text.length := by omega
    refine ⟨by simp only [List.length_append, List.length_singleton]; omega, fun i hi => ?_⟩
    by_cases he : i = b.pos
    · subst he
      simp [hlen]
    · have hi' : i < b.pos := by
        simp only at hi
        omega
      simp only [Function.update_of_ne he]
      rw [h.chars_eq i hi', List.getD_append _ _ _ _ (by omega)]
  · rw [LineBuf.put, if_neg hf]
    exact h.full hf [c]

theorem Holds.putString (h : b.Holds text) (str : List UInt8) : (b.putString str).Holds (text ++ str) := by
  induction str generalizing b text with
  | nil => simpa [LineBuf.putString] using h
  | cons c str ih =>
    by_cases hf : b.pos < logEntryMax - 1
    · rw [LineBuf.putString, if_pos hf]
      simpa using ih (h.put c)
    · rw [LineBuf.putString, if_neg hf]
      exact h.full hf (c :: str)

/-- The NUL at `pos` ends the string. -/
theorem Holds.holdsString (h : b.Holds text) :
    HoldsString (Function.update b.chars b.pos 0) (text.take 63) := by
  have hlen : (text.take 63).length = b.pos := by rw [List.length_take, h.pos_eq]
  intro i hi
  rw [hlen] at hi
  by_cases he : i = b.pos
  · rw [he, Function.update_self, List.getD_eq_default _ _ hlen.le]
  · have hi' : i < b.pos := lt_of_le_of_ne hi he
    rw [Function.update_of_ne he, h.chars_eq i hi', List.getD_eq_getElem?_getD, List.getD_eq_getElem?_getD,
      List.getElem?_take_of_lt (by have := h.pos_eq; omega)]

end LineBuf

theorem logText_no_nul (level ticks : UInt32) (format : CString) : 0 ∉ logText level ticks format := by
  simp only [logText, List.mem_append, not_or]
  exact ⟨⟨⟨⟨(levelToString level).no_nul, CString.no_nul _⟩, decimal_no_nul _⟩, CString.no_nul _⟩,
    format.no_nul⟩

/-- The line of a message is its text, cut to 63 characters. -/
theorem logLine_holds (level ticks : UInt32) (format : CString) (buffer tick : ℕ → UInt8) :
    HoldsString (logLine level ticks format buffer tick) ((logText level ticks format).take 63) := by
  have htick : readString 16 (tickStr ticks tick) = decimal ticks.toNat := by
    refine (tickStr_holds ticks tick).read (decimal_no_nul _) ?_
    have := decimal_length_le ticks.toNat_lt
    omega
  have htext : logText level ticks format =
      [] ++ (levelToString level).chars ++ [32] ++ [64] ++ decimal ticks.toNat ++ [58] ++ [32] ++
        format.chars := by
    have hat : (CString.ofString " @").chars = [32] ++ [64] := by decide
    have hcolon : (CString.ofString ": ").chars = [58] ++ [32] := by decide
    simp only [logText, hat, hcolon, List.nil_append, List.append_assoc]
  rw [logLine, htick, htext]
  have hlevel := ((LineBuf.holds_start buffer).putString (levelToString level).chars)
  have hticks := ((hlevel.put 32).put 64).putString (decimal ticks.toNat)
  exact (((hticks.put 58).put 32).putString format.chars).holdsString

/-- The copy of a string that fits is the string. -/
theorem safeStrcpy_holds {src : ℕ → UInt8} {cs : List UInt8} {n : ℕ} (h : HoldsString src cs) (h0 : 0 ∉ cs)
    (hn : cs.length < n) (dest : ℕ → UInt8) : HoldsString (safeStrcpy dest src n) cs := by
  rw [safeStrcpy, h.read h0 (by omega)]
  intro i hi
  by_cases he : i = cs.length
  · subst he
    simp
  · simp only [Function.update_of_ne he]
    rw [copyChars_apply, if_pos (lt_of_le_of_ne hi he), h i hi]

/-! ## The ring -/

/-- The string in an entry. -/
def LogEntry.text (e : LogEntry) : List UInt8 := readString logEntryMax e.message

/-- The ring holds the last 32 of the accepted lines, the oldest one at index 0 until it is full. -/
structure LogInv (s : Log) (t : LogSpec) : Prop where
  level_eq : s.currentLevel = t.level
  ring : ∃ start, RingIdx 32 start s.head s.count ∧ (s.count < 32 → start = 0) ∧
    (ringItems s.buffer 32 start s.count.toNat).map LogEntry.text = t.lines.rtake 32

section Ring

variable {s : Log} {t : LogSpec}

/-- The number of entries is the number of lines, up to 32. -/
theorem LogInv.count_eq (h : LogInv s t) : s.count.toNat = min 32 t.lines.length := by
  obtain ⟨start, -, -, htexts⟩ := h.ring
  have hlen := congrArg List.length htexts
  simp only [List.length_map, ringItems_length, List.rtake, List.length_drop] at hlen
  omega

theorem logInv_empty (s : Log) (buffer : ℤ → LogEntry) (level : UInt32) :
    LogInv { s with head := 0, count := 0, buffer := buffer, currentLevel := level }
      { level := level, lines := [] } where
  level_eq := rfl
  ring := ⟨0, ringIdx_empty (by decide), fun _ => rfl, rfl⟩

/-- A new entry takes the next free place, or that of the oldest one. -/
theorem LogInv.add (h : LogInv s t) (e : LogEntry) (serial : List (List UInt8)) :
    LogInv { s with
      buffer := Function.update s.buffer s.head e
      head := (s.head + 1).tmod logEntries
      count := if s.count < logEntries then s.count + 1 else s.count
      serial := serial } { t with lines := t.lines ++ [e.text] } := by
  have hcount := h.count_eq
  obtain ⟨start, hidx, hstart, htexts⟩ := h.ring
  have hnn := hidx.count_nonneg
  have hle := hidx.count_le
  refine ⟨h.level_eq, ?_⟩
  by_cases hroom : s.count < logEntries
  · simp only [if_pos hroom]
    change s.count < 32 at hroom
    refine ⟨start, hidx.push hroom, fun _ => hstart hroom, ?_⟩
    rw [hidx.items_push hroom, List.map_append, htexts, rtake_append_of_lt (by omega)]
    rfl
  · simp only [if_neg hroom]
    change ¬ s.count < 32 at hroom
    have hfull : s.count = 32 := by omega
    rw [hfull] at hidx htexts ⊢
    refine ⟨(s.head + 1).tmod 32, hidx.overwrite, fun h32 => absurd h32 (lt_irrefl _), ?_⟩
    rw [hidx.items_overwrite, List.map_append, List.map_tail, htexts,
      rtake_append_of_le (by decide) (by omega)]
    rfl

/-- The entry of a new line holds its text. -/
theorem safeStrcpy_text (level ticks : UInt32) (format : CString) (buffer tick dest : ℕ → UInt8) :
    readString logEntryMax (safeStrcpy dest (logLine level ticks format buffer tick) logEntryMax) =
      (logText level ticks format).take 63 := by
  have hnul : 0 ∉ (logText level ticks format).take 63 :=
    fun hm => logText_no_nul level ticks format (List.mem_of_mem_take hm)
  have hlen : ((logText level ticks format).take 63).length < logEntryMax := by
    simp only [List.length_take, logEntryMax]
    omega
  have hline := logLine_holds level ticks format buffer tick
  exact (safeStrcpy_holds hline hnul hlen dest).read hnul hlen.le

/-- Every call does to the ring what it does to the log without bounds. -/
theorem logStep_refines (h : LogInv s t) (op : LogOp) : LogInv (logStep s op) (logSpecStep t op) := by
  cases op with
  | init => exact logInv_empty s _ _
  | setLevel level => exact ⟨rfl, h.ring⟩
  | clear =>
    have hempty := logInv_empty s (clearEntries s.buffer) t.level
    rw [← h.level_eq] at hempty
    rw [logSpecStep, ← h.level_eq]
    exact hempty
  | msg level ticks format buffer tick =>
    by_cases hlow : level < s.currentLevel
    · have hrefused : ¬ t.level ≤ level := by
        rw [← h.level_eq]
        exact UInt32.not_le.mpr hlow
      rw [logStep, logMsg, if_pos hlow, logSpecStep, if_neg hrefused]
      exact h
    · have haccepted : t.level ≤ level := by
        rw [← h.level_eq]
        exact UInt32.not_lt.mp hlow
      rw [logStep, logMsg, if_neg hlow, logSpecStep, if_pos haccepted,
        ← safeStrcpy_text level ticks format buffer tick (s.buffer s.head).message]
      exact h.add _ _

/-- `log_dump` prints the strings of the entries, from the oldest one on. -/
theorem LogInv.dump (h : LogInv s t) :
    logDump s = (CString.ofString "\n=== System Log Dump ===\n").chars ::
      if t.lines = [] then [(CString.ofString "(vide)\n").chars]
      else (t.lines.rtake 32).flatMap fun line => [line, (CString.ofString "\n").chars] := by
  have hcount := h.count_eq
  obtain ⟨start, hidx, hstart, htexts⟩ := h.ring
  have hnn := hidx.count_nonneg
  rw [logDump]
  congr 1
  by_cases hempty : t.lines = []
  · have h0 : s.count = 0 := by
      rw [hempty, List.length_nil] at hcount
      omega
    rw [if_pos h0, if_pos hempty]
  · have hpos := List.length_pos_iff.mpr hempty
    have h0 : s.count ≠ 0 := by omega
    have hread : (if s.count < logEntries then 0 else s.head) = start := by
      split_ifs with hroom
      · exact (hstart hroom).symm
      · have hfull : s.count = 32 := le_antisymm hidx.count_le (not_lt.mp hroom)
        rw [hfull] at hidx
        exact hidx.full
    have hmod (i : ℕ) : (start + i).tmod logEntries = (start + i) % 32 := by
      have := hidx.read_nonneg
      exact Int.tmod_eq_emod_of_nonneg (by omega)
    rw [if_neg h0, if_neg hempty, ← htexts, hread]
    simp only [hmod, ringItems, List.flatMap_map, LogEntry.text]

end Ring

/-- **After any calls of the logging API, `log_dump` prints after its header the last 32 of the lines
accepted since the last `log_init` or `log_clear`, in their order, each cut to 63 characters.** -/
theorem log_dump_prints_last_lines (ops : List LogOp) :
    logDump (ops.foldl logStep bootLog) = (CString.ofString "\n=== System Log Dump ===\n").chars ::
      if (ops.foldl logSpecStep bootLogSpec).lines = [] then [(CString.ofString "(vide)\n").chars]
      else ((ops.foldl logSpecStep bootLogSpec).lines.rtake 32).flatMap
        fun line => [line, (CString.ofString "\n").chars] := by
  have hinv : ∀ s t, LogInv s t → LogInv (ops.foldl logStep s) (ops.foldl logSpecStep t) := by
    induction ops with
    | nil => exact fun _ _ h => h
    | cons op ops ih => exact fun s t h => ih _ _ (logStep_refines h op)
  exact (hinv _ _ (logInv_empty bootLog _ _)).dump

end RtosKernel
