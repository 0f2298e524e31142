import RtosKernel.Shell
import RtosKernel.Lib.RingBuffer
import Mathlib.Data.List.GetD

/-!
# Proofs: the data of the shell

The array `buffer` holds a string with the input line at its start, and so does `saved_buffer` with the line
that was saved (`HoldsLine`); a string may be longer than its line, since a command that is executed stays
in the buffer. The functions that work on the arrays stay inside them and keep this (`ShellInv`).
-/

namespace RtosKernel

open Lib

/-! ## Strings -/

/-- A character that is neither NUL nor an editing key. -/
def IsPlain (c : UInt8) : Prop := c ≠ 0 ∧ c ≠ 8 ∧ c ≠ 10

/-- The array holds a string that begins with a line of `idx` plain characters. -/
structure HoldsLine (a : ℕ → UInt8) (idx : ℕ) : Prop where
  ended : (readString maxBuffer a).length < maxBuffer
  idx_le : idx ≤ (readString maxBuffer a).length
  plain : ∀ c ∈ (readString maxBuffer a).take idx, IsPlain c

/-- The first `idx` characters of an array. -/
def lineOf (a : ℕ → UInt8) (idx : ℕ) : List UInt8 := (List.range idx).map a

section Strings

variable {a dest : ℕ → UInt8} {cs : List UInt8} {n i idx : ℕ}

theorem setAt_ok (hi : i < n) (c : UInt8) (a : ℕ → UInt8) : setAt n i c a = .ok (Function.update a i c) :=
  if_pos hi

theorem getAt_ok (hi : i < n) (a : ℕ → UInt8) : getAt n i a = .ok (a i) := if_pos hi

theorem cString_ok (h : (readString n a).length < n) :
    cString n a = .ok ⟨readString n a, zero_notMem_readString n a⟩ := if_pos h

/-- The string that an array holds is read back. -/
theorem cString_holds {src : CString} (h : HoldsString a src.chars) (hlen : src.chars.length < n) :
    cString n a = .ok src := by
  have hread : readString n a = src.chars := h.read src.no_nul hlen.le
  rw [cString_ok (by rw [hread]; exact hlen)]
  exact congrArg Except.ok (CString.ext hread)

theorem shStrcpy_ok (dest : ℕ → UInt8) (src : CString) (h : src.chars.length < maxBuffer) :
    ∃ d, shStrcpy dest src = .ok d ∧ HoldsString d src.chars := by
  have hloop := foldlM_range (N := src.chars.length + 1) (s := dest)
    (f := fun dest i => setAt maxBuffer i (src.chars.getD i 0) dest)
    (P := fun n (t : ℕ → UInt8) => ∀ i < n, t i = src.chars.getD i 0)
    (fun i hi => absurd hi (Nat.not_lt_zero i)) ?_
  · obtain ⟨d, hd, hchars⟩ := hloop
    exact ⟨d, hd, fun i hi => hchars i (Nat.lt_succ_of_le hi)⟩
  · intro n hn t ht
    refine ⟨_, setAt_ok (by omega) _ t, fun i hi => ?_⟩
    by_cases he : i = n
    · rw [he, Function.update_self]
    · rw [Function.update_of_ne he]
      exact ht i (by omega)

theorem HoldsLine.lineOf_eq (h : HoldsLine a idx) : lineOf a idx = (readString maxBuffer a).take idx :=
  (holdsString_readString h.ended).map_range h.idx_le

theorem HoldsLine.line_plain (h : HoldsLine a idx) : ∀ c ∈ lineOf a idx, IsPlain c := by
  rw [h.lineOf_eq]
  exact h.plain

/-- A string that an array holds, with a line at its start. -/
theorem holdsLine_of_holds (h : HoldsString a cs) (hlen : cs.length < maxBuffer) (h0 : 0 ∉ cs)
    (hidx : idx ≤ cs.length) (hplain : ∀ c ∈ cs.take idx, IsPlain c) :
    HoldsLine a idx ∧ lineOf a idx = cs.take idx := by
  have hread : readString maxBuffer a = cs := h.read h0 hlen.le
  refine ⟨⟨?_, ?_, ?_⟩, h.map_range hidx⟩
  · rw [hread]
    exact hlen
  · rw [hread]
    exact hidx
  · rw [hread]
    exact hplain

/-- The line itself, with a NUL behind it. -/
theorem holdsLine_of_plain (h : HoldsString a cs) (hlen : cs.length < maxBuffer)
    (hplain : ∀ c ∈ cs, IsPlain c) :
    HoldsLine a cs.length ∧ lineOf a cs.length = cs := by
  have h0 : 0 ∉ cs := fun hmem => (hplain 0 hmem).1 rfl
  have hline := holdsLine_of_holds h hlen h0 le_rfl fun c hc => hplain c (List.mem_of_mem_take hc)
  rwa [List.take_length] at hline

/-- A copy of the string holds the same line. -/
theorem HoldsLine.copy (h : HoldsLine a idx) (dest : ℕ → UInt8) :
    ∃ d, shStrcpy dest ⟨readString maxBuffer a, zero_notMem_readString maxBuffer a⟩ = .ok d ∧
      HoldsLine d idx ∧ lineOf d idx = lineOf a idx ∧ readString maxBuffer d = readString maxBuffer a := by
  obtain ⟨d, hd, hholds⟩ := shStrcpy_ok dest
    ⟨readString maxBuffer a, zero_notMem_readString maxBuffer a⟩ h.ended
  have h0 := zero_notMem_readString maxBuffer a
  obtain ⟨hline, heq⟩ := holdsLine_of_holds hholds h.ended h0 h.idx_le h.plain
  refine ⟨d, hd, hline, ?_, hholds.read h0 h.ended.le⟩
  rw [heq, h.lineOf_eq]

theorem HoldsLine.shorter {k : ℕ} (h : HoldsLine a idx) (hk : k ≤ idx) : HoldsLine a k where
  ended := h.ended
  idx_le := hk.trans h.idx_le
  plain c hc := by
    refine h.plain c ?_
    have htake : (readString maxBuffer a).take k = ((readString maxBuffer a).take idx).take k := by
      rw [List.take_take, min_eq_left hk]
    rw [htake] at hc
    exact List.mem_of_mem_take hc

theorem lineOf_length (a : ℕ → UInt8) (idx : ℕ) : (lineOf a idx).length = idx := by simp [lineOf]

theorem lineOf_getD (hi : i < idx) : (lineOf a idx).getD i 0 = a i := by
  simp [lineOf, hi]

/-- The line with a NUL stored behind it. -/
theorem holdsString_ended (a : ℕ → UInt8) (idx : ℕ) :
    HoldsString (Function.update a idx 0) (lineOf a idx) := by
  intro i hi
  rw [lineOf_length] at hi
  by_cases he : i = idx
  · rw [he, Function.update_self, List.getD_eq_default _ _ (by rw [lineOf_length])]
  · rw [Function.update_of_ne he, lineOf_getD (by omega)]

/-- The line with a character and a NUL stored behind it. -/
theorem holdsString_typed (a : ℕ → UInt8) (idx : ℕ) (c : UInt8) :
    HoldsString (Function.update (Function.update a idx c) (idx + 1) 0) (lineOf a idx ++ [c]) := by
  have hnext : lineOf (Function.update a idx c) (idx + 1) = lineOf a idx ++ [c] := by
    unfold lineOf
    rw [List.range_succ, List.map_append, List.map_singleton, Function.update_self]
    congr 1
    refine List.map_congr_left fun i hi => ?_
    exact Function.update_of_ne (List.mem_range.mp hi).ne _ _
  rw [← hnext]
  exact holdsString_ended _ _

end Strings

/-! ## The data of the shell -/

/-- The array holds a line that is its whole string. -/
def HoldsEntry (a : ℕ → UInt8) : Prop := HoldsLine a (readString maxBuffer a).length

/-- What the calls of the shell keep. -/
structure ShellInv (sh : Shell) : Prop where
  line : HoldsLine sh.buffer sh.bufIdx
  saved : HoldsLine sh.savedBuffer sh.savedBufIdx
  count_le : sh.historyCount ≤ historySize
  index_range : -1 ≤ sh.historyIndex ∧ sh.historyIndex < sh.historyCount
  entries : ∀ i < sh.historyCount, HoldsEntry (sh.commandHistory i)

section Data

variable {sh : Shell}

theorem ShellInv.idx_le (h : ShellInv sh) : sh.bufIdx ≤ 127 := by
  have hidx := h.line.idx_le
  have hended : (readString maxBuffer sh.buffer).length < 128 := h.line.ended
  omega

theorem ShellInv.length_eq (sh : Shell) : (inputLine sh).length = sh.bufIdx :=
  lineOf_length sh.buffer sh.bufIdx

/-- The text that is parsed is the input line. -/
theorem ShellInv.parsedText_eq (h : ShellInv sh) : parsedText sh = inputLine sh := by
  have h0 : 0 ∉ inputLine sh := fun hmem => (h.line.line_plain 0 hmem).1 rfl
  refine (holdsString_ended sh.buffer sh.bufIdx).read h0 ?_
  have hle : sh.bufIdx ≤ 128 := h.idx_le.trans (by decide)
  rwa [lineOf_length]

/-- A new line in the buffer. -/
theorem ShellInv.edit (h : ShellInv sh) {a : ℕ → UInt8} {cs : List UInt8} (ha : HoldsString a cs)
    (hlen : cs.length < maxBuffer) (hplain : ∀ c ∈ cs, IsPlain c) :
    ShellInv { sh with buffer := a, bufIdx := cs.length } ∧
      inputLine { sh with buffer := a, bufIdx := cs.length } = cs := by
  obtain ⟨hline, heq⟩ := holdsLine_of_plain ha hlen hplain
  exact ⟨⟨hline, h.saved, h.count_le, h.index_range, h.entries⟩, heq⟩

theorem inputLine_dropLast (sh : Shell) :
    (inputLine sh).dropLast = lineOf sh.buffer (sh.bufIdx - 1) := by
  unfold inputLine lineOf
  cases sh.bufIdx with
  | zero => rfl
  | succ n =>
    rw [List.range_succ, List.map_append, List.map_singleton, List.dropLast_concat, Nat.add_sub_cancel]

/-- A character is typed. -/
theorem ShellInv.typed (h : ShellInv sh) {c : UInt8} (hc : IsPlain c) (hroom : sh.bufIdx < 127) :
    ShellInv { sh with
        bufIdx := sh.bufIdx + 1
        buffer := Function.update (Function.update sh.buffer sh.bufIdx c) (sh.bufIdx + 1) 0 } ∧
      inputLine { sh with
        bufIdx := sh.bufIdx + 1
        buffer := Function.update (Function.update sh.buffer sh.bufIdx c) (sh.bufIdx + 1) 0 } =
      inputLine sh ++ [c] := by
  have hnext : (inputLine sh ++ [c]).length = sh.bufIdx + 1 := by
    rw [List.length_append, List.length_singleton, ShellInv.length_eq]
  have hlen : (inputLine sh ++ [c]).length < maxBuffer := by
    rw [hnext]
    exact Nat.succ_lt_succ hroom
  have hplain : ∀ c' ∈ inputLine sh ++ [c], IsPlain c' := by
    intro c' hc'
    rcases List.mem_append.mp hc' with hc' | hc'
    · exact h.line.line_plain c' hc'
    · rwa [List.mem_singleton.mp hc']
  have hedit := h.edit (holdsString_typed sh.buffer sh.bufIdx c) hlen hplain
  rwa [show (lineOf sh.buffer sh.bufIdx ++ [c]).length = sh.bufIdx + 1 from hnext] at hedit

/-- The last character is erased. -/
theorem ShellInv.erased (h : ShellInv sh) :
    ShellInv { sh with
        bufIdx := sh.bufIdx - 1, buffer := Function.update sh.buffer (sh.bufIdx - 1) 0 } ∧
      inputLine { sh with
        bufIdx := sh.bufIdx - 1, buffer := Function.update sh.buffer (sh.bufIdx - 1) 0 } =
      (inputLine sh).dropLast := by
  have hidx := h.idx_le
  have hlast : (inputLine sh).dropLast.length = sh.bufIdx - 1 := by
    rw [List.length_dropLast, ShellInv.length_eq]
  have hlen : (inputLine sh).dropLast.length < 128 := by
    rw [hlast]
    omega
  have hholds := holdsString_ended sh.buffer (sh.bufIdx - 1)
  rw [← inputLine_dropLast] at hholds
  have hedit := h.edit hholds hlen fun c hc => h.line.line_plain c (List.mem_of_mem_dropLast hc)
  rwa [hlast] at hedit

/-- The assignments at the start of `execute_command` keep the line. -/
theorem endLine_ok {sh : Shell} (h : ShellInv sh) :
    ∃ sh', endLine sh = .ok sh' ∧ ShellInv sh' ∧ inputLine sh' = inputLine sh ∧ sh'.bufIdx = sh.bufIdx ∧
      HoldsString sh'.buffer (inputLine sh') := by
  have hidx : sh.bufIdx < maxBuffer := h.idx_le.trans_lt (by decide)
  have hholds := holdsString_ended sh.buffer sh.bufIdx
  obtain ⟨hline, heq⟩ := holdsLine_of_plain hholds (by rw [lineOf_length]; exact hidx) h.line.line_plain
  rw [lineOf_length] at hline heq
  obtain ⟨hsaved, -⟩ := holdsLine_of_plain (holdsString_ended sh.savedBuffer 0)
    (by rw [lineOf_length]; decide) (by simp [lineOf])
  have hindex : (-1 : ℤ) ≤ -1 ∧ (-1 : ℤ) < sh.historyCount := by omega
  refine ⟨{ sh with
    buffer := Function.update sh.buffer sh.bufIdx 0, historyIndex := -1, savedBufIdx := 0,
    savedBuffer := Function.update sh.savedBuffer 0 0 }, ?_,
    ⟨hline, hsaved, h.count_le, hindex, h.entries⟩, heq, rfl, ?_⟩
  · rw [endLine, setAt_ok hidx, ok_bind, setAt_ok (by decide), ok_bind]
    rfl
  · show HoldsString _ (lineOf (Function.update sh.buffer sh.bufIdx 0) sh.bufIdx)
    rw [heq]
    exact hholds

theorem bootShell_inv : ShellInv bootShell := by
  have hnil : HoldsString (fun _ => 0) [] := holdsString_nil.mpr rfl
  have hzero : HoldsLine (fun _ => 0) 0 := (holdsLine_of_plain hnil (by decide) (by simp)).1
  exact ⟨hzero, hzero, by decide, by decide, fun i hi => absurd hi (Nat.not_lt_zero i)⟩

theorem historyRow_ok {i : ℕ} (hi : i < historySize) (sh : Shell) :
    historyRow i sh = .ok (sh.commandHistory i) := by
  have hin : 0 ≤ (i : ℤ) ∧ (i : ℤ) < (historySize : ℤ) := ⟨Int.natCast_nonneg i, by exact_mod_cast hi⟩
  rw [historyRow, if_pos hin, Int.toNat_natCast]

theorem holdsEntry_of_holds {a : ℕ → UInt8} {cs : List UInt8} (ha : HoldsString a cs)
    (hlen : cs.length < maxBuffer) (hplain : ∀ c ∈ cs, IsPlain c) : HoldsEntry a := by
  have h0 : 0 ∉ cs := fun hmem => (hplain 0 hmem).1 rfl
  have hread : readString maxBuffer a = cs := ha.read h0 hlen.le
  unfold HoldsEntry
  rw [hread]
  exact (holdsLine_of_plain ha hlen hplain).1

theorem HoldsEntry.plain {a : ℕ → UInt8} (h : HoldsEntry a) : ∀ c ∈ readString maxBuffer a, IsPlain c := by
  have hplain := HoldsLine.plain h
  rwa [List.take_length] at hplain

/-! ## The history -/

theorem toNat_ne_zero {c : UInt8} (h : c ≠ 0) : c.toNat ≠ 0 := fun h0 => h (UInt8.toNat_inj.mp h0)

theorem strcmpChars_eq_zero {as bs : List UInt8} (ha : 0 ∉ as) (hb : 0 ∉ bs) :
    strcmpChars as bs = 0 ↔ as = bs := by
  induction as generalizing bs with
  | nil =>
    cases bs with
    | nil => simp [strcmpChars]
    | cons b bs =>
      have h0 : b.toNat ≠ 0 := toNat_ne_zero fun h => hb (by simp [h])
      simp [strcmpChars, h0]
  | cons a as ih =>
    have h0 : a.toNat ≠ 0 := toNat_ne_zero fun h => ha (by simp [h])
    cases bs with
    | nil => simp [strcmpChars, h0]
    | cons b bs =>
      rw [strcmpChars]
      split_ifs with hab
      · rw [ih (fun h => ha (List.mem_cons_of_mem a h)) fun h => hb (List.mem_cons_of_mem b h), hab]
        simp
      · have hne : (a.toNat : ℤ) - b.toNat ≠ 0 := fun h => hab (UInt8.toNat_inj.mp (by omega))
        simp [hne, hab]

theorem shStrcmp_eq_zero {a b : CString} : shStrcmp a b = 0 ↔ a = b := by
  rw [shStrcmp, strcmpChars_eq_zero a.no_nul b.no_nul, CString.ext_iff]

/-- The rows of the history hold these commands. -/
structure HoldsHistory (sh : Shell) (es : List CString) : Prop where
  count_eq : sh.historyCount = es.length
  count_le : es.length ≤ historySize
  rows : ∀ i (hi : i < es.length), HoldsString (sh.commandHistory i) es[i].chars
  short : ∀ e ∈ es, e.chars.length < maxBuffer

/-- What `history_add` makes of the commands. -/
def addEntry (es : List CString) (cmd : CString) : List CString :=
  if cmd.chars = [] ∨ es.getLast? = some cmd then es else (es ++ [cmd]).rtake historySize

/-- A store of a command into the history. -/
theorem setHistoryRow_ok {i : ℕ} (hi : i < historySize) (src : CString) (hlen : src.chars.length < maxBuffer)
    (sh : Shell) :
    ∃ row, setHistoryRow i src sh =
        .ok { sh with commandHistory := Function.update sh.commandHistory i row } ∧
      HoldsString row src.chars := by
  obtain ⟨row, hrow, hholds⟩ := shStrcpy_ok (sh.commandHistory i) src hlen
  refine ⟨row, ?_, hholds⟩
  rw [setHistoryRow, historyRow_ok hi, ok_bind, hrow, ok_bind, Int.toNat_natCast]
  rfl

/-- The loop of `history_add` that drops the oldest command. -/
theorem shiftHistory_ok {es : List CString} (h : HoldsHistory sh es) (hfull : es.length = historySize) :
    ∃ rows, (List.range (historySize - 1)).foldlM (fun sh (i : ℕ) => do
        let row ← historyRow (i + 1) sh
        let src ← cString maxBuffer row
        setHistoryRow i src sh) sh = .ok { sh with commandHistory := rows } ∧
      ∀ i (hi : i + 1 < es.length), HoldsString (rows i) es[i + 1].chars := by
  -- before pass `n` the rows below `n` have moved down, and the others are as they were
  have hloop := foldlM_range (N := historySize - 1) (s := sh)
    (f := fun sh (i : ℕ) => do
        let row ← historyRow (i + 1) sh
        let src ← cString maxBuffer row
        setHistoryRow i src sh)
    (P := fun n t => ∃ rows, t = { sh with commandHistory := rows } ∧
      (∀ i (hi : i + 1 < es.length), i < n → HoldsString (rows i) es[i + 1].chars) ∧
      ∀ i (hi : i < es.length), n ≤ i → HoldsString (rows i) es[i].chars)
    ⟨sh.commandHistory, rfl, fun i _ hi => absurd hi (Nat.not_lt_zero i), fun i hi _ => h.rows i hi⟩ ?_
  · obtain ⟨t, ht, rows, rfl, hdone, -⟩ := hloop
    exact ⟨rows, ht, fun i hi => hdone i hi (by omega)⟩
  · rintro n hn t ⟨rows, rfl, hdone, hrest⟩
    have hn' : n + 1 < es.length := by omega
    have hlen := h.short _ (List.getElem_mem hn')
    have hread : historyRow ((n : ℤ) + 1) { sh with commandHistory := rows } = .ok (rows (n + 1)) := by
      have hrow := historyRow_ok (i := n + 1) (by omega) { sh with commandHistory := rows }
      push_cast at hrow
      exact hrow
    obtain ⟨row, hset, hrow⟩ := setHistoryRow_ok (i := n) (by omega) es[n + 1] hlen
      { sh with commandHistory := rows }
    refine ⟨_, ?_, Function.update rows n row, rfl, fun i hi hin => ?_, fun i hi hin => ?_⟩
    · rw [hread, ok_bind, cString_holds (hrest (n + 1) hn' (by omega)) hlen, ok_bind, hset]
    · by_cases he : i = n
      · subst he
        rw [Function.update_self]
        exact hrow
      · rw [Function.update_of_ne he]
        exact hdone i hi (by omega)
    · rw [Function.update_of_ne (by omega)]
      exact hrest i hi (by omega)

theorem repeatsLast_ok {es : List CString} (h : HoldsHistory sh es) (cmd : CString) :
    repeatsLast cmd sh = .ok (decide (es.getLast? = some cmd)) := by
  have hcount := h.count_eq
  have hle := h.count_le
  unfold repeatsLast
  split_ifs with hpos
  · have hlast : sh.historyCount - 1 < es.length := by omega
    have hrow : historyRow ((sh.historyCount : ℤ) - 1) sh =
        .ok (sh.commandHistory (sh.historyCount - 1)) := by
      have hrow := historyRow_ok (i := sh.historyCount - 1) (by omega) sh
      rwa [Nat.cast_sub hpos, Nat.cast_one] at hrow
    have hget : es.getLast? = some es[sh.historyCount - 1] := by
      simp only [hcount, List.getLast?_eq_getElem?]
      exact List.getElem?_eq_getElem (by omega)
    rw [hrow, ok_bind, cString_holds (h.rows _ hlast) (h.short _ (List.getElem_mem hlast)), ok_bind, hget]
    simp only [shStrcmp_eq_zero, Option.some.injEq, pure_eq_ok]
  · have hnil : es = [] := List.length_eq_zero_iff.mp (by omega)
    simp [hnil]

/-- One more command in the first free row. -/
theorem holdsHistory_concat {es : List CString} {rows : ℕ → ℕ → UInt8} {row : ℕ → UInt8} {cmd : CString}
    (hroom : es.length < historySize) (hrows : ∀ i (hi : i < es.length), HoldsString (rows i) es[i].chars)
    (hrow : HoldsString row cmd.chars) (hshort : ∀ e ∈ es, e.chars.length < maxBuffer)
    (hlen : cmd.chars.length < maxBuffer) (sh : Shell) :
    HoldsHistory { sh with
      commandHistory := Function.update rows es.length row, historyCount := es.length + 1 } (es ++ [cmd]) where
  count_eq := by simp
  count_le := by
    rw [List.length_append, List.length_singleton]
    exact hroom
  rows := by
    intro i hi
    show HoldsString (Function.update rows es.length row i) _
    by_cases he : i = es.length
    · subst he
      rw [Function.update_self]
      simpa using hrow
    · have hi' : i < es.length := by
        rw [List.length_append, List.length_singleton] at hi
        omega
      rw [Function.update_of_ne he, List.getElem_append_left hi']
      exact hrows i hi'
  short := by
    intro e he
    rcases List.mem_append.mp he with he | he
    · exact hshort e he
    · rwa [List.mem_singleton.mp he]

/-- A command is stored behind the others, while there is room. -/
theorem storeEntry_room {es : List CString} (h : HoldsHistory sh es) (cmd : CString)
    (hlen : cmd.chars.length < maxBuffer) (hroom : sh.historyCount < historySize) :
    ∃ rows, setHistoryRow sh.historyCount cmd sh = .ok { sh with commandHistory := rows } ∧
      HoldsHistory { sh with commandHistory := rows, historyCount := sh.historyCount + 1 } (es ++ [cmd]) := by
  obtain ⟨row, hset, hrow⟩ := setHistoryRow_ok hroom cmd hlen sh
  refine ⟨_, hset, ?_⟩
  rw [h.count_eq] at hroom ⊢
  exact holdsHistory_concat hroom h.rows hrow h.short hlen sh

/-- In a full history all commands move down by one row, and the first one is lost. -/
theorem storeEntry_full {es : List CString} (h : HoldsHistory sh es) (cmd : CString)
    (hlen : cmd.chars.length < maxBuffer) (hfull : es.length = historySize) :
    ∃ rows, ((List.range (historySize - 1)).foldlM (fun sh (i : ℕ) => do
        let row ← historyRow (i + 1) sh
        let src ← cString maxBuffer row
        setHistoryRow i src sh) sh >>= setHistoryRow (historySize - 1) cmd) =
          .ok { sh with commandHistory := rows } ∧
      HoldsHistory { sh with commandHistory := rows } (es.tail ++ [cmd]) := by
  obtain ⟨rows, hshift, hrows⟩ := shiftHistory_ok h hfull
  obtain ⟨row, hset, hrow⟩ := setHistoryRow_ok (i := historySize - 1) (by decide) cmd hlen
    { sh with commandHistory := rows }
  refine ⟨Function.update rows (historySize - 1) row, ?_, ?_⟩
  · rw [hshift, ok_bind]
    exact hset
  · have htail : es.tail.length = historySize - 1 := by rw [List.length_tail, hfull]
    have hcount : sh.historyCount = es.tail.length + 1 := by
      rw [h.count_eq, hfull, htail]
      rfl
    have hmoved : ∀ i (hi : i < es.tail.length), HoldsString (rows i) es.tail[i].chars := by
      intro i hi
      rw [List.getElem_tail]
      exact hrows i (by rw [List.length_tail] at hi; omega)
    have hadd := holdsHistory_concat (by rw [htail]; decide) hmoved hrow
      (fun e he => h.short e (List.mem_of_mem_tail he)) hlen sh
    rwa [← hcount, htail] at hadd

/-- `history_add` changes the history only. -/
theorem historyAdd_ok {es : List CString} (h : HoldsHistory sh es) (cmd : CString)
    (hlen : cmd.chars.length < maxBuffer) :
    ∃ rows count, historyAdd cmd sh = .ok { sh with commandHistory := rows, historyCount := count } ∧
      HoldsHistory { sh with commandHistory := rows, historyCount := count } (addEntry es cmd) := by
  have hcount := h.count_eq
  have hle := h.count_le
  unfold historyAdd addEntry
  by_cases hempty : cmd.chars = []
  · rw [if_pos (by simp [shStrlen, hempty]), if_pos (.inl hempty)]
    exact ⟨sh.commandHistory, sh.historyCount, rfl, h⟩
  rw [if_neg (by simp [shStrlen, hempty]), repeatsLast_ok h, ok_bind]
  by_cases hsame : es.getLast? = some cmd
  · rw [if_pos (decide_eq_true hsame), if_pos (.inr hsame)]
    exact ⟨sh.commandHistory, sh.historyCount, rfl, h⟩
  rw [if_neg (show ¬ decide (es.getLast? = some cmd) = true by simp [hsame]),
    if_neg (show ¬ (cmd.chars = [] ∨ es.getLast? = some cmd) by simp [hempty, hsame])]
  by_cases hroom : sh.historyCount < historySize
  · obtain ⟨rows, hset, hadd⟩ := storeEntry_room h cmd hlen hroom
    have hall : (es ++ [cmd]).rtake historySize = es ++ [cmd] := by
      have hfew : (es ++ [cmd]).length - historySize = 0 := by
        rw [List.length_append, List.length_singleton]
        omega
      rw [List.rtake, hfew, List.drop_zero]
    rw [if_pos hroom, hset, ok_bind, hall]
    exact ⟨rows, sh.historyCount + 1, rfl, hadd⟩
  · have hfull : es.length = historySize := by omega
    obtain ⟨rows, hset, hadd⟩ := storeEntry_full h cmd hlen hfull
    have hself : es.rtake historySize = es := by
      rw [List.rtake, hfull, Nat.sub_self, List.drop_zero]
    rw [if_neg hroom, rtake_append_of_le (by decide) (by omega), hself]
    exact ⟨rows, sh.historyCount, hset, hadd⟩

/-- The commands in the history of a shell. -/
theorem ShellInv.holdsHistory (h : ShellInv sh) :
    ∃ es, HoldsHistory sh es ∧ ∀ e ∈ es, ∀ c ∈ e.chars, IsPlain c := by
  refine ⟨(List.range sh.historyCount).map fun i =>
    ⟨readString maxBuffer (sh.commandHistory i), zero_notMem_readString _ _⟩, ⟨?_, ?_, ?_, ?_⟩, ?_⟩
  · simp
  · simpa using h.count_le
  · intro i hi
    have hi' : i < sh.historyCount := by simpa using hi
    simpa using holdsString_readString (h.entries i hi').ended
  · intro e he
    obtain ⟨i, hi, rfl⟩ := List.mem_map.mp he
    exact (h.entries i (List.mem_range.mp hi)).ended
  · intro e he
    obtain ⟨i, hi, rfl⟩ := List.mem_map.mp he
    exact (h.entries i (List.mem_range.mp hi)).plain

theorem addEntry_length (es : List CString) (cmd : CString) (h : es.length ≤ historySize) :
    es.length ≤ (addEntry es cmd).length := by
  unfold addEntry
  split_ifs
  · exact le_rfl
  · rw [rtake_length, List.length_append, List.length_singleton]
    omega

/-- A command without editing keys. -/
theorem ShellInv.historyAdd (h : ShellInv sh) (cmd : CString) (hlen : cmd.chars.length < maxBuffer)
    (hplain : ∀ c ∈ cmd.chars, IsPlain c) :
    ∃ rows count, historyAdd cmd sh = .ok { sh with commandHistory := rows, historyCount := count } ∧
      ShellInv { sh with commandHistory := rows, historyCount := count } := by
  obtain ⟨es, hes, hall⟩ := h.holdsHistory
  obtain ⟨rows, count, hadd, hnew⟩ := historyAdd_ok hes cmd hlen
  have hgrows := addEntry_length es cmd hes.count_le
  have hcount : count = (addEntry es cmd).length := hnew.count_eq
  have hplain' : ∀ e ∈ addEntry es cmd, ∀ c ∈ e.chars, IsPlain c := by
    intro e he
    unfold addEntry at he
    split_ifs at he
    · exact hall e he
    · rcases List.mem_append.mp (List.mem_of_mem_drop he) with he | he
      · exact hall e he
      · rwa [List.mem_singleton.mp he]
  refine ⟨rows, count, hadd, h.line, h.saved, hcount ▸ hnew.count_le, ⟨h.index_range.1, ?_⟩, fun i hi => ?_⟩
  · have hlt := h.index_range.2
    rw [hes.count_eq] at hlt
    show sh.historyIndex < (count : ℤ)
    omega
  · have hi' : i < (addEntry es cmd).length := hcount ▸ hi
    have hmem := List.getElem_mem hi'
    exact holdsEntry_of_holds (hnew.rows i hi') (hnew.short _ hmem) (hplain' _ hmem)

/-- A command of the history becomes the input line. -/
theorem recallEntry_ok (h : ShellInv sh) {i : ℕ} (hi : i < sh.historyCount) (hindex : sh.historyIndex = i) :
    ∃ a, recallEntry sh = .ok { sh with
        buffer := a, bufIdx := (readString maxBuffer (sh.commandHistory i)).length } ∧
      ShellInv { sh with buffer := a, bufIdx := (readString maxBuffer (sh.commandHistory i)).length } := by
  have hcount := h.count_le
  have hentry := h.entries i hi
  obtain ⟨a, hcopy, hline, -, hread⟩ := HoldsLine.copy hentry sh.buffer
  have hended : (readString maxBuffer a).length < maxBuffer := by rw [hread]; exact hentry.ended
  refine ⟨a, ?_, hline, h.saved, h.count_le, h.index_range, h.entries⟩
  rw [recallEntry, hindex, historyRow_ok (by omega), ok_bind, cString_ok hentry.ended, ok_bind, hcopy, ok_bind,
    cString_ok hended, ok_bind, ← hread]
  rfl

end Data

end RtosKernel
