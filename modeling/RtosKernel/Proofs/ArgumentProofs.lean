import RtosKernel.Shell
import Mathlib.Data.List.GetD

/-!
# Proofs: the arguments of a command

`split_args` stays inside the array `args` and stores the words of the line in pieces of 31 characters: where
a word is longer, the next argument begins with the rest of it. So the arguments are the words, each with its
end cut off, only if no word before the eighth is longer, or if the words behind it look like its pieces.
-/

namespace RtosKernel

open Lib

/-- What `split_args` makes of a line, without the limit on the number of arguments. -/
def argTexts (cs : List UInt8) : List (List UInt8) := (words (· = 32) cs).flatMap (pieces 31)

/-- The rows of `args` from `argc` on hold the texts. -/
def HoldsTexts (args : Args) (argc : ℕ) (texts : List (List UInt8)) : Prop :=
  ∀ i < texts.length, HoldsString (args (argc + i)) (texts.getD i [])

section Arguments

variable {argc j n : ℕ} {args : Args} {cs w : List UInt8}

theorem setArg_ok {i j : ℕ} (hi : i < maxArgs) (hj : j < argLen) (c : UInt8) (args : Args) :
    setArg i j c args = .ok (Function.update args i (Function.update (args i) j c)) := if_pos ⟨hi, hj⟩

/-- One argument is copied into its row, from place `j` on: the word at the start of the text, or as much of it
as the row takes. -/
theorem copyArg_ok (hargc : argc < maxArgs) (hj : j < argLen) (args : Args)
    (hw : (cs.takeWhile fun c => !decide (c = 32)).take (argLen - 1 - j) = w) :
    ∃ row, copyArg argc cs j args = .ok (cs.drop w.length, j + w.length, Function.update args argc row) ∧
      (∀ i < j, row i = args argc i) ∧ ∀ i < w.length, row (j + i) = w.getD i 0 := by
  induction cs generalizing j args w with
  | nil =>
    obtain rfl : w = [] := by simpa using hw.symm
    refine ⟨args argc, ?_, fun _ _ => rfl, fun i hi => absurd hi (Nat.not_lt_zero i)⟩
    rw [copyArg, Function.update_eq_self]
    rfl
  | cons c cs ih =>
    rw [copyArg]
    by_cases hc : c ≠ 32 ∧ j < argLen - 1
    · rw [if_pos hc, setArg_ok hargc hj, ok_bind]
      have hleft : argLen - 1 - j = argLen - 1 - (j + 1) + 1 := by omega
      have hcopied : (!decide (c = 32)) = true := by simpa using hc.1
      rw [List.takeWhile_cons_of_pos (p := fun c => !decide (c = 32)) hcopied, hleft, List.take_succ_cons] at hw
      subst hw
      have hj' : j + 1 < argLen := by simp only [argLen] at hc ⊢; omega
      obtain ⟨row, he, hbefore, hafter⟩ := ih hj'
        (Function.update args argc (Function.update (args argc) j c)) rfl
      rw [Function.update_self] at hbefore
      refine ⟨row, ?_, fun i hi => ?_, fun i hi => ?_⟩
      · rw [he, Function.update_idem, List.length_cons, List.drop_succ_cons, Nat.add_assoc, Nat.add_comm 1]
      · rw [hbefore i (by omega), Function.update_of_ne (by omega)]
      · cases i with
        | zero => rw [Nat.add_zero, hbefore j (by omega), Function.update_self, List.getD_cons_zero]
        | succ i =>
          rw [List.getD_cons_succ, ← hafter i (by simpa using hi)]
          congr 1
          omega
    · rw [if_neg hc]
      obtain rfl : w = [] := by
        rw [← hw]
        by_cases h32 : c = 32
        · simp [h32]
        · have hfull : argLen - 1 - j = 0 := by
            have hnot : ¬ j < argLen - 1 := fun hlt => hc ⟨h32, hlt⟩
            omega
          rw [hfull, List.take_zero]
      refine ⟨args argc, ?_, fun _ _ => rfl, fun i hi => absurd hi (Nat.not_lt_zero i)⟩
      rw [Function.update_eq_self]
      rfl

/-- The row that one pass of the outer loop leaves. -/
theorem copyArg_ended {row : ℕ → UInt8} (hrow : ∀ i < w.length, row (0 + i) = w.getD i 0) :
    HoldsString (Function.update row (0 + w.length) 0) w := by
  intro i hi
  rcases hi.lt_or_eq with hlt | rfl
  · rw [Function.update_of_ne (by omega), ← hrow i hlt, Nat.zero_add]
  · rw [Nat.zero_add, Function.update_self, List.getD_eq_default _ _ le_rfl]

theorem argTexts_cons {c : UInt8} (hc : c ≠ 32)
    (hw : ((c :: cs).takeWhile fun c => !decide (c = 32)).take 31 = w) :
    argTexts (c :: cs) = w :: argTexts (((c :: cs).drop w.length).dropWhile (· = 32)) := by
  have hsep : decide (c = 32) = false := by simpa using hc
  rw [argTexts, pieces_words_cons (p := fun c => decide (c = 32)) (by decide) hsep, argTexts, words_dropWhile, hw]

theorem HoldsTexts.cons {text : List UInt8} {texts : List (List UInt8)} (h : HoldsString (args argc) text)
    (hs : HoldsTexts args (argc + 1) texts) : HoldsTexts args argc (text :: texts) := by
  intro i hi
  cases i with
  | zero => exact h
  | succ i =>
    rw [List.getD_cons_succ, Nat.add_comm i 1, ← Nat.add_assoc]
    exact hs i (by simpa using hi)

theorem head?_dropWhile_blank (cs : List UInt8) : ∀ c ∈ (cs.dropWhile (· = 32)).head?, c ≠ 32 := by
  intro c hc
  simpa using not_of_mem_head?_dropWhile _ hc

/-- The outer loop fills the rows from `argc` on, from a text that does not begin with a blank. -/
theorem splitLoop_ok (hcs : ∀ c ∈ cs.head?, c ≠ 32) (hn : argc + n = maxArgs) (args : Args) :
    ∃ args', splitLoop n cs argc args = .ok (argc + ((argTexts cs).take n).length, args') ∧
      (∀ i < argc, args' i = args i) ∧ HoldsTexts args' argc ((argTexts cs).take n) := by
  induction n generalizing cs argc args with
  | zero => exact ⟨args, rfl, fun _ _ => rfl, fun i hi => absurd hi (Nat.not_lt_zero i)⟩
  | succ n ih =>
    cases cs with
    | nil => exact ⟨args, rfl, fun _ _ => rfl, fun i hi => absurd hi (Nat.not_lt_zero i)⟩
    | cons c cs =>
      have hargc : argc < maxArgs := by omega
      have hc : c ≠ 32 := hcs c rfl
      obtain ⟨w, hw⟩ : ∃ w, ((c :: cs).takeWhile fun c => !decide (c = 32)).take 31 = w := ⟨_, rfl⟩
      obtain ⟨row, hcopy, -, hrow⟩ := copyArg_ok hargc (show 0 < argLen by decide) args hw
      have hlen : 0 + w.length < argLen := by
        rw [← hw, Nat.zero_add]
        exact (List.length_take_le _ _).trans_lt (by decide)
      obtain ⟨args', he, hrows, htexts⟩ := ih (head?_dropWhile_blank ((c :: cs).drop w.length))
        (show argc + 1 + n = maxArgs by omega)
        (Function.update args argc (Function.update row (0 + w.length) 0))
      refine ⟨args', ?_, fun i hi => ?_, ?_⟩
      · rw [splitLoop, hcopy, ok_bind]
        simp only
        rw [setArg_ok hargc hlen, ok_bind, Function.update_self, Function.update_idem, he,
          argTexts_cons (hcs c rfl) hw, List.take_succ_cons, List.length_cons, Nat.add_assoc, Nat.add_comm 1]
      · rw [hrows i (by omega), Function.update_of_ne (by omega)]
      · rw [argTexts_cons (hcs c rfl) hw, List.take_succ_cons]
        refine htexts.cons ?_
        rw [hrows argc (Nat.lt_succ_self argc), Function.update_self]
        exact copyArg_ended hrow

theorem splitArgsInto_ok (cmd : CString) (args₀ : Args) :
    ∃ args, splitArgsInto cmd args₀ = .ok (((argTexts cmd.chars).take 8).length, args) ∧
      HoldsTexts args 0 ((argTexts cmd.chars).take 8) := by
  have hhead : ∀ d ∈ (cmd.chars.dropWhile (· = 32)).head?, d ≠ 32 := head?_dropWhile_blank cmd.chars
  have htexts : argTexts (cmd.chars.dropWhile (· = 32)) = argTexts cmd.chars := by
    rw [argTexts, argTexts, words_dropWhile]
  obtain ⟨args, he, -, hholds⟩ := splitLoop_ok hhead (show 0 + 8 = maxArgs from rfl) args₀
  rw [htexts, Nat.zero_add] at he
  rw [htexts] at hholds
  exact ⟨args, he, hholds⟩

theorem length_le_of_mem_argTexts {text : List UInt8} (h : text ∈ argTexts cs) : text.length ≤ 31 := by
  obtain ⟨w, -, hmem⟩ := List.mem_flatMap.mp h
  exact length_le_of_mem_pieces hmem

theorem argTexts_eq_nil : argTexts cs = [] ↔ ∀ c ∈ cs, c = 32 := by
  have hblank : cs.dropWhile (· = 32) = [] ↔ ∀ c ∈ cs, c = 32 := by simp [List.dropWhile_eq_nil_iff]
  rw [← hblank, argTexts, ← words_dropWhile]
  cases hcs : cs.dropWhile (· = 32) with
  | nil => exact iff_of_true rfl rfl
  | cons c rest =>
    have hc : c ≠ 32 := head?_dropWhile_blank cs c (by rw [hcs]; rfl)
    refine iff_of_false ?_ (by simp)
    intro hnil
    have htexts : argTexts (c :: rest) = [] := hnil
    rw [argTexts_cons hc rfl] at htexts
    exact absurd htexts (List.cons_ne_nil _ _)

/-- A line of blanks has no arguments, and any other line has a first one. -/
theorem splitArgs_ok (cmd : CString) :
    ∃ argc args, splitArgs cmd = .ok (argc, args) ∧ (argc = 0 ↔ ∀ c ∈ cmd.chars, c = 32) ∧
      (argc ≠ 0 → (readString argLen (args 0)).length < argLen) := by
  obtain ⟨args, he, hholds⟩ := splitArgsInto_ok cmd fun _ _ => 0
  refine ⟨_, args, he, ?_, fun hne => ?_⟩
  · rw [← argTexts_eq_nil, List.length_eq_zero_iff]
    simp
  · have hmem : ((argTexts cmd.chars).take 8).getD 0 [] ∈ argTexts cmd.chars := by
      rw [List.getD_eq_getElem _ _ (Nat.pos_of_ne_zero hne)]
      exact List.mem_of_mem_take (List.getElem_mem _)
    have hlen := length_le_of_mem_argTexts hmem
    have hnul := hholds 0 (Nat.pos_of_ne_zero hne) _ le_rfl
    rw [List.getD_eq_default _ _ le_rfl] at hnul
    exact (readString_length_le hnul (Nat.lt_succ_of_le hlen)).trans_lt (Nat.lt_succ_of_le hlen)

theorem HoldsTexts.unique {texts texts' : List (List UInt8)} (h : HoldsTexts args 0 texts)
    (h' : HoldsTexts args 0 texts') (hlen : texts.length = texts'.length) (h0 : ∀ t ∈ texts, 0 ∉ t)
    (h0' : ∀ t ∈ texts', 0 ∉ t) : texts = texts' := by
  refine List.ext_getElem hlen fun i hi hi' => ?_
  have hholds := h i hi
  have hholds' := h' i hi'
  rw [List.getD_eq_getElem _ _ hi] at hholds
  rw [List.getD_eq_getElem _ _ hi'] at hholds'
  exact hholds.unique hholds' (h0 _ (List.getElem_mem hi)) (h0' _ (List.getElem_mem hi'))

/-- The words that are stored, with their ends cut off. -/
def cutWords (cmd : CString) : List (List UInt8) := ((lineWords cmd).map (·.take 31)).take 8

theorem cutWords_length (cmd : CString) : (cutWords cmd).length = min (lineWords cmd).length 8 := by
  rw [cutWords, List.length_take, List.length_map, Nat.min_comm]

theorem cutWords_getD (cmd : CString) {i : ℕ} (hi : i < (cutWords cmd).length) :
    (cutWords cmd).getD i [] = ((lineWords cmd).getD i []).take 31 := by
  have hi' : i < (lineWords cmd).length := by
    rw [cutWords_length] at hi
    omega
  rw [List.getD_eq_getElem _ _ hi, List.getD_eq_getElem _ _ hi']
  simp only [cutWords, List.getElem_take, List.getElem_map]

theorem splitsWords_iff_holds (cmd : CString) (args₀ : Args) :
    SplitsWords cmd args₀ ↔
      ∃ args, splitArgsInto cmd args₀ = .ok ((cutWords cmd).length, args) ∧ HoldsTexts args 0 (cutWords cmd) := by
  rw [cutWords_length]
  constructor
  · rintro ⟨argc, args, he, rfl, hrows⟩
    refine ⟨args, he, fun i hi => ?_⟩
    rw [cutWords_getD cmd hi, Nat.zero_add]
    exact hrows i (cutWords_length cmd ▸ hi)
  · rintro ⟨args, he, hholds⟩
    refine ⟨_, args, he, rfl, fun i hi => ?_⟩
    have hrow := hholds i ((cutWords_length cmd).symm ▸ hi)
    rwa [cutWords_getD cmd ((cutWords_length cmd).symm ▸ hi), Nat.zero_add] at hrow

theorem zero_notMem_argTexts (cmd : CString) : ∀ text ∈ argTexts cmd.chars, 0 ∉ text := by
  intro text htext h0
  obtain ⟨w, hw, hmem⟩ := List.mem_flatMap.mp htext
  exact cmd.no_nul (mem_of_mem_words hw (mem_of_mem_pieces hmem h0))

theorem zero_notMem_cutWords (cmd : CString) : ∀ text ∈ cutWords cmd, 0 ∉ text := by
  intro text htext h0
  obtain ⟨w, hw, rfl⟩ := List.mem_map.mp (List.mem_of_mem_take htext)
  exact cmd.no_nul (mem_of_mem_words hw (List.mem_of_mem_take h0))

/-- **The arguments are the words of the line, with their ends cut off, only if `CutsWords`.** The loops always
end and stay inside the array. -/
theorem split_args_cuts_iff (cmd : CString) (args₀ : Args) :
    (∃ argc args, splitArgsInto cmd args₀ = .ok (argc, args) ∧ argc ≤ 8) ∧
      (SplitsWords cmd args₀ ↔ CutsWords 31 8 (lineWords cmd)) := by
  obtain ⟨args, he, hholds⟩ := splitArgsInto_ok cmd args₀
  refine ⟨⟨_, args, he, List.length_take_le _ _⟩, ?_⟩
  have hne : ∀ w ∈ lineWords cmd, w ≠ [] := fun w hw => ne_nil_of_mem_words hw
  rw [splitsWords_iff_holds, ← pieces_eq_cut_iff (by decide) hne]
  constructor
  · rintro ⟨args', he', hholds'⟩
    obtain ⟨hlen, rfl⟩ := Prod.mk.inj (Except.ok.inj (he.symm.trans he'))
    exact hholds.unique hholds' hlen (fun t ht => zero_notMem_argTexts cmd t (List.mem_of_mem_take ht))
      (zero_notMem_cutWords cmd)
  · intro hcut
    have htexts : (argTexts cmd.chars).take 8 = cutWords cmd := hcut
    rw [htexts] at he hholds
    exact ⟨args, he, hholds⟩

/-- The 32 letters of a second word become two arguments. -/
theorem long_word_split :
    ∃ cmd : CString, cmd.chars.length ≤ 127 ∧ ∀ args₀ : Args, ¬ SplitsWords cmd args₀ := by
  refine ⟨.ofString "echo aaaaaaaaaaaaaaaaaaaaaaaaaaaaaaaa", by decide, fun args₀ => ?_⟩
  rintro ⟨argc, args, he, hargc, -⟩
  obtain ⟨args', he', -⟩ := splitArgsInto_ok (.ofString "echo aaaaaaaaaaaaaaaaaaaaaaaaaaaaaaaa") args₀
  have hcount := (Prod.mk.inj (Except.ok.inj (he.symm.trans he'))).1
  rw [hargc] at hcount
  exact absurd hcount (by decide)

end Arguments

end RtosKernel
