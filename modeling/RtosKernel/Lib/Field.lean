import Mathlib.Tactic

/-!
# Right-aligned fields

A text of varying length that is drawn at the right end of a line, over what is there (`overlay`). The rest of
the line is to read as padding, as `List.leftpad` has it. Nothing is erased, so this is the case exactly as long
as no text is shorter than the one it is drawn over (`overlay_leftpad_iff`).
-/

namespace RtosKernel.Lib

variable {α : Type*}

/-- The line after the text is drawn at its right end. -/
def overlay (line text : List α) : List α := line.take (line.length - text.length) ++ text

/-- The beginning of a padded line is padding alone if and only if the text begins behind it. -/
theorem take_leftpad_eq_replicate {pad : α} {text : List α} (hpad : pad ∉ text) {w n : ℕ} (hn : n ≤ w)
    (hw : text.length ≤ w) :
    (text.leftpad w pad).take n = List.replicate n pad ↔ n + text.length ≤ w := by
  constructor
  · intro h
    by_contra hlong
    -- the first character of the text is among the first `n` of the line
    have hlt : w - text.length < n := by omega
    have hpos : 0 < text.length := by omega
    have hfirst := congrArg (fun l => l[w - text.length]?) h
    simp only [List.leftpad, List.getElem?_take_of_lt hlt, List.getElem?_replicate, hlt, if_true] at hfirst
    rw [List.getElem?_append_right (by simp), List.length_replicate, Nat.sub_self] at hfirst
    exact hpad (List.mem_of_getElem? hfirst)
  · intro h
    rw [List.leftpad, List.take_append_of_le_length (by rw [List.length_replicate]; omega), List.take_replicate,
      Nat.min_eq_left (by omega)]

/-- The line reads as the new text alone if and only if the new text covers the old one. -/
theorem overlay_leftpad_iff {pad : α} {old new : List α} (hpad : pad ∉ old) {w : ℕ} (hold : old.length ≤ w)
    (hnew : new.length ≤ w) :
    overlay (old.leftpad w pad) new = new.leftpad w pad ↔ old.length ≤ new.length := by
  have hlen : (old.leftpad w pad).length = w := by
    rw [List.leftpad, List.length_append, List.length_replicate]
    omega
  have hread : new.leftpad w pad = List.replicate (w - new.length) pad ++ new := rfl
  have hbegin := take_leftpad_eq_replicate hpad (Nat.sub_le w new.length) hold
  rw [overlay, hlen, hread, List.append_cancel_right_eq, hbegin]
  omega

end RtosKernel.Lib
