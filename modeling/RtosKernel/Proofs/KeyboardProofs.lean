import RtosKernel.Keyboard

/-!
# Proofs: decoding scancodes

`extended_mode` is cleared by every code but those of Ctrl, for which `keyboard_callback` returns before it
looks at the flag. So the prefix of a right Ctrl key is still there for the next code. It makes a difference
only for the codes that act with the prefix and do nothing without it (`HasStray`), and then the stream has
one action more than its units have.
-/

namespace RtosKernel

/-! ## One code -/

section Code

variable {c e : Bool} {u : KeyUnit}

theorem ctrlAfter_singleton : ctrlAfter c [u] =
    if u.code = scancodeLeftCtrl then true else if u.code = scancodeLeftCtrlRelease then false else c := rfl

/-- The modifiers after a code: Ctrl is followed, and the prefix is forgotten except by a Ctrl code. -/
theorem keyboardCallback_state : (keyboardCallback u.code ⟨c, e⟩).2 =
    { ctrlPressed := ctrlAfter c [u], extendedMode := if u.IsCtrl then e else false } := by
  unfold keyboardCallback
  rw [if_neg u.code_ne, ctrlAfter_singleton]
  by_cases h1 : u.code = scancodeLeftCtrl
  · have hctrl : u.IsCtrl := Or.inl h1
    rw [if_pos h1, if_pos h1, if_pos hctrl]
  · rw [if_neg h1, if_neg h1]
    by_cases h2 : u.code = scancodeLeftCtrlRelease
    · have hctrl : u.IsCtrl := Or.inr h2
      rw [if_pos h2, if_pos h2, if_pos hctrl]
    · have hctrl : ¬ u.IsCtrl := not_or.mpr ⟨h1, h2⟩
      rw [if_neg h2, if_neg h2, if_neg hctrl]
      by_cases hrelease : u.code &&& 0x80 ≠ 0
      · rw [if_pos hrelease]
      · rw [if_neg hrelease]
        cases e with
        | false => rfl
        | true => rfl

/-- A code that acts only with the prefix. -/
theorem keyboardCallback_acts (h : ActsExtended c u.code) :
    (keyboardCallback u.code ⟨c, false⟩).1 = [] ∧ (keyboardCallback u.code ⟨c, true⟩).1.length = 1 := by
  rcases h with h | h | h | h | ⟨rfl, h | h⟩ <;> rw [h]
  · exact ⟨by revert c; decide, by revert c; decide⟩
  · exact ⟨by revert c; decide, by revert c; decide⟩
  · exact ⟨by revert c; decide, by revert c; decide⟩
  · exact ⟨by revert c; decide, by revert c; decide⟩
  · exact ⟨by decide, by decide⟩
  · exact ⟨by decide, by decide⟩

/-- Any other code does the same with the prefix and without it. -/
theorem keyboardCallback_same (h : ¬ ActsExtended c u.code) :
    (keyboardCallback u.code ⟨c, true⟩).1 = (keyboardCallback u.code ⟨c, false⟩).1 := by
  unfold ActsExtended at h
  push Not at h
  obtain ⟨hup, hdown, hUp, hDown, hctrl⟩ := h
  have hext : extendedKey c u.code = plainKey u.code := by
    unfold extendedKey
    rw [if_neg hup, if_neg hdown]
    by_cases hhome : u.code = scancodeHome
    · have hc : c = false := by
        cases c with
        | false => rfl
        | true => exact absurd hhome (hctrl rfl).1
      rw [if_pos hhome, hhome, hc]
      decide
    · rw [if_neg hhome]
      by_cases hend : u.code = scancodeEnd
      · have hc : c = false := by
          cases c with
          | false => rfl
          | true => exact absurd hend (hctrl rfl).2
        rw [if_pos hend, hend, hc]
        decide
      · rw [if_neg hend, if_neg hUp, if_neg hDown]
  unfold keyboardCallback
  rw [if_neg u.code_ne, if_neg u.code_ne]
  by_cases h1 : u.code = scancodeLeftCtrl
  · rw [if_pos h1, if_pos h1]
  · rw [if_neg h1, if_neg h1]
    by_cases h2 : u.code = scancodeLeftCtrlRelease
    · rw [if_pos h2, if_pos h2]
    · rw [if_neg h2, if_neg h2]
      by_cases hrelease : u.code &&& 0x80 ≠ 0
      · rw [if_pos hrelease, if_pos hrelease]
      · rw [if_neg hrelease, if_neg hrelease]
        exact hext

end Code

/-! ## A stream -/

/-- The actions of the units as the code makes them: with a prefix that is still there from before if `leaked`
holds. -/
def leakRun (ctrl leaked : Bool) : List KeyUnit → List KeyAction
  | [] => []
  | u :: us =>
    (keyboardCallback u.code ⟨ctrl, leaked || u.extended⟩).1 ++
      leakRun (ctrlAfter ctrl [u]) (if u.IsCtrl then leaked || u.extended else false) us

/-- Somewhere in the stream a prefix that is still there makes a difference. -/
def Leaks (ctrl leaked : Bool) : List KeyUnit → Prop
  | [] => False
  | u :: us =>
    (leaked = true ∧ u.extended = false ∧ ActsExtended ctrl u.code) ∨
      Leaks (ctrlAfter ctrl [u]) (if u.IsCtrl then leaked || u.extended else false) us

section Stream

variable {c l e : Bool} {us : List KeyUnit}

theorem keyboardRun_units (bytes : List UInt8) :
    (keyboardRun bytes ⟨c, l || e⟩).1 = leakRun c l (units e bytes) := by
  induction bytes generalizing c l e with
  | nil => rfl
  | cons b bytes ih =>
    by_cases hb : b = scancodeExtended
    · have hstep : keyboardCallback b ⟨c, l || e⟩ = ([], ⟨c, l || true⟩) := by
        rw [keyboardCallback, if_pos hb, Bool.or_true]
      rw [keyboardRun, hstep, units, dif_pos hb, ← ih]
      rfl
    · have hstate := keyboardCallback_state (c := c) (e := l || e) (u := ⟨e, b, hb⟩)
      rw [keyboardRun, units, dif_neg hb, leakRun, hstate, ← ih, Bool.or_false]

/-- A unit on its own is the code with the prefix that belongs to it. -/
theorem keyboardRun_bytes (u : KeyUnit) :
    keyboardRun u.bytes ⟨c, false⟩ = keyboardCallback u.code ⟨c, u.extended⟩ := by
  unfold KeyUnit.bytes
  cases u.extended with
  | false =>
    simp only [Bool.false_eq_true, if_false, keyboardRun, List.append_nil]
  | true =>
    have hprefix : keyboardCallback scancodeExtended ⟨c, false⟩ = ([], ⟨c, true⟩) := rfl
    simp only [if_true, keyboardRun, hprefix, List.nil_append, List.append_nil]

theorem decodeUnits_cons (u : KeyUnit) : decodeUnits c (u :: us) =
    (keyboardCallback u.code ⟨c, u.extended⟩).1 ++ decodeUnits (ctrlAfter c [u]) us := by
  rw [decodeUnits, keyboardRun_bytes, keyboardCallback_state]

/-- The code makes the actions of the units, and one more for each difference. -/
theorem leakRun_cases (us : List KeyUnit) :
    (¬ Leaks c l us ∧ leakRun c l us = decodeUnits c us) ∨
      (Leaks c l us ∧ (decodeUnits c us).length < (leakRun c l us).length) := by
  induction us generalizing c l with
  | nil => exact Or.inl ⟨id, rfl⟩
  | cons u us ih =>
    have ih' := @ih (ctrlAfter c [u]) (if u.IsCtrl then l || u.extended else false)
    rw [decodeUnits_cons, leakRun, Leaks]
    by_cases hhead : l = true ∧ u.extended = false ∧ ActsExtended c u.code
    · -- the prefix from before makes an action where the unit has none
      obtain ⟨rfl, hext, hacts⟩ := hhead
      obtain ⟨hnone, hone⟩ := keyboardCallback_acts hacts
      refine Or.inr ⟨Or.inl ⟨rfl, hext, hacts⟩, ?_⟩
      rw [hext] at ih' ⊢
      rw [hnone, List.nil_append, List.length_append, Bool.true_or, hone]
      rcases ih' with ⟨-, he⟩ | ⟨-, hlt⟩
      · rw [Bool.or_false] at he
        rw [← he]
        omega
      · rw [Bool.or_false] at hlt
        omega
    · have hsame : (keyboardCallback u.code ⟨c, l || u.extended⟩).1 =
          (keyboardCallback u.code ⟨c, u.extended⟩).1 := by
        cases hl : l with
        | false => rw [Bool.false_or]
        | true =>
          cases hu : u.extended with
          | true => rfl
          | false =>
            have hnot : ¬ ActsExtended c u.code := fun h => hhead ⟨hl, hu, h⟩
            exact keyboardCallback_same hnot
      rw [hsame]
      rcases ih' with ⟨hno, he⟩ | ⟨hyes, hlt⟩
      · exact Or.inl ⟨not_or.mpr ⟨hhead, hno⟩, by rw [he]⟩
      · refine Or.inr ⟨Or.inr hyes, ?_⟩
        rw [List.length_append, List.length_append]
        omega

theorem leadsToStray_cons (u : KeyUnit) : LeadsToStray c (u :: us) ↔
    u.extended = false ∧ (ActsExtended c u.code ∨ (u.IsCtrl ∧ LeadsToStray (ctrlAfter c [u]) us)) := by
  constructor
  · rintro ⟨mid, v, post, he, hmid, hv, hacts⟩
    cases mid with
    | nil =>
      obtain ⟨rfl, rfl⟩ := List.cons.inj he
      exact ⟨hv, Or.inl hacts⟩
    | cons m mid =>
      obtain ⟨rfl, rfl⟩ := List.cons.inj he
      obtain ⟨hm, hmid⟩ := List.forall_mem_cons.mp hmid
      exact ⟨hm.1, Or.inr ⟨hm.2, mid, v, post, rfl, hmid, hv, hacts⟩⟩
  · rintro ⟨hu, hacts | ⟨hctrl, mid, v, post, rfl, hmid, hv, hacts⟩⟩
    · exact ⟨[], u, us, rfl, by simp, hu, hacts⟩
    · exact ⟨u :: mid, v, post, rfl, List.forall_mem_cons.mpr ⟨⟨hu, hctrl⟩, hmid⟩, hv, hacts⟩

theorem hasStray_cons (u : KeyUnit) : HasStray c (u :: us) ↔
    (u.extended = true ∧ u.IsCtrl ∧ LeadsToStray (ctrlAfter c [u]) us) ∨ HasStray (ctrlAfter c [u]) us := by
  constructor
  · rintro ⟨pre, v, post, he, hv, hctrl, hleads⟩
    cases pre with
    | nil =>
      obtain ⟨rfl, rfl⟩ := List.cons.inj he
      exact Or.inl ⟨hv, hctrl, hleads⟩
    | cons w pre =>
      obtain ⟨rfl, rfl⟩ := List.cons.inj he
      exact Or.inr ⟨pre, v, post, rfl, hv, hctrl, hleads⟩
  · rintro (⟨hu, hctrl, hleads⟩ | ⟨pre, v, post, rfl, hv, hctrl, hleads⟩)
    · exact ⟨[], u, us, rfl, hu, hctrl, hleads⟩
    · exact ⟨u :: pre, v, post, rfl, hv, hctrl, hleads⟩

/-- Where the prefix makes a difference. -/
theorem leaks_iff : Leaks c l us ↔ (l = true ∧ LeadsToStray c us) ∨ HasStray c us := by
  induction us generalizing c l with
  | nil =>
    refine ⟨False.elim, ?_⟩
    rintro (⟨-, mid, v, post, he, -⟩ | ⟨pre, v, post, he, -⟩)
    · exact absurd he (by simp)
    · exact absurd he (by simp)
  | cons u us ih =>
    rw [Leaks, ih, leadsToStray_cons, hasStray_cons]
    by_cases hctrl : u.IsCtrl
    · rw [if_pos hctrl, Bool.or_eq_true]
      cases u.extended <;> simp only [hctrl] <;> tauto
    · rw [if_neg hctrl]
      simp only [hctrl, Bool.false_eq_true]
      tauto

/-- **The actions of a stream of scancodes are those of its units, each one on its own, exactly when no Ctrl
code with the prefix is followed by a code without one that acts only with it.** -/
theorem keyboard_decodes_units_iff (bytes : List UInt8) :
    (keyboardRun bytes initKeyboard).1 = decodeUnits false (units false bytes) ↔
      ¬ HasStray false (units false bytes) := by
  have hrun : (keyboardRun bytes initKeyboard).1 = leakRun false false (units false bytes) :=
    keyboardRun_units (c := false) (l := false) (e := false) bytes
  have hleaks : Leaks false false (units false bytes) ↔ HasStray false (units false bytes) := by
    rw [leaks_iff]
    exact or_iff_right fun h => absurd h.1 Bool.false_ne_true
  rw [hrun, ← hleaks]
  rcases leakRun_cases (c := false) (l := false) (units false bytes) with ⟨hno, he⟩ | ⟨hyes, hlt⟩
  · exact iff_of_true he hno
  · refine iff_of_false (fun he => ?_) (fun h => h hyes)
    rw [he] at hlt
    exact absurd hlt (lt_irrefl _)

/-- Right Ctrl is pressed and then 8 on the keypad: the keypad code is taken for the up arrow. -/
theorem keypad_taken_for_arrow :
    (keyboardRun [0xE0, 0x1D, 0x48] initKeyboard).1 ≠ decodeUnits false (units false [0xE0, 0x1D, 0x48]) := by
  decide

end Stream

end RtosKernel
