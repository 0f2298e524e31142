import Mathlib.Tactic

/-!
# Tables of slots

A finite map kept in a fixed number of slots: a slot is free or holds a key with its value, and a key is
looked up in the first slot that holds it. A table is the finite map that it should be as long as no two
slots hold the same key; writing one slot then changes the map at the keys of that slot only.
-/

namespace RtosKernel.Lib

variable {κ ν : Type*} {n : ℕ}

/-- The slots: each is free or holds a key and a value. -/
abbrev SlotTable (κ ν : Type*) (n : ℕ) := Fin n → Option (κ × ν)

namespace SlotTable

variable {T : SlotTable κ ν n} {i j : Fin n} {k : κ} {v : ν} {e : Option (κ × ν)}

/-- The first free slot. -/
def free (T : SlotTable κ ν n) : Option (Fin n) := (List.finRange n).find? fun i => (T i).isNone

/-- No two slots hold the same key. -/
def Unique (T : SlotTable κ ν n) : Prop := ∀ i j k v w, T i = some (k, v) → T j = some (k, w) → i = j

theorem free_eq_none : T.free = none ↔ ∀ i, T i ≠ none := by
  simp [free, List.find?_eq_none]

theorem isNone_of_free (h : T.free = some i) : T i = none := by
  simpa using List.find?_some h

/-- A key that no other slot holds may be written into a slot. -/
theorem Unique.set (hu : T.Unique) (hk : ∀ j v, T j = some (k, v) → j = i) (w : ν) :
    Unique (Function.update T i (some (k, w))) := by
  intro a b c x y ha hb
  by_cases hai : a = i
  · by_cases hbi : b = i
    · rw [hai, hbi]
    · subst hai
      rw [Function.update_self] at ha
      rw [Function.update_of_ne hbi] at hb
      obtain ⟨rfl, -⟩ := Prod.mk.inj (Option.some.inj ha)
      exact (hk b y hb).symm
  · rw [Function.update_of_ne hai] at ha
    by_cases hbi : b = i
    · subst hbi
      rw [Function.update_self] at hb
      obtain ⟨rfl, -⟩ := Prod.mk.inj (Option.some.inj hb)
      exact hk a x ha
    · rw [Function.update_of_ne hbi] at hb
      exact hu a b c x y ha hb

theorem Unique.erase (hu : T.Unique) (i : Fin n) : Unique (Function.update T i none) := by
  have hold : ∀ a c x, Function.update T i none a = some (c, x) → T a = some (c, x) := by
    intro a c x ha
    by_cases hai : a = i
    · rw [hai, Function.update_self] at ha
      cases ha
    · rwa [Function.update_of_ne hai] at ha
  intro a b c x y ha hb
  exact hu a b c x y (hold a c x ha) (hold b c y hb)

/-- A key that another slot holds already is then held twice. -/
theorem not_unique_set (hj : T j = some (k, v)) (hij : j ≠ i) (w : ν) :
    ¬ Unique (Function.update T i (some (k, w))) := by
  intro hu
  refine hij (hu j i k v w ?_ (Function.update_self ..))
  rw [Function.update_of_ne hij, hj]

section Find

variable [DecidableEq κ]

/-- The first slot that holds the key. -/
def find (T : SlotTable κ ν n) (k : κ) : Option (Fin n) :=
  (List.finRange n).find? fun i => (T i).any fun e => e.1 = k

/-- The slot and the value of a key. -/
def lookup (T : SlotTable κ ν n) (k : κ) : Option (Fin n × ν) :=
  (T.find k).bind fun i => (T i).map fun e => (i, e.2)

theorem find_eq_none : T.find k = none ↔ ∀ i v, T i ≠ some (k, v) := by
  simp only [find, List.find?_eq_none, List.mem_finRange, true_imp_iff, Option.any_eq_true,
    decide_eq_true_eq, not_exists, not_and]
  constructor
  · intro h i v hi
    exact h i (k, v) hi rfl
  · rintro h i ⟨k', v⟩ hi rfl
    exact h i v hi

theorem holds_of_find (h : T.find k = some i) : ∃ v, T i = some (k, v) := by
  have hany := List.find?_some h
  simp only [Option.any_eq_true, decide_eq_true_eq] at hany
  obtain ⟨⟨k', v⟩, hi, hk⟩ := hany
  exact ⟨v, by rw [hi, ← hk]⟩

theorem Unique.find_eq (hu : T.Unique) (h : T i = some (k, v)) : T.find k = some i := by
  cases hf : T.find k with
  | none => exact absurd h (find_eq_none.mp hf i v)
  | some j =>
    obtain ⟨w, hj⟩ := holds_of_find hf
    rw [hu i j k v w h hj]

/-- Writing a slot that holds the key neither before nor after does not change the lookup of the key. -/
theorem lookup_update (hT : ∀ v, T i ≠ some (k, v)) (he : ∀ v, e ≠ some (k, v)) :
    lookup (Function.update T i e) k = T.lookup k := by
  have hany : ∀ x : Option (κ × ν), (∀ v, x ≠ some (k, v)) → x.any (fun e => e.1 = k) = false := by
    intro x hx
    cases x with
    | none => rfl
    | some e =>
      have hk : e.1 ≠ k := fun hk => hx e.2 (by rw [← hk])
      simpa using hk
  have hfind : find (Function.update T i e) k = T.find k := by
    unfold find
    congr 1
    funext j
    by_cases hj : j = i
    · subst hj
      rw [Function.update_self, hany e he, hany (T j) hT]
    · rw [Function.update_of_ne hj]
  unfold lookup
  rw [hfind]
  cases hf : T.find k with
  | none => rfl
  | some j =>
    obtain ⟨v, hj⟩ := holds_of_find hf
    have hne : j ≠ i := by
      rintro rfl
      exact hT v hj
    rw [Option.bind_some, Option.bind_some, Function.update_of_ne hne]

theorem Unique.lookup_eq (hu : T.Unique) (h : T i = some (k, v)) : T.lookup k = some (i, v) := by
  unfold lookup
  rw [hu.find_eq h, Option.bind_some, h]
  rfl

/-- The key of an erased slot is gone. -/
theorem Unique.find_erase (hu : T.Unique) (h : T i = some (k, v)) :
    find (Function.update T i none) k = none := by
  refine find_eq_none.mpr fun j w hj => ?_
  by_cases hji : j = i
  · rw [hji, Function.update_self] at hj
    cases hj
  · rw [Function.update_of_ne hji] at hj
    exact hji (hu j i k w v hj h)

/-- As many keys at most are there as slots. -/
theorem length_le (ks : List κ) (hnd : ks.Nodup) (hks : ∀ k ∈ ks, T.find k ≠ none) : ks.length ≤ n := by
  have hsome : ∀ k ∈ ks, ∃ i v, T.find k = some i ∧ T i = some (k, v) := by
    intro k hk
    obtain ⟨i, hi⟩ := Option.ne_none_iff_exists'.mp (hks k hk)
    obtain ⟨v, hv⟩ := holds_of_find hi
    exact ⟨i, v, hi, hv⟩
  have hmap : (ks.map T.find).Nodup := by
    refine hnd.map_on fun a ha b hb hab => ?_
    obtain ⟨i, v, hi, hiv⟩ := hsome a ha
    obtain ⟨j, w, hj, hjw⟩ := hsome b hb
    obtain rfl : i = j := Option.some.inj (by rw [← hi, ← hj, hab])
    rw [hiv] at hjw
    exact (Prod.mk.inj (Option.some.inj hjw)).1
  have hsub : ks.map T.find ⊆ (List.finRange n).map some := by
    intro x hx
    obtain ⟨k, hk, rfl⟩ := List.mem_map.mp hx
    obtain ⟨i, v, hi, -⟩ := hsome k hk
    exact List.mem_map.mpr ⟨i, List.mem_finRange i, hi.symm⟩
  have hlen := (hmap.subperm hsub).length_le
  simpa using hlen

end Find

end SlotTable

end RtosKernel.Lib
