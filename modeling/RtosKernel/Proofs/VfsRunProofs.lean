import RtosKernel.Proofs.VfsProofs

/-!
# Proofs: runs of the file system

After `vfs_init` and any `vfs_touch`, `vfs_write` and `vfs_remove` calls the slots are a finite map of
capacity 10 from names to contents. `vfs_create` is the one call that does not look whether the name is
there already: with it, the names stay unique exactly as long as no such call stores a name a second time.
-/

namespace RtosKernel

open Lib

/-- The files in use are as they should be, and no two have the same name. -/
structure VfsGood (fs : Vfs) : Prop where
  inv : VfsInv fs
  unique : (vfsTable fs).Unique

/-- The calls that store a file refuse a name or a content that is too long, and a new name if there is
no room. -/
def StoreRefused (name content : CString) (fs : Vfs) : Prop :=
  32 ≤ strlen name ∨ 256 ≤ strlen content ∨ ∀ i, (fs i).used = true

section Calls

variable {fs fs' : Vfs} {i : Fin maxFiles} {name content : CString}

theorem unique_iff : (vfsTable fs).Unique ↔
    ∀ i j, (fs i).used = true → (fs j).used = true → (fs i).nameString = (fs j).nameString → i = j := by
  constructor
  · intro h i j hi hj hn
    refine h i j (fs i).nameString ((fs i).contentString, (fs i).size) ((fs j).contentString, (fs j).size) ?_ ?_
    · simp [vfsTable, fileEntry, hi]
    · simp [vfsTable, fileEntry, hj, hn]
  · intro h i j k v w hi hj
    simp only [vfsTable, fileEntry, Option.ite_none_right_eq_some, Option.some.injEq, Prod.mk.injEq] at hi hj
    exact h i j hi.1 hj.1 (hi.2.1.trans hj.2.1.symm)

theorem VfsInv.open_eq_none (h : VfsInv fs) :
    vfsOpen name fs = none ↔ ∀ i v, vfsTable fs i ≠ some (name.chars, v) := by
  rw [h.open_eq, SlotTable.find_eq_none]

theorem sees_eq_none : vfsSees name fs = none ↔ vfsOpen name fs = none := by
  rw [vfsSees, Option.map_eq_none_iff]

/-- `vfs_create` either refuses and leaves the table as it is, or stores the file in a free slot. -/
theorem vfsCreate_cases (h : VfsInv fs) (name content : CString) :
    (StoreRefused name content fs ∧ ∃ fs', vfsCreate name content fs = (-1, fs') ∧ VfsInv fs' ∧
      vfsTable fs' = vfsTable fs) ∨
    (¬ StoreRefused name content fs ∧ ∃ i fs', vfsCreate name content fs = (0, fs') ∧ VfsInv fs' ∧
      vfsTable fs i = none ∧
      vfsTable fs' = Function.update (vfsTable fs) i (some (name.chars, content.chars, strlen content))) := by
  cases hfree : (vfsTable fs).free with
  | none => exact .inl ⟨.inr (.inr (free_eq_none_iff.mp hfree)), fs, vfsCreate_full hfree, h, rfl⟩
  | some i =>
    have hroom : ¬ ∀ j, (fs j).used = true := fun hall => by simp [free_eq_none_iff.mpr hall] at hfree
    by_cases hlen : 32 ≤ strlen name ∨ 256 ≤ strlen content
    · exact .inl ⟨by tauto, vfsCreate_refuses h hfree hlen⟩
    · obtain ⟨hname, hcontent⟩ := not_or.mp hlen
      obtain ⟨fs', hc, hinv, htab⟩ := vfsCreate_stores h hfree (not_le.mp hname) (not_le.mp hcontent)
      refine .inr ⟨?_, i, fs', hc, hinv, SlotTable.isNone_of_free hfree, htab⟩
      unfold StoreRefused
      tauto

/-- What a caller sees after a file was stored in a slot that was free or had its name. -/
theorem sees_stored (h : VfsInv fs) (h' : VfsGood fs') (hi : ∀ k v, vfsTable fs i = some (k, v) → k = name.chars)
    (htab : vfsTable fs' =
      Function.update (vfsTable fs) i (some (name.chars, content.chars, strlen content))) :
    vfsSees name fs' = some (i, content.chars, strlen content) ∧
      ∀ other, other ≠ name → vfsSees other fs' = vfsSees other fs := by
  constructor
  · rw [h'.inv.sees_eq]
    refine h'.unique.lookup_eq ?_
    rw [htab, Function.update_self]
  · intro other hne
    have hchars : name.chars ≠ other.chars := fun e => hne (CString.ext e.symm)
    rw [h'.inv.sees_eq, h.sees_eq, htab]
    refine SlotTable.lookup_update ?_ ?_
    · intro v hv
      exact hchars (hi _ v hv).symm
    · intro v hv
      exact hchars (Prod.mk.inj (Option.some.inj hv)).1

/-- A call that leaves the table as it is changes nothing that a caller sees. -/
theorem sees_same (h : VfsInv fs) (h' : VfsInv fs') (htab : vfsTable fs' = vfsTable fs) (name : CString) :
    vfsSees name fs' = vfsSees name fs := by
  rw [h'.sees_eq, h.sees_eq, htab]

/-- `vfs_write` on files with unique names. -/
theorem vfsWrite_cases (h : VfsGood fs) (name content : CString) :
    ((256 ≤ strlen content ∨ vfsOpen name fs = none ∧ StoreRefused name content fs) ∧
      ∃ fs', vfsWrite name content fs = (-1, fs') ∧ VfsGood fs' ∧ vfsTable fs' = vfsTable fs) ∨
    (¬ (256 ≤ strlen content ∨ vfsOpen name fs = none ∧ StoreRefused name content fs) ∧
      ∃ i fs', vfsWrite name content fs = (0, fs') ∧ VfsGood fs' ∧
        vfsSees name fs' = some (i, content.chars, strlen content) ∧
        ∀ other, other ≠ name → vfsSees other fs' = vfsSees other fs) := by
  cases hopen : vfsOpen name fs with
  | none =>
    have habs := h.inv.open_eq_none.mp hopen
    have hcreate : vfsWrite name content fs = vfsCreate name content fs := by rw [vfsWrite, hopen]
    rw [hcreate]
    obtain ⟨hr, fs', hc, hinv, htab⟩ | ⟨hr, i, fs', hc, hinv, hi, htab⟩ := vfsCreate_cases h.inv name content
    · refine .inl ⟨.inr ⟨rfl, hr⟩, fs', hc, ⟨hinv, ?_⟩, htab⟩
      rw [htab]
      exact h.unique
    · have hgood : VfsGood fs' := by
        refine ⟨hinv, ?_⟩
        rw [htab]
        exact h.unique.set (fun j v hj => absurd hj (habs j v)) _
      refine .inr ⟨?_, i, fs', hc, hgood, sees_stored h.inv hgood ?_ htab⟩
      · unfold StoreRefused at hr ⊢
        tauto
      · intro k v hv
        rw [hi] at hv
        cases hv
  | some i =>
    by_cases hcontent : 256 ≤ strlen content
    · exact .inl ⟨.inl hcontent, fs, vfsWrite_refuses hopen hcontent, h, rfl⟩
    · obtain ⟨fs', hw, hinv, htab⟩ := vfsWrite_stores h.inv hopen (not_le.mp hcontent)
      rw [h.inv.open_eq] at hopen
      obtain ⟨v, hv⟩ := SlotTable.holds_of_find hopen
      have hgood : VfsGood fs' := by
        refine ⟨hinv, ?_⟩
        rw [htab]
        exact h.unique.set (fun j w hj => h.unique j i _ w v hj hv) _
      refine .inr ⟨by simp [hcontent], i, fs', hw, hgood, sees_stored h.inv hgood ?_ htab⟩
      intro k w hw'
      rw [hv] at hw'
      exact (Prod.mk.inj (Option.some.inj hw')).1.symm

/-- `vfs_touch` of a name that is not there is `vfs_write` of an empty content. -/
theorem vfsTouch_absent (hopen : vfsOpen name fs = none) :
    vfsTouch name fs = vfsWrite name (.ofString "") fs := by
  rw [vfsTouch, vfsWrite, hopen, if_neg (by simp)]

theorem vfsTouch_present (hopen : vfsOpen name fs ≠ none) : vfsTouch name fs = (0, fs) := by
  rw [vfsTouch, if_pos hopen]

/-- `vfs_remove` on files with unique names. -/
theorem vfsRemove_cases (h : VfsGood fs) (name : CString) :
    (vfsOpen name fs = none ∧ vfsRemove name fs = (-1, fs)) ∨
    (vfsOpen name fs ≠ none ∧ ∃ fs', vfsRemove name fs = (0, fs') ∧ VfsGood fs' ∧
      vfsOpen name fs' = none ∧ name.chars ∉ vfsNames fs' ∧
      ∀ other, other ≠ name → vfsSees other fs' = vfsSees other fs) := by
  cases hopen : vfsOpen name fs with
  | none => exact .inl ⟨rfl, by rw [vfsRemove, hopen]⟩
  | some i =>
    obtain ⟨fs', hr, hinv, htab⟩ := vfsRemove_frees h.inv hopen
    rw [h.inv.open_eq] at hopen
    obtain ⟨v, hv⟩ := SlotTable.holds_of_find hopen
    have hgone : (vfsTable fs').find name.chars = none := by
      rw [htab]
      exact h.unique.find_erase hv
    refine .inr ⟨by simp, fs', hr, ⟨hinv, ?_⟩, ?_, ?_, ?_⟩
    · rw [htab]
      exact h.unique.erase i
    · rw [hinv.open_eq, hgone]
    · rw [vfsNames_eq]
      intro hmem
      obtain ⟨j, -, hj⟩ := List.mem_filterMap.mp hmem
      obtain ⟨⟨k, w⟩, hjw, rfl⟩ := Option.map_eq_some_iff.mp hj
      exact SlotTable.find_eq_none.mp hgone j w hjw
    · intro other hne
      have hchars : other.chars ≠ name.chars := fun e => hne (CString.ext e)
      rw [hinv.sees_eq, h.inv.sees_eq, htab]
      refine SlotTable.lookup_update ?_ (by simp)
      intro w hw
      rw [hv] at hw
      exact hchars (Prod.mk.inj (Option.some.inj hw)).1.symm

/-- Every one of these calls keeps the names unique; one that does not return 0 returns -1 and leaves the
table as it is. -/
theorem vfsCall_good (h : VfsGood fs) (c : VfsCall) :
    VfsGood (vfsCall fs c).2 ∧
      ((vfsCall fs c).1 = 0 ∨ (vfsCall fs c).1 = -1 ∧ vfsTable (vfsCall fs c).2 = vfsTable fs) := by
  have hwrite : ∀ name content, VfsGood (vfsWrite name content fs).2 ∧ ((vfsWrite name content fs).1 = 0 ∨
      (vfsWrite name content fs).1 = -1 ∧ vfsTable (vfsWrite name content fs).2 = vfsTable fs) := by
    intro name content
    obtain ⟨-, fs', hw, hgood, htab⟩ | ⟨-, i, fs', hw, hgood, -, -⟩ := vfsWrite_cases h name content
    · rw [hw]
      exact ⟨hgood, .inr ⟨rfl, htab⟩⟩
    · rw [hw]
      exact ⟨hgood, .inl rfl⟩
  cases c with
  | touch name =>
    by_cases hopen : vfsOpen name fs = none
    · rw [vfsCall, vfsTouch_absent hopen]
      exact hwrite name _
    · rw [vfsCall, vfsTouch_present hopen]
      exact ⟨h, .inl rfl⟩
  | write name content => exact hwrite name content
  | remove name =>
    rw [vfsCall]
    obtain ⟨-, hr⟩ | ⟨-, fs', hr, hgood, -, -, -⟩ := vfsRemove_cases h name
    · rw [hr]
      exact ⟨h, .inr ⟨rfl, rfl⟩⟩
    · rw [hr]
      exact ⟨hgood, .inl rfl⟩

/-- A file that is not there yet may be created. -/
theorem vfsCreate_good (h : VfsGood fs) (hopen : vfsOpen name fs = none) (content : CString) :
    VfsGood (vfsCreate name content fs).2 ∧
      ∀ other, other ≠ name → vfsSees other (vfsCreate name content fs).2 = vfsSees other fs := by
  have hcreate : vfsWrite name content fs = vfsCreate name content fs := by rw [vfsWrite, hopen]
  rw [← hcreate]
  obtain ⟨-, fs', hw, hgood, htab⟩ | ⟨-, i, fs', hw, hgood, -, hothers⟩ := vfsWrite_cases h name content
  · rw [hw]
    exact ⟨hgood, fun other _ => sees_same h.inv hgood.inv htab other⟩
  · rw [hw]
    exact ⟨hgood, hothers⟩

/-- The files that `vfs_init` creates have different names. -/
theorem vfsInit_good (fs : Vfs) : VfsGood (vfsInit fs) := by
  set fs0 : Vfs := fun i => { fs i with used := false } with hfs0
  have htab : ∀ i, vfsTable fs0 i = none := fun _ => rfl
  have h0 : VfsGood fs0 := by
    refine ⟨fun i hi => absurd hi (by simp [hfs0]), fun i j k v w hi => ?_⟩
    rw [htab] at hi
    cases hi
  have hnone : ∀ name, vfsSees name fs0 = none := by
    intro name
    rw [sees_eq_none, h0.inv.open_eq_none]
    intro i v hi
    rw [htab] at hi
    cases hi
  obtain ⟨h1, hs1⟩ := vfsCreate_good h0 (sees_eq_none.mp (hnone (.ofString "readme.txt")))
    (.ofString "Bienvenue sur le RTOS x86 (v1.0) !")
  obtain ⟨h2, hs2⟩ := @vfsCreate_good _ (.ofString "kernel.info") h1
    (by rw [← sees_eq_none, hs1 _ (by decide), hnone])
    (.ofString "Architecture : i686 (x86 32-bit)\nMultitasking : Preemptif + Priorite")
  exact (@vfsCreate_good _ (.ofString "author.txt") h2
    (by rw [← sees_eq_none, hs2 _ (by decide), hs1 _ (by decide), hnone]) _).1

end Calls

/-! ## The finite map -/

/-- The laws of a finite map of capacity 10, for each call from the state `fs`. -/
structure VfsLaws (fs : Vfs) : Prop where
  unique : ∀ i j, (fs i).used = true → (fs j).used = true → (fs i).nameString = (fs j).nameString → i = j
  capacity : ∀ names : List CString, names.Nodup → (∀ name ∈ names, vfsOpen name fs ≠ none) →
    names.length ≤ 10
  written : ∀ name content, (vfsWrite name content fs).1 = 0 →
    (∃ i, vfsSees name (vfsWrite name content fs).2 = some (i, content.chars, strlen content)) ∧
    ∀ other, other ≠ name → vfsSees other (vfsWrite name content fs).2 = vfsSees other fs
  write_absent : ∀ name content, vfsOpen name fs = none →
    ((vfsWrite name content fs).1 = -1 ↔
      32 ≤ strlen name ∨ 256 ≤ strlen content ∨ ∀ i, (fs i).used = true)
  write_present : ∀ name content, vfsOpen name fs ≠ none →
    ((vfsWrite name content fs).1 = -1 ↔ 256 ≤ strlen content)
  touched : ∀ name, vfsOpen name fs = none → (vfsTouch name fs).1 = 0 →
    (∃ i, vfsSees name (vfsTouch name fs).2 = some (i, [], 0)) ∧
    ∀ other, other ≠ name → vfsSees other (vfsTouch name fs).2 = vfsSees other fs
  touch_absent : ∀ name, vfsOpen name fs = none →
    ((vfsTouch name fs).1 = -1 ↔ 32 ≤ strlen name ∨ ∀ i, (fs i).used = true)
  touch_present : ∀ name, vfsOpen name fs ≠ none → vfsTouch name fs = (0, fs)
  remove_iff : ∀ name, (vfsRemove name fs).1 = 0 ↔ vfsOpen name fs ≠ none
  removed : ∀ name, (vfsRemove name fs).1 = 0 → vfsOpen name (vfsRemove name fs).2 = none ∧
    ∀ other, other ≠ name → vfsSees other (vfsRemove name fs).2 = vfsSees other fs
  fails : ∀ c, (vfsCall fs c).1 = 0 ∨ (vfsCall fs c).1 = -1 ∧
    (∀ name, vfsSees name (vfsCall fs c).2 = vfsSees name fs) ∧ vfsList (vfsCall fs c).2 = vfsList fs

section Laws

variable {fs : Vfs}

theorem VfsGood.capacity (h : VfsGood fs) (names : List CString) (hnd : names.Nodup)
    (hopen : ∀ name ∈ names, vfsOpen name fs ≠ none) : names.length ≤ 10 := by
  have hkeys : (names.map CString.chars).Nodup := hnd.map fun a b e => CString.ext e
  have hlen := SlotTable.length_le (T := vfsTable fs) (names.map CString.chars) hkeys (by
    intro k hk
    obtain ⟨name, hn, rfl⟩ := List.mem_map.mp hk
    rw [← h.inv.open_eq]
    exact hopen name hn)
  rwa [List.length_map] at hlen

theorem VfsGood.written (h : VfsGood fs) (name content : CString) (hw : (vfsWrite name content fs).1 = 0) :
    (∃ i, vfsSees name (vfsWrite name content fs).2 = some (i, content.chars, strlen content)) ∧
      ∀ other, other ≠ name → vfsSees other (vfsWrite name content fs).2 = vfsSees other fs := by
  obtain ⟨-, fs', hc, -, -⟩ | ⟨-, i, fs', hc, -, hsees, hothers⟩ := vfsWrite_cases h name content
  · rw [hc] at hw
    cases hw
  · rw [hc]
    exact ⟨⟨i, hsees⟩, hothers⟩

theorem VfsGood.write_fails_iff (h : VfsGood fs) (name content : CString) :
    (vfsWrite name content fs).1 = -1 ↔
      256 ≤ strlen content ∨ vfsOpen name fs = none ∧ StoreRefused name content fs := by
  obtain ⟨hr, fs', hc, -, -⟩ | ⟨hr, i, fs', hc, -, -, -⟩ := vfsWrite_cases h name content
  · rw [hc]
    exact iff_of_true rfl hr
  · rw [hc]
    exact iff_of_false (by simp) hr

theorem VfsGood.laws (h : VfsGood fs) : VfsLaws fs where
  unique := unique_iff.mp h.unique
  capacity := h.capacity
  written := h.written
  write_absent name content hopen := by
    rw [h.write_fails_iff]
    unfold StoreRefused
    tauto
  write_present name content hopen := by
    rw [h.write_fails_iff]
    tauto
  touched name hopen ht := by
    rw [vfsTouch_absent hopen] at ht ⊢
    exact h.written name _ ht
  touch_absent name hopen := by
    have hlen : strlen (.ofString "") = 0 := by decide
    rw [vfsTouch_absent hopen, h.write_fails_iff]
    unfold StoreRefused
    rw [hlen]
    simp [hopen]
  touch_present name := vfsTouch_present
  remove_iff name := by
    obtain ⟨hopen, hr⟩ | ⟨hopen, fs', hr, -, -, -, -⟩ := vfsRemove_cases h name
    · rw [hr]
      exact iff_of_false (by simp) (by simp [hopen])
    · rw [hr]
      exact iff_of_true rfl hopen
  removed name h0 := by
    obtain ⟨-, hr⟩ | ⟨-, fs', hr, -, hgone, -, hothers⟩ := vfsRemove_cases h name
    · rw [hr] at h0
      cases h0
    · rw [hr]
      exact ⟨hgone, hothers⟩
  fails c := by
    obtain ⟨hgood, h0 | ⟨h1, htab⟩⟩ := vfsCall_good h c
    · exact .inl h0
    · exact .inr ⟨h1, sees_same h.inv hgood.inv htab, vfsList_congr htab⟩

end Laws

/-- **After `vfs_init` and any `vfs_touch`, `vfs_write` and `vfs_remove` calls with any strings the file
system is a finite map of capacity 10.** -/
theorem vfs_finite_map (fs : Vfs) (calls : List VfsCall) :
    VfsLaws (calls.foldl (fun fs c => (vfsCall fs c).2) (vfsInit fs)) := by
  have h : VfsGood (calls.foldl (fun fs c => (vfsCall fs c).2) (vfsInit fs)) :=
    calls.foldlRecOn _ (vfsInit_good fs) fun fs h c _ => (vfsCall_good h c).1
  exact h.laws

/-! ## Unique names -/

/-- No two files in use have the same name, and so a name that is removed is gone. -/
structure NamesUnique (fs : Vfs) : Prop where
  unique : ∀ i j, (fs i).used = true → (fs j).used = true → (fs i).nameString = (fs j).nameString → i = j
  removed : ∀ name, (vfsRemove name fs).1 = 0 →
    vfsOpen name (vfsRemove name fs).2 = none ∧ name.chars ∉ vfsNames (vfsRemove name fs).2

/-- A `vfs_create` call with a name that is there already fails: the content is too long, or there is no
room. -/
def KeepsNames (fs : Vfs) : VfsOp → Prop
  | .create name content =>
    vfsOpen name fs ≠ none → 256 ≤ strlen content ∨ ∀ i, (fs i).used = true
  | .call _ => True

section Names

variable {fs fs' : Vfs} {name content : CString}

theorem VfsGood.namesUnique (h : VfsGood fs) : NamesUnique fs := by
  refine ⟨unique_iff.mp h.unique, fun name h0 => ?_⟩
  obtain ⟨-, hr⟩ | ⟨-, fs', hr, -, hgone, hnames, -⟩ := vfsRemove_cases h name
  · rw [hr] at h0
    cases h0
  · rw [hr]
    exact ⟨hgone, hnames⟩

/-- The name of a file in use is not too long. -/
theorem VfsInv.strlen_lt (h : VfsInv fs) (hopen : vfsOpen name fs ≠ none) : strlen name < 32 := by
  obtain ⟨i, hi⟩ := Option.ne_none_iff_exists'.mp hopen
  have htest := List.find?_some hi
  simp only [decide_eq_true_eq] at htest
  obtain ⟨n, _, hn, hlen, -⟩ := h i htest.1
  obtain rfl : n = name := CString.ext ((strcmp_eq_zero_iff hn n.no_nul name.no_nul).mp htest.2)
  exact hlen

/-- `vfs_create` keeps the names unique exactly if it does not store a name that is there. -/
theorem vfsCreate_unique_iff (h : VfsGood fs) (name content : CString) :
    VfsInv (vfsCreate name content fs).2 ∧ ((vfsTable (vfsCreate name content fs).2).Unique ↔
      (vfsOpen name fs ≠ none → 256 ≤ strlen content ∨ ∀ i, (fs i).used = true)) := by
  by_cases hopen : vfsOpen name fs = none
  · obtain ⟨hgood, -⟩ := vfsCreate_good h hopen content
    exact ⟨hgood.inv, iff_of_true hgood.unique fun hn => absurd hopen hn⟩
  · have hlen := h.inv.strlen_lt hopen
    obtain ⟨hr, fs', hc, hinv, htab⟩ | ⟨hr, i, fs', hc, hinv, hi, htab⟩ := vfsCreate_cases h.inv name content
    · rw [hc]
      refine ⟨hinv, iff_of_true (htab ▸ h.unique) fun _ => hr.resolve_left (not_le.mpr hlen)⟩
    · rw [hc]
      refine ⟨hinv, iff_of_false ?_ fun hk => hr (.inr (hk hopen))⟩
      obtain ⟨j, hj⟩ := Option.ne_none_iff_exists'.mp hopen
      rw [h.inv.open_eq] at hj
      obtain ⟨v, hv⟩ := SlotTable.holds_of_find hj
      have hne : j ≠ i := by
        rintro rfl
        rw [hi] at hv
        cases hv
      rw [htab]
      exact SlotTable.not_unique_set hv hne _

end Names

/-- **After `vfs_init` and any calls of the file system, `vfs_create` included, the names are unique in
every state, and a name that is removed is gone, exactly if every `vfs_create` call with a name that is
there already fails.** -/
theorem names_unique_iff (fs : Vfs) (ops : List VfsOp) :
    Along vfsStep (vfsInit fs) NamesUnique ops ↔ AllSteps vfsStep (vfsInit fs) KeepsNames ops := by
  refine along_iff_of_spec (I := VfsGood) (vfsInit_good fs) (fun _ h => h.namesUnique) ?_ ops
  intro fs op h
  cases op with
  | create name content =>
    obtain ⟨hinv, hiff⟩ := vfsCreate_unique_iff h name content
    refine ⟨_, rfl, fun hC => ⟨hinv, hiff.mpr hC⟩, ?_⟩
    intro hP
    exact hiff.mp (unique_iff.mpr hP.unique)
  | call c => exact ⟨_, rfl, fun _ => (vfsCall_good h c).1, fun _ => trivial⟩

/-- `vfs_create` stores the name `a` twice. -/
theorem name_stored_twice :
    ¬ Along vfsStep (vfsInit zeroVfs) NamesUnique
      [.create (.ofString "a") (.ofString "1"), .create (.ofString "a") (.ofString "2")] := by
  intro h
  obtain ⟨fs, hfs, hP⟩ := h _ List.prefix_rfl
  obtain rfl := Except.ok.inj hfs
  -- the name is in slots 3 and 4, behind the files of `vfs_init`
  exact absurd (hP.unique 3 4 rfl rfl (by decide +kernel)) (by decide)

end RtosKernel
