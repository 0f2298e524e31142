import RtosKernel.Vfs
import RtosKernel.Lib.Run

/-!
# Proofs: the file system in memory

The slots are a table of names with contents (`vfsTable`), and every call is one write of that table or
none: a call that fails may have written into a slot that is not in use, which the table does not show.
From there on everything is a fact about tables.
-/

namespace RtosKernel

open Lib

/-! ## Strings -/

/-- `strcmp` is 0 exactly on the string that the array holds. -/
theorem strcmp_eq_zero_iff {buf : ℕ → UInt8} {cs ds : List UInt8} (h : HoldsString buf cs) (hc : 0 ∉ cs)
    (hd : 0 ∉ ds) : strcmp buf ds = 0 ↔ cs = ds := by
  -- the loop advances along both strings as long as they agree
  induction ds generalizing buf cs with
  | nil =>
    cases cs with
    | nil => simp [strcmp, holdsString_nil.mp h]
    | cons c cs =>
      obtain ⟨h0, -⟩ := holdsString_cons.mp h
      have hc0 : c ≠ 0 := fun e => hc (by simp [e])
      have hne : c.toNat ≠ 0 := fun e => hc0 (UInt8.toNat_inj.mp e)
      simp [strcmp, h0, hne]
  | cons d ds ih =>
    have hd0 : d ≠ 0 := fun e => hd (by simp [e])
    have hdn : d.toNat ≠ 0 := fun e => hd0 (UInt8.toNat_inj.mp e)
    cases cs with
    | nil => simp [strcmp, holdsString_nil.mp h, hdn]
    | cons c cs =>
      obtain ⟨h0, h'⟩ := holdsString_cons.mp h
      have hc0 : c ≠ 0 := fun e => hc (by simp [e])
      by_cases hcd : c = d
      · subst hcd
        have hloop := ih h' (fun hm => hc (by simp [hm])) (fun hm => hd (by simp [hm]))
        simp [strcmp, h0, hc0, hloop]
      · have hne : c.toNat ≠ d.toNat := fun e => hcd (UInt8.toNat_inj.mp e)
        have hsub : (c.toNat : ℤ) - d.toNat ≠ 0 := by omega
        simp [strcmp, h0, hcd, hsub]

theorem safeCopy_refuses {src : CString} {n : ℕ} (h : n ≤ strlen src) (dest : ℕ → UInt8) :
    safeCopy dest src n = (-1, dest) := by
  rw [safeCopy]
  exact if_pos h

/-- A string that fits is copied. -/
theorem safeCopy_copies {src : CString} {n : ℕ} (h : strlen src < n) (dest : ℕ → UInt8) :
    ∃ buf, safeCopy dest src n = (0, buf) ∧ HoldsString buf src.chars := by
  refine ⟨_, ?_, holdsString_copy dest src.chars⟩
  rw [safeCopy]
  exact if_neg (not_le.mpr h)

/-! ## The slots as a table -/

/-- A file in use: its name and its content end with a NUL inside their arrays, and its size is right. -/
def FileOk (f : VfsFile) : Prop :=
  ∃ name content : CString, HoldsString f.name name.chars ∧ strlen name < 32 ∧
    HoldsString f.content content.chars ∧ strlen content < 256 ∧ f.size = strlen content

/-- Every file in use is as it should be; nothing is known of the other slots. -/
def VfsInv (fs : Vfs) : Prop := ∀ i, (fs i).used = true → FileOk (fs i)

/-- What a slot shows to the outside. -/
def fileEntry (f : VfsFile) : Option (List UInt8 × List UInt8 × ℕ) :=
  if f.used then some (f.nameString, f.contentString, f.size) else none

/-- The names and contents in the slots. -/
def vfsTable (fs : Vfs) : SlotTable (List UInt8) (List UInt8 × ℕ) maxFiles := fun i => fileEntry (fs i)

section Table

variable {fs : Vfs} {i : Fin maxFiles} {f : VfsFile} {name content : CString}

theorem vfsTable_update (fs : Vfs) (i : Fin maxFiles) (f : VfsFile) :
    vfsTable (Function.update fs i f) = Function.update (vfsTable fs) i (fileEntry f) := by
  funext j
  by_cases hj : j = i
  · subst hj
    simp [vfsTable]
  · simp [vfsTable, hj]

theorem VfsInv.update (h : VfsInv fs) (hf : f.used = true → FileOk f) : VfsInv (Function.update fs i f) := by
  intro j hj
  by_cases hji : j = i
  · subst hji
    rw [Function.update_self] at hj ⊢
    exact hf hj
  · rw [Function.update_of_ne hji] at hj ⊢
    exact h j hj

/-- The entry of a file whose arrays hold the two strings. -/
theorem fileEntry_eq (hu : f.used = true) (hn : HoldsString f.name name.chars) (hnl : strlen name < 32)
    (hc : HoldsString f.content content.chars) (hcl : strlen content < 256) :
    fileEntry f = some (name.chars, content.chars, f.size) := by
  have hname : f.nameString = name.chars := hn.read name.no_nul hnl.le
  have hcontent : f.contentString = content.chars := hc.read content.no_nul hcl.le
  rw [fileEntry, if_pos hu, hname, hcontent]

/-- The test of `vfs_open` and `vfs_remove` in terms of the table. -/
theorem VfsInv.test_iff (h : VfsInv fs) (i : Fin maxFiles) (name : CString) :
    ((fs i).used ∧ strcmp (fs i).name name.chars = 0) ↔ ∃ v, vfsTable fs i = some (name.chars, v) := by
  by_cases hu : (fs i).used = true
  · obtain ⟨n, c, hn, hnl, hc, hcl, -⟩ := h i hu
    have he : vfsTable fs i = some (n.chars, c.chars, (fs i).size) := fileEntry_eq hu hn hnl hc hcl
    rw [strcmp_eq_zero_iff hn n.no_nul name.no_nul, he]
    simp [hu]
  · simp [vfsTable, fileEntry, hu]

theorem VfsInv.open_eq (h : VfsInv fs) (name : CString) : vfsOpen name fs = (vfsTable fs).find name.chars := by
  unfold vfsOpen SlotTable.find
  congr 1
  funext i
  rw [Bool.eq_iff_iff, decide_eq_true_iff, h.test_iff, Option.any_eq_true]
  constructor
  · rintro ⟨v, hv⟩
    exact ⟨_, hv, by simp⟩
  · rintro ⟨⟨k, v⟩, hv, hk⟩
    obtain rfl : k = name.chars := by simpa using hk
    exact ⟨v, hv⟩

theorem VfsInv.sees_eq (h : VfsInv fs) (name : CString) :
    vfsSees name fs = (vfsTable fs).lookup name.chars := by
  unfold vfsSees SlotTable.lookup
  rw [h.open_eq]
  cases hf : (vfsTable fs).find name.chars with
  | none => rfl
  | some i =>
    obtain ⟨v, hv⟩ := SlotTable.holds_of_find hf
    have hu : (fs i).used = true := by
      by_contra hu
      simp [vfsTable, fileEntry, hu] at hv
    simp [vfsTable, fileEntry, hu]

theorem vfsNames_eq (fs : Vfs) :
    vfsNames fs = (List.finRange maxFiles).filterMap fun i => (vfsTable fs i).map Prod.fst := by
  unfold vfsNames
  congr 1
  funext i
  by_cases hu : (fs i).used = true
  · simp [vfsTable, fileEntry, hu]
  · simp [vfsTable, fileEntry, hu]

/-- The output of `vfs_list` depends on the table only. -/
theorem vfsList_congr {fs' : Vfs} (h : vfsTable fs' = vfsTable fs) : vfsList fs' = vfsList fs := by
  rw [vfsList, vfsList, vfsNames_eq, vfsNames_eq, h]

theorem free_eq (fs : Vfs) :
    (List.finRange maxFiles).find? (fun i => !(fs i).used) = (vfsTable fs).free := by
  unfold SlotTable.free
  congr 1
  funext i
  by_cases hu : (fs i).used = true
  · simp [vfsTable, fileEntry, hu]
  · simp [vfsTable, fileEntry, hu]

theorem free_eq_none_iff : (vfsTable fs).free = none ↔ ∀ i, (fs i).used = true := by
  rw [SlotTable.free_eq_none]
  refine forall_congr' fun i => ?_
  by_cases hu : (fs i).used = true
  · simp [vfsTable, fileEntry, hu]
  · simp [vfsTable, fileEntry, hu]

/-! What each call does to the table. -/

theorem vfsCreate_full (hfree : (vfsTable fs).free = none) : vfsCreate name content fs = (-1, fs) := by
  rw [vfsCreate, free_eq, hfree]

/-- A string that is too long is refused, and the table does not change. -/
theorem vfsCreate_refuses (h : VfsInv fs) (hfree : (vfsTable fs).free = some i)
    (hlen : 32 ≤ strlen name ∨ 256 ≤ strlen content) :
    ∃ fs', vfsCreate name content fs = (-1, fs') ∧ VfsInv fs' ∧ vfsTable fs' = vfsTable fs := by
  have hi : fileEntry (fs i) = none := SlotTable.isNone_of_free hfree
  have hu : (fs i).used = false := by
    by_contra hu
    simp [fileEntry, hu] at hi
  -- whatever name is left in the slot, the slot stays out of use
  have hslot : ∀ n : ℕ → UInt8, VfsInv (Function.update fs i { fs i with name := n }) ∧
      vfsTable (Function.update fs i { fs i with name := n }) = vfsTable fs := by
    intro n
    refine ⟨h.update fun hn => absurd hn (by simp [hu]), ?_⟩
    have he : fileEntry { fs i with name := n } = vfsTable fs i := by simp [vfsTable, fileEntry, hu]
    rw [vfsTable_update, he, Function.update_eq_self]
  rw [vfsCreate, free_eq, hfree]
  by_cases hname : 32 ≤ strlen name
  · refine ⟨_, ?_, hslot (fs i).name⟩
    simp [maxFilename, safeCopy_refuses hname]
  · obtain ⟨n, hn, -⟩ := safeCopy_copies (not_le.mp hname) (fs i).name
    have hcontent : 256 ≤ strlen content := hlen.resolve_left hname
    refine ⟨_, ?_, hslot n⟩
    simp [maxFilename, maxFileSize, hn, safeCopy_refuses hcontent]

/-- A new file is stored in the first free slot. -/
theorem vfsCreate_stores (h : VfsInv fs) (hfree : (vfsTable fs).free = some i) (hname : strlen name < 32)
    (hcontent : strlen content < 256) :
    ∃ fs', vfsCreate name content fs = (0, fs') ∧ VfsInv fs' ∧
      vfsTable fs' = Function.update (vfsTable fs) i (some (name.chars, content.chars, strlen content)) := by
  obtain ⟨n, hn, hnh⟩ := safeCopy_copies hname (fs i).name
  obtain ⟨c, hc, hch⟩ := safeCopy_copies hcontent (fs i).content
  set f : VfsFile := { name := n, content := c, size := strlen content, used := true } with hf
  have hentry : fileEntry f = some (name.chars, content.chars, strlen content) :=
    fileEntry_eq rfl hnh hname hch hcontent
  refine ⟨Function.update fs i f, ?_, h.update fun _ => ⟨name, content, hnh, hname, hch, hcontent, rfl⟩, ?_⟩
  · rw [vfsCreate, free_eq, hfree]
    simp [maxFilename, maxFileSize, hn, hc, hf]
  · rw [vfsTable_update, hentry]

/-- A content that is too long is refused. -/
theorem vfsWrite_refuses (hopen : vfsOpen name fs = some i) (hcontent : 256 ≤ strlen content) :
    vfsWrite name content fs = (-1, fs) := by
  rw [vfsWrite, hopen]
  simp [maxFileSize, safeCopy_refuses hcontent]

/-- The content of a file is replaced in its slot. -/
theorem vfsWrite_stores (h : VfsInv fs) (hopen : vfsOpen name fs = some i) (hcontent : strlen content < 256) :
    ∃ fs', vfsWrite name content fs = (0, fs') ∧ VfsInv fs' ∧
      vfsTable fs' = Function.update (vfsTable fs) i (some (name.chars, content.chars, strlen content)) := by
  obtain ⟨c, hc, hch⟩ := safeCopy_copies hcontent (fs i).content
  have htest := List.find?_some hopen
  simp only [decide_eq_true_eq] at htest
  obtain ⟨hu, hcmp⟩ := htest
  obtain ⟨n, _, hnh, hname, -, -, -⟩ := h i hu
  obtain rfl : n = name := CString.ext ((strcmp_eq_zero_iff hnh n.no_nul name.no_nul).mp hcmp)
  set f : VfsFile := { fs i with content := c, size := strlen content } with hf
  have hentry : fileEntry f = some (n.chars, content.chars, strlen content) :=
    fileEntry_eq hu hnh hname hch hcontent
  refine ⟨Function.update fs i f, ?_, h.update fun _ => ⟨n, content, hnh, hname, hch, hcontent, rfl⟩, ?_⟩
  · rw [vfsWrite, hopen]
    simp [maxFileSize, hc, hf]
  · rw [vfsTable_update, hentry]

/-- A removed file leaves its slot free. -/
theorem vfsRemove_frees (h : VfsInv fs) (hopen : vfsOpen name fs = some i) :
    ∃ fs', vfsRemove name fs = (0, fs') ∧ VfsInv fs' ∧
      vfsTable fs' = Function.update (vfsTable fs) i none := by
  refine ⟨Function.update fs i { fs i with used := false }, ?_, h.update fun hn => absurd hn (by simp), ?_⟩
  · rw [vfsRemove, hopen]
  · rw [vfsTable_update]
    rfl

end Table

end RtosKernel
