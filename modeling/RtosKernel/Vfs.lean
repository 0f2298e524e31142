import RtosKernel.Basic
import RtosKernel.Lib.CString
import RtosKernel.Lib.SlotTable

/-!
# The file system in memory (`vfs.c`)

Ten slots for files, each with a name and a content in character arrays of fixed size. The functions
receive NUL-terminated strings of any length. What stands in the name and the content of a slot that is
not in use is arbitrary: `vfs_create` may leave a name there and then fail.
-/

namespace RtosKernel

open Lib

/-- `MAX_FILES`. -/
abbrev maxFiles : ℕ := 10

/-- `MAX_FILENAME`. -/
def maxFilename : ℕ := 32

/-- `MAX_FILE_SIZE`. -/
def maxFileSize : ℕ := 256

/-- `vfs_file_t`; the flag `used` is 0 or 1. -/
structure VfsFile where
  name : ℕ → UInt8
  content : ℕ → UInt8
  size : ℕ
  used : Bool

/-- `files`. -/
abbrev Vfs := Fin maxFiles → VfsFile

/-- `strlen(str)`. -/
def strlen (str : CString) : ℕ := str.chars.length

/-- `strcmp(s1, s2)`, with `s1` an array and `s2` the characters of a string: the loop ends at the NUL of
`s2` at the latest. -/
def strcmp (s1 : ℕ → UInt8) : List UInt8 → ℤ
  | [] => (s1 0).toNat
  | c :: s2 =>
    if s1 0 ≠ 0 ∧ s1 0 = c then strcmp (fun i => s1 (i + 1)) s2 else (s1 0).toNat - (c.toNat : ℤ)

/-- `safe_copy(dest, src, max_len)`: the return value and the array. -/
def safeCopy (dest : ℕ → UInt8) (src : CString) (maxLen : ℕ) : ℤ × (ℕ → UInt8) :=
  let len := strlen src
  if len ≥ maxLen then (-1, dest)
  else (0, Function.update (copyChars (fun i => src.chars.getD i 0) len dest) len 0)

/-- `vfs_create(name, content)`. Whether another file has the name is not asked. -/
def vfsCreate (name content : CString) (fs : Vfs) : ℤ × Vfs :=
  match (List.finRange maxFiles).find? fun i => !(fs i).used with
  | none => (-1, fs)
  | some i =>
    let (e, n) := safeCopy (fs i).name name maxFilename
    let fs1 := Function.update fs i { fs i with name := n }
    if e < 0 then (-1, fs1)
    else
      let (e, c) := safeCopy (fs1 i).content content maxFileSize
      let fs2 := Function.update fs1 i { fs1 i with content := c }
      if e < 0 then (-1, fs2)
      else (0, Function.update fs2 i { fs2 i with size := strlen content, used := true })

/-- `vfs_init()`, with its three files. -/
def vfsInit (fs : Vfs) : Vfs :=
  let fs := fun i => { fs i with used := false }
  let fs := (vfsCreate (.ofString "readme.txt") (.ofString "Bienvenue sur le RTOS x86 (v1.0) !") fs).2
  let fs := (vfsCreate (.ofString "kernel.info")
    (.ofString "Architecture : i686 (x86 32-bit)\nMultitasking : Preemptif + Priorite") fs).2
  (vfsCreate (.ofString "author.txt") (.ofString "Concu par un Developpeur OS passionne.") fs).2

/-- `vfs_open`: the slot that it returns a pointer to. -/
def vfsOpen (name : CString) (fs : Vfs) : Option (Fin maxFiles) :=
  (List.finRange maxFiles).find? fun i => (fs i).used ∧ strcmp (fs i).name name.chars = 0

/-- The string in the array `name`. -/
def VfsFile.nameString (f : VfsFile) : List UInt8 := readString maxFilename f.name

/-- The string in the array `content`. -/
def VfsFile.contentString (f : VfsFile) : List UInt8 := readString maxFileSize f.content

/-- The names of the files in use, in the order of their slots. -/
def vfsNames (fs : Vfs) : List (List UInt8) :=
  (List.finRange maxFiles).filterMap fun i => if (fs i).used then some (fs i).nameString else none

/-- `vfs_list`: the strings that it prints, three for each file in use. -/
def vfsList (fs : Vfs) : List (List UInt8) :=
  (vfsNames fs).flatMap fun name => [(CString.ofString " - ").chars, name, (CString.ofString "\n").chars]

/-- `vfs_touch(name)`. -/
def vfsTouch (name : CString) (fs : Vfs) : ℤ × Vfs :=
  if vfsOpen name fs ≠ none then (0, fs) else vfsCreate name (.ofString "") fs

/-- `vfs_write(name, content)`: a file that is not there is created. -/
def vfsWrite (name content : CString) (fs : Vfs) : ℤ × Vfs :=
  match vfsOpen name fs with
  | none => vfsCreate name content fs
  | some i =>
    let (e, c) := safeCopy (fs i).content content maxFileSize
    let fs1 := Function.update fs i { fs i with content := c }
    if e < 0 then (-1, fs1)
    else (0, Function.update fs1 i { fs1 i with size := strlen content })

/-- `vfs_remove`: its loop stops at the slot at which that of `vfs_open` does. -/
def vfsRemove (name : CString) (fs : Vfs) : ℤ × Vfs :=
  match vfsOpen name fs with
  | none => (-1, fs)
  | some i => (0, Function.update fs i { fs i with used := false })

/-- What a caller of `vfs_open` finds behind the pointer: the slot, the content and its size. -/
def vfsSees (name : CString) (fs : Vfs) : Option (Fin maxFiles × List UInt8 × ℕ) :=
  (vfsOpen name fs).map fun i => (i, (fs i).contentString, (fs i).size)

/-! ## Runs -/

/-- Files that were never in use. -/
def zeroVfs : Vfs := fun _ => { name := fun _ => 0, content := fun _ => 0, size := 0, used := false }

/-- The calls by which files are touched, written and removed. -/
inductive VfsCall where
  | touch (name : CString)
  | write (name content : CString)
  | remove (name : CString)

/-- The return value of a call and the files after it. -/
def vfsCall (fs : Vfs) : VfsCall → ℤ × Vfs
  | .touch name => vfsTouch name fs
  | .write name content => vfsWrite name content fs
  | .remove name => vfsRemove name fs

/-- Any call that changes files. -/
inductive VfsOp where
  | create (name content : CString)
  | call (c : VfsCall)

/-- A call, for its effect on the files. -/
def vfsStep (fs : Vfs) : VfsOp → Except Stop Vfs
  | .create name content => pure (vfsCreate name content fs).2
  | .call c => pure (vfsCall fs c).2

end RtosKernel
