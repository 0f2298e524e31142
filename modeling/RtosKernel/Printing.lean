import RtosKernel.Heap
import RtosKernel.Screen
import RtosKernel.ShellCommands

/-!
# Numbers as texts (`process.c`, `kernel.c`, `shell.c`, `panic.c`)

The functions besides `print_dec` of the shell that print a number, and the commands `alloc` and `hexdump`, which
read one as well. A local array is a function from its places, with what they hold at the start of the call; the
stores into it are checked.
-/

namespace RtosKernel

open Lib

/-! ## Decimal -/

/-- `while (n > 0) { buf[i++] = '0' + (n % 10); n /= 10; }`, with the number of places that are free in `buf`: the
array and `i` at the end. -/
def putDigits : ℕ → UInt32 → (ℕ → UInt8) → ℕ → Except ShellStop ((ℕ → UInt8) × ℕ)
  | 0, n, buf, i => if 0 < n then .error (.outOfBounds i) else pure (buf, i)
  | places + 1, n, buf, i =>
    if 0 < n then putDigits places (n / 10) (Function.update buf i (48 + (n % 10).toUInt8)) (i + 1)
    else pure (buf, i)

/-- `print_uint`: the string that `fn` is called with. -/
def printUint (buf out : ℕ → UInt8) (n : UInt32) : Except ShellStop CString :=
  if n = 0 then pure (.ofString "0")
  else do
    let (buf, i) ← putDigits 16 n buf 0
    let out ← (List.range i).foldlM (fun out j => setAt 16 j (buf (i - 1 - j)) out) out
    let out ← setAt 16 i 0 out
    cString 16 out

/-- `terminal_write_dec`. -/
def terminalWriteDec (buf : ℕ → UInt8) (n : UInt32) (row col : Int32) (s : Terminal) : Except ShellStop Terminal :=
  if n = 0 then
    let s := vgaPutAt row.toInt col.toInt 48 vgaColorDefault s
    pure (vgaPutAt row.toInt (col + 1).toInt 32 vgaColorDefault s)
  else do
    let (buf, i) ← putDigits 12 n buf 0
    let s := (List.range i).foldl
      (fun s j => vgaPutAt row.toInt (col + Int32.ofNat j).toInt (buf (i - 1 - j)) vgaColorDefault s) s
    pure (vgaPutAt row.toInt (col + Int32.ofNat i).toInt 32 vgaColorDefault s)

/-! ## Hexadecimal -/

/-- The characters that `print_hex` of `shell.c` prints. -/
def printHex (n : UInt32) : List UInt8 :=
  let hx := (CString.ofString "0123456789ABCDEF").chars
  (CString.ofString "0x").chars ++
    (List.range 8).reverse.map fun i => hx.getD ((n >>> UInt32.ofNat (i * 4)) &&& 0xF).toNat 0

/-- The loop of `print_hex` of `panic.c`, from `i = k + 1` on. -/
def panicHexLoop : ℕ → UInt32 → (ℕ → UInt8) → ℕ → UInt8
  | 0, _, buf => buf
  | k + 1, n, buf =>
    let nibble := (n &&& 0xF).toUInt8
    let c := if nibble < 10 then 48 + nibble else 65 + nibble - 10
    panicHexLoop k (n >>> 4) (Function.update buf (k + 2) c)

/-- The characters that `print_hex` of `panic.c` prints. -/
def panicPrintHex (n : UInt32) : List UInt8 :=
  let zero := (CString.ofString "0x00000000").chars
  readString 11 (panicHexLoop 8 n fun i => zero.getD i 0)

/-! ## `alloc` and `hexdump` -/

/-- The digit loop of `cmd_alloc`. -/
def allocSize (str : List UInt8) : UInt32 := digitLoop UInt32.ofNat 0 str

/-- `cmd_alloc`: the characters that it prints, with `test_alloc_ptr` and the heap. -/
def cmdAlloc (c : Caller) (argc : ℕ) (args : Args) (testAllocPtr : UInt32) (h : Heap) :
    Except CommandStop (List UInt8 × UInt32 × Heap) :=
  if testAllocPtr ≠ 0 then
    pure ((CString.ofString "\nAlready allocated! Run 'free' first.").chars, testAllocPtr, h)
  else do
    let sz ←
      if 2 ≤ argc then do
        let str ← argString args 1
        let sz := allocSize str.chars
        pure (if sz = 0 then 1024 else sz)
      else pure 1024
    let (ptr, h) ← (kmalloc c sz h).mapError .signal
    if ptr ≠ 0 then do
      let dec ← printDec sz
      pure ((CString.ofString "\nAllocated ").chars ++ dec ++ (CString.ofString " bytes @ ").chars ++ printHex ptr,
        ptr, h)
    else pure ((CString.ofString "\nAllocation failed!").chars, ptr, h)

/-- The nibble of a character in `cmd_hexdump`. -/
def nibble (c : UInt8) : Option UInt8 :=
  if 48 ≤ c ∧ c ≤ 57 then some (c - 48)
  else if 97 ≤ c ∧ c ≤ 102 then some (c - 97 + 10)
  else if 65 ≤ c ∧ c ≤ 70 then some (c - 65 + 10)
  else none

/-- The loop of `cmd_hexdump` over the characters of the address. -/
def hexLoop : UInt32 → List UInt8 → UInt32
  | addr, [] => addr
  | addr, c :: cs =>
    match nibble c with
    | none => addr
    | some nib => hexLoop ((addr <<< 4) ||| nib.toUInt32) cs

/-- The address that `cmd_hexdump` reads. -/
def hexdumpAddr (str : List UInt8) : UInt32 :=
  if str[0]? = some 48 ∧ (str[1]? = some 120 ∨ str[1]? = some 88) then hexLoop 0 (str.drop 2) else hexLoop 0 str

/-- A row of the dump: the address, the bytes, and the bytes as characters. -/
def hexdumpRow (m : Mem) (addr : UInt32) (row : ℕ) : List UInt8 :=
  let h := (CString.ofString "0123456789ABCDEF").chars
  let byte (col : ℕ) : UInt8 := m.byte (addr + UInt32.ofNat (row * 16 + col))
  let digits (b : UInt8) : List UInt8 := [h.getD (b >>> 4).toNat 0, h.getD (b &&& 0xF).toNat 0, 32]
  printHex (addr + UInt32.ofNat (row * 16)) ++ (CString.ofString "  ").chars ++
    (List.range 16).flatMap (fun col => digits (byte col)) ++ (CString.ofString " |").chars ++
    (List.range 16).map (fun col => if 32 ≤ byte col ∧ byte col < 127 then byte col else 46) ++
    (CString.ofString "|\n").chars

/-- The characters that `cmd_hexdump` prints. -/
def cmdHexdump (m : Mem) (str : CString) : List UInt8 :=
  let addr := hexdumpAddr str.chars
  (CString.ofString "\nHexdump @ ").chars ++ printHex addr ++ (CString.ofString " :\n").chars ++
    (List.range 4).flatMap (hexdumpRow m addr)

end RtosKernel
