import RtosKernel.Basic

/-!
# The keyboard (`keyboard.c`)

`keyboard_callback` gets one scancode for each interrupt. The calls that it makes to the terminal and to the
shell, and its changes of `ctrl_pressed`, are its actions. A code with the prefix 0xE0 comes in two
interrupts: the prefix sets `extended_mode`, and the byte after it is the code.
-/

namespace RtosKernel

/-- `SCANCODE_EXTENDED`, the prefix. -/
def scancodeExtended : UInt8 := 0xE0

/-- `SCANCODE_PAGE_UP`. -/
def scancodePageUp : UInt8 := 0x49

/-- `SCANCODE_PAGE_DOWN`. -/
def scancodePageDown : UInt8 := 0x51

/-- `SCANCODE_HOME`. -/
def scancodeHome : UInt8 := 0x47

/-- `SCANCODE_END`. -/
def scancodeEnd : UInt8 := 0x4F

/-- `SCANCODE_UP_ARROW`. -/
def scancodeUpArrow : UInt8 := 0x48

/-- `SCANCODE_DOWN_ARROW`. -/
def scancodeDownArrow : UInt8 := 0x50

/-- `SCANCODE_LEFT_CTRL`. -/
def scancodeLeftCtrl : UInt8 := 0x1D

/-- `SCANCODE_LEFT_CTRL_RELEASE`. -/
def scancodeLeftCtrlRelease : UInt8 := 0x9D

/-- `scancode_qwerty`. -/
def scancodeQwerty : List UInt8 :=
  [0, 27, 49, 50, 51, 52, 53, 54, 55, 56, 57, 48, 45, 61, 8,
    9, 113, 119, 101, 114, 116, 121, 117, 105, 111, 112, 91, 93, 10,
    0, 97, 115, 100, 102, 103, 104, 106, 107, 108, 59, 39, 96, 0,
    92, 122, 120, 99, 118, 98, 110, 109, 44, 46, 47, 0, 42, 0, 32]

/-- The modifiers. -/
structure Keyboard where
  ctrlPressed : Bool
  extendedMode : Bool
  deriving DecidableEq, Repr

/-- No key is held. -/
def initKeyboard : Keyboard := { ctrlPressed := false, extendedMode := false }

/-- What `keyboard_callback` does to the rest of the system, and to `ctrl_pressed`. -/
inductive KeyAction where
  | setCtrl (pressed : Bool)
  | scrollUp (lines : ℕ)
  | scrollDown (lines : ℕ)
  | scrollToTop
  | scrollToBottom
  | historyUp
  | historyDown
  | handleKey (c : UInt8)
  deriving DecidableEq, Repr

/-- The last part of `keyboard_callback`: a key with a character scrolls down and goes to the shell. -/
def plainKey (scancode : UInt8) : List KeyAction :=
  if scancode.toNat < scancodeQwerty.length then
    let c := scancodeQwerty.getD scancode.toNat 0
    if c ≠ 0 then [.scrollToBottom, .handleKey c] else []
  else []

/-- The `switch` over the extended keys; the other codes fall through to the last part. -/
def extendedKey (ctrl : Bool) (scancode : UInt8) : List KeyAction :=
  if scancode = scancodePageUp then [.scrollUp 10]
  else if scancode = scancodePageDown then [.scrollDown 10]
  else if scancode = scancodeHome then if ctrl then [.scrollToTop] else []
  else if scancode = scancodeEnd then if ctrl then [.scrollToBottom] else []
  else if scancode = scancodeUpArrow then [.historyUp]
  else if scancode = scancodeDownArrow then [.historyDown]
  else plainKey scancode

/-- `keyboard_callback(regs)` for the scancode that it reads from the port. -/
def keyboardCallback (scancode : UInt8) (s : Keyboard) : List KeyAction × Keyboard :=
  if scancode = scancodeExtended then ([], { s with extendedMode := true })
  else if scancode = scancodeLeftCtrl then ([.setCtrl true], { s with ctrlPressed := true })
  else if scancode = scancodeLeftCtrlRelease then ([.setCtrl false], { s with ctrlPressed := false })
  else if scancode &&& 0x80 ≠ 0 then ([], { s with extendedMode := false })
  else if s.extendedMode then (extendedKey s.ctrlPressed scancode, { s with extendedMode := false })
  else (plainKey scancode, s)

/-- The actions of a stream of scancodes, and the modifiers after it. -/
def keyboardRun : List UInt8 → Keyboard → List KeyAction × Keyboard
  | [], s => ([], s)
  | b :: bytes, s =>
    let r := keyboardCallback b s
    let r' := keyboardRun bytes r.2
    (r.1 ++ r'.1, r'.2)

/-! ## What a stream of scancodes means -/

/-- A unit of the stream: a code, with or without the prefix. -/
structure KeyUnit where
  extended : Bool
  code : UInt8
  code_ne : code ≠ scancodeExtended

/-- The stream cut into units, with the prefix before it if `ext` holds. Repeated prefixes count as one, and a
prefix at the end of the stream has no code yet. -/
def units (ext : Bool) : List UInt8 → List KeyUnit
  | [] => []
  | b :: bytes =>
    if h : b = scancodeExtended then units true bytes
    else { extended := ext, code := b, code_ne := h } :: units false bytes

/-- The bytes of a unit. -/
def KeyUnit.bytes (u : KeyUnit) : List UInt8 := if u.extended then [scancodeExtended, u.code] else [u.code]

/-- The actions of the units, each one on its own: it finds no prefix but its own, and the state of Ctrl
that the units before it have left. -/
def decodeUnits (ctrl : Bool) : List KeyUnit → List KeyAction
  | [] => []
  | u :: us =>
    let r := keyboardRun u.bytes { ctrlPressed := ctrl, extendedMode := false }
    r.1 ++ decodeUnits r.2.ctrlPressed us

/-- The code of a Ctrl key, pressed or released. -/
def KeyUnit.IsCtrl (u : KeyUnit) : Prop := u.code = scancodeLeftCtrl ∨ u.code = scancodeLeftCtrlRelease

instance (u : KeyUnit) : Decidable u.IsCtrl := by
  unfold KeyUnit.IsCtrl
  infer_instance

/-- The state of Ctrl after the units. -/
def ctrlAfter (ctrl : Bool) (us : List KeyUnit) : Bool :=
  us.foldl (fun c u => if u.code = scancodeLeftCtrl then true
    else if u.code = scancodeLeftCtrlRelease then false else c) ctrl

/-- The code does something only with the prefix: Page Up, Page Down and the arrows always, Home and End
with Ctrl. -/
def ActsExtended (ctrl : Bool) (code : UInt8) : Prop :=
  code = scancodePageUp ∨ code = scancodePageDown ∨ code = scancodeUpArrow ∨ code = scancodeDownArrow ∨
    (ctrl = true ∧ (code = scancodeHome ∨ code = scancodeEnd))

/-- The units begin with Ctrl codes without the prefix, and then comes a code without the prefix that acts
only with it. -/
def LeadsToStray (ctrl : Bool) (us : List KeyUnit) : Prop :=
  ∃ mid v post, us = mid ++ v :: post ∧ (∀ m ∈ mid, m.extended = false ∧ m.IsCtrl) ∧ v.extended = false ∧
    ActsExtended (ctrlAfter ctrl mid) v.code

/-- A Ctrl code with the prefix is followed by a code without one that acts only with it, and nothing but Ctrl
codes without the prefix stands between them. -/
def HasStray (ctrl : Bool) (us : List KeyUnit) : Prop :=
  ∃ pre u post, us = pre ++ u :: post ∧ u.extended = true ∧ u.IsCtrl ∧
    LeadsToStray (ctrlAfter ctrl (pre ++ [u])) post

end RtosKernel
