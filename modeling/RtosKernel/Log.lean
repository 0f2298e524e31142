import RtosKernel.Lib.CString
import RtosKernel.Lib.RingBuffer
import RtosKernel.Lib.Run
import Mathlib.Data.List.DropRight

/-!
# The system log (`logging.c`)

A ring of 32 entries, each a line of at most 63 characters: the tag of the level, the tick count and the
message. `log_level_t` is unsigned, as the compiler makes an enumeration without negative members. The tick
count that `log_msg` reads is an argument, and so is what its two local arrays hold before they are written.
-/

namespace RtosKernel

open Lib

/-- `LOG_ENTRY_MAX`, with the zero. -/
def logEntryMax : ℕ := 64

/-- `LOG_ENTRIES`. -/
def logEntries : ℤ := 32

/-- `LOG_DEBUG`. -/
def logDebug : UInt32 := 0

/-- `LOG_WARN`. -/
def logWarn : UInt32 := 2

/-- `log_entry_t`. -/
structure LogEntry where
  message : ℕ → UInt8
  level : UInt32
  timestamp : UInt32

/-- The static data of `logging.c`, and the strings that were given to `serial_write`. -/
structure Log where
  buffer : ℤ → LogEntry
  head : ℤ
  count : ℤ
  currentLevel : UInt32
  serial : List (List UInt8)

/-- `level_to_string(level)`. -/
def levelToString (level : UInt32) : CString :=
  if level = 0 then .ofString "[DEBUG]"
  else if level = 1 then .ofString "[INFO]"
  else if level = 2 then .ofString "[WARN]"
  else if level = 3 then .ofString "[ERROR]"
  else if level = 4 then .ofString "[CRIT]"
  else .ofString "[?]"

/-- `safe_strcpy(dest, src, max)`: its loop stops at the NUL of `src`, or at `max - 1`. -/
def safeStrcpy (dest src : ℕ → UInt8) (max : ℕ) : ℕ → UInt8 :=
  let i := (readString (max - 1) src).length
  Function.update (copyChars src i dest) i 0

/-- The loop of `log_init` and `log_clear` over the entries. -/
def clearEntries (buffer : ℤ → LogEntry) : ℤ → LogEntry := fun i =>
  if 0 ≤ i ∧ i < logEntries then
    { message := Function.update (buffer i).message 0 0, level := logDebug, timestamp := 0 }
  else buffer i

/-- `log_init()`. -/
def logInit (s : Log) : Log :=
  { s with head := 0, count := 0, currentLevel := logDebug, buffer := clearEntries s.buffer }

/-- `log_set_level(level)`; any number is taken. -/
def logSetLevel (level : UInt32) (s : Log) : Log := { s with currentLevel := level }

/-- `log_get_level()`. -/
def logGetLevel (s : Log) : UInt32 := s.currentLevel

/-- `log_clear()`, which keeps the level. -/
def logClear (s : Log) : Log := { s with head := 0, count := 0, buffer := clearEntries s.buffer }

/-! ## The tick count in decimal -/

/-- The loop that writes the digits of `t` from the last one on; `n` is `15 - tick_len`. -/
def tickLoop : ℕ → UInt32 → (ℕ → UInt8) → ℕ → (ℕ → UInt8) × ℕ
  | 0, _, str, len => (str, len)
  | n + 1, t, str, len =>
    if 0 < t then tickLoop n (t / 10) (Function.update str len (48 + (t % 10).toUInt8)) (len + 1)
    else (str, len)

/-- `tick_str` with its NUL. -/
def tickStr (ticks : UInt32) (str : ℕ → UInt8) : ℕ → UInt8 :=
  if ticks = 0 then Function.update (Function.update str 0 48) 1 0
  else
    let (str, len) := tickLoop 15 ticks str 0
    Function.update (reverseChars len str) len 0

/-! ## A line of the log -/

/-- The local `buffer` of `log_msg`, and `pos`. -/
structure LineBuf where
  chars : ℕ → UInt8
  pos : ℕ

/-- `if (pos < LOG_ENTRY_MAX - 1) buffer[pos++] = c;`. -/
def LineBuf.put (b : LineBuf) (c : UInt8) : LineBuf :=
  if b.pos < logEntryMax - 1 then { chars := Function.update b.chars b.pos c, pos := b.pos + 1 } else b

/-- `while (str[i] && pos < LOG_ENTRY_MAX - 1) buffer[pos++] = str[i++];`. -/
def LineBuf.putString (b : LineBuf) : List UInt8 → LineBuf
  | [] => b
  | c :: str => if b.pos < logEntryMax - 1 then (b.put c).putString str else b

/-- The contents of `buffer` at the end of `log_msg`. -/
def logLine (level ticks : UInt32) (format : CString) (buffer tick : ℕ → UInt8) : ℕ → UInt8 :=
  let b : LineBuf := { chars := buffer, pos := 0 }
  let b := b.putString (levelToString level).chars
  let b := (b.put 32).put 64
  let b := b.putString (readString 16 (tickStr ticks tick))
  let b := (b.put 58).put 32
  let b := b.putString format.chars
  Function.update b.chars b.pos 0

/-- `log_msg`, with what `buffer` and `tick_str` hold at its start. The arguments after `format` are not
read. -/
def logMsg (level ticks : UInt32) (format : CString) (buffer tick : ℕ → UInt8) (s : Log) : Log :=
  if level < s.currentLevel then s
  else
    let line := logLine level ticks format buffer tick
    let entry : LogEntry :=
      { message := safeStrcpy (s.buffer s.head).message line logEntryMax, level := level, timestamp := ticks }
    { s with
      buffer := Function.update s.buffer s.head entry
      head := (s.head + 1).tmod logEntries
      count := if s.count < logEntries then s.count + 1 else s.count
      serial := s.serial ++ [readString logEntryMax line, (CString.ofString "\n").chars] }

/-- `log_dump`: the strings that it prints. -/
def logDump (s : Log) : List (List UInt8) :=
  (CString.ofString "\n=== System Log Dump ===\n").chars ::
    if s.count = 0 then [(CString.ofString "(vide)\n").chars]
    else
      let startIdx := if s.count < logEntries then 0 else s.head
      (List.range s.count.toNat).flatMap fun i : ℕ =>
        [readString logEntryMax (s.buffer ((startIdx + i).tmod logEntries)).message, (CString.ofString "\n").chars]

/-! ## Runs -/

/-- A call of the logging API that changes the log. -/
inductive LogOp where
  | init
  | setLevel (level : UInt32)
  | clear
  | msg (level ticks : UInt32) (format : CString) (buffer tick : ℕ → UInt8)

/-- A call, on the log. -/
def logStep (s : Log) : LogOp → Log
  | .init => logInit s
  | .setLevel level => logSetLevel level s
  | .clear => logClear s
  | .msg level ticks format buffer tick => logMsg level ticks format buffer tick s

/-- The static data at boot. -/
def bootLog : Log where
  buffer := fun _ => { message := fun _ => 0, level := 0, timestamp := 0 }
  head := 0
  count := 0
  currentLevel := logDebug
  serial := []

/-! ## What the log is for -/

/-- The decimal numeral. -/
def decimal (n : ℕ) : List UInt8 := (Nat.toDigits 10 n).map fun c => UInt8.ofNat c.toNat

/-- The line of a message, whole. -/
def logText (level ticks : UInt32) (format : CString) : List UInt8 :=
  (levelToString level).chars ++ (CString.ofString " @").chars ++ decimal ticks.toNat ++
    (CString.ofString ": ").chars ++ format.chars

/-- A log without bounds: the current level, and the lines accepted since the last `log_init` or
`log_clear`. -/
structure LogSpec where
  level : UInt32
  lines : List (List UInt8)

/-- A call, on the log without bounds: a line is cut to the 63 characters of an entry. -/
def logSpecStep (s : LogSpec) : LogOp → LogSpec
  | .init => { level := logDebug, lines := [] }
  | .setLevel level => { s with level := level }
  | .clear => { s with lines := [] }
  | .msg level ticks format _ _ =>
    if s.level ≤ level then { s with lines := s.lines ++ [(logText level ticks format).take 63] } else s

/-- Nothing is logged at boot, and every level is accepted. -/
def bootLogSpec : LogSpec := { level := logDebug, lines := [] }

end RtosKernel
