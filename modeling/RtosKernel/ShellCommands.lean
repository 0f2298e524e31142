import RtosKernel.Shell
import RtosKernel.Log
import RtosKernel.Signal
import RtosKernel.Lib.Numeral
import RtosKernel.Lib.SignedWord

/-!
# The commands with numeric arguments (`shell.c`)

`cmd_loglevel`, `cmd_testsig` and `cmd_calc`, with the characters that they print. `int` is 32 bits wide and
wraps around, as the processor computes it; `a / b` is the instruction `idiv`, which raises an exception where
the quotient does not exist or does not fit. The log message of `kill` is left out.
-/

namespace RtosKernel

open Lib

/-- Why a command does not return. -/
inductive CommandStop where
  | shell (e : ShellStop)
  | signal (e : Stop)
  /-- The exception `#DE`; `exception_handler` halts the machine. -/
  | divideError
  deriving DecidableEq, Repr

/-- The part of the kernel that the commands change, and the calls of `kill` that they made. -/
structure ShellKernel where
  log : Log
  signals : Signals
  kills : List (UInt32 × ℤ)

/-- The string `args[i]`. -/
def argString (args : Args) (i : ℕ) : Except CommandStop CString := (cString argLen (args i)).mapError .shell

/-! ## Printing -/

/-- The loop of `print_dec` that fills `buf`, with the number of places that are free in it; the characters
stand in the order in which they are printed. -/
def decLoop : ℕ → UInt32 → List UInt8 → Except CommandStop (List UInt8)
  | 0, n, buf => if 0 < n then .error (.shell (.outOfBounds 16)) else pure buf
  | places + 1, n, buf => if 0 < n then decLoop places (n / 10) ((48 + (n % 10).toUInt8) :: buf) else pure buf

/-- The characters that `print_dec` prints. -/
def printDec (n : UInt32) : Except CommandStop (List UInt8) := if n = 0 then pure [48] else decLoop 16 n []

/-- `error_to_string(err)`. -/
def errorToString : ErrorT → CString
  | .ok => .ofString "OK (succès)"
  | .nomem => .ofString "NOMEM (pas de mémoire)"
  | .inval => .ofString "INVAL (argument invalide)"
  | .busy => .ofString "BUSY (ressource occupée)"
  | .timeout => .ofString "TIMEOUT (délai expiré)"
  | .perm => .ofString "PERM (permission refusée)"
  | .noent => .ofString "NOENT (non trouvé)"
  | .exist => .ofString "EXIST (existe déjà)"
  | .badf => .ofString "BADF (mauvais descripteur)"
  | .nospace => .ofString "NOSPACE (espace insuffisant)"
  | .deadlk => .ofString "DEADLK (deadlock détecté)"
  | .unknown => .ofString "UNKNOWN (erreur inconnue)"

/-! ## `loglevel` and `testsig` -/

/-- `cmd_loglevel(argc, args)`. -/
def cmdLoglevel (argc : ℕ) (args : Args) (k : ShellKernel) : Except CommandStop (List UInt8 × ShellKernel) :=
  if argc < 2 then
    pure ((CString.ofString "\nUsage: loglevel <0-4>\n").chars ++
      (CString.ofString "  0=DEBUG, 1=INFO, 2=WARN, 3=ERROR, 4=CRITICAL\n").chars, k)
  else do
    let arg ← argString args 1
    let level := digitLoop Int32.ofNat 0 arg.chars
    if 0 ≤ level ∧ level ≤ 4 then do
      let dec ← printDec level.toUInt32
      pure ((CString.ofString "\nLog level changed to ").chars ++ dec,
        { k with log := logSetLevel level.toUInt32 k.log })
    else pure ([], k)

/-- The call of `kill` by a command. -/
def shellKill (c : Caller) (pid : UInt32) (signum : ℤ) (k : ShellKernel) :
    Except CommandStop (ErrorT × ShellKernel) := do
  let (err, s) ← (kill c pid signum k.signals).mapError .signal
  pure (err, { k with signals := s, kills := k.kills ++ [(pid, signum)] })

/-- `cmd_testsig(argc, args)`. The process gets a `SIGTERM`. -/
def cmdTestsig (c : Caller) (argc : ℕ) (args : Args) (k : ShellKernel) :
    Except CommandStop (List UInt8 × ShellKernel) :=
  if argc < 2 then pure ((CString.ofString "\nUsage: testsig <pid>\n").chars, k)
  else do
    let arg ← argString args 1
    let pid := digitLoop UInt32.ofNat 0 arg.chars
    let (err, k) ← shellKill c pid sigTerm k
    let dec ← printDec pid
    pure ((CString.ofString "\nSIGTERM signal sent to PID ").chars ++ dec ++ (CString.ofString ": ").chars ++
      (errorToString err).chars, k)

/-! ## `calc` -/

/-- The instruction `idiv`. -/
def idiv (a b : Int32) : Except CommandStop Int32 :=
  if b = 0 ∨ (a = Int32.minValue ∧ b = -1) then .error .divideError else pure (a / b)

/-- The two loops of `cmd_calc` that read an operand, and the changes of sign after them. -/
def calcOperand (chars : List UInt8) : Int32 :=
  let n := digitLoop Int32.ofNat 0 (unsignedPart chars)
  if IsNegative chars then -n else n

/-- The `switch` of `cmd_calc`: `res`, or what is printed if `ok` is 0. -/
def calcSwitch (op : UInt8) (a b : Int32) : Except CommandStop (List UInt8 ⊕ Int32) :=
  if op = 43 then pure (.inr (a + b))
  else if op = 45 then pure (.inr (a - b))
  else if op = 42 then pure (.inr (a * b))
  else if op = 47 then
    if b = 0 then pure (.inl (CString.ofString "\nDiv/0!").chars)
    else do
      let res ← idiv a b
      pure (.inr res)
  else pure (.inl (CString.ofString "\nInvalid op").chars)

/-- The last lines of `cmd_calc`. -/
def printResult (res : Int32) : Except CommandStop (List UInt8) := do
  let sign : List UInt8 := if res < 0 then [45] else []
  let res := if res < 0 then -res else res
  let dec ← printDec res.toUInt32
  pure ((CString.ofString "\nResult: ").chars ++ sign ++ dec)

/-- `cmd_calc(argc, args)`. The operands are parsed without a test for overflow. -/
def cmdCalc (argc : ℕ) (args : Args) : Except CommandStop (List UInt8) :=
  if argc < 4 then pure (CString.ofString "\nUsage: calc <n> <op> <m>").chars
  else do
    let sa ← argString args 1
    let sb ← argString args 3
    let a := calcOperand sa.chars
    let b := calcOperand sb.chars
    match ← calcSwitch (args 2 0) a b with
    | .inl text => pure text
    | .inr res => printResult res

/-! ## In the shell -/

/-- What `execute_command` sees of a command. -/
def commandResult (r : Except CommandStop (List UInt8 × ShellKernel)) : Option (List Output × ShellKernel) :=
  match r with
  | .ok (text, k) => some (text.map .putchar, k)
  | .error _ => none

/-- The three commands, with any others. -/
def numericCommands (c : Caller) (others : Commands ShellKernel) : Commands ShellKernel
  | .loglevel, argc, args, _, k => commandResult (cmdLoglevel argc args k)
  | .testsig, argc, args, _, k => commandResult (cmdTestsig c argc args k)
  | .calc, argc, args, _, k => commandResult ((cmdCalc argc args).map fun text => (text, k))
  | cmd, argc, args, sh, k => others cmd argc args sh k

/-! ## What the arguments mean -/

/-- What `loglevel` should do with a text: a numeral of value at most 4 is the new level. -/
def setNamedLevel (str : CString) (k : ShellKernel) : ShellKernel :=
  match numeralValue str.chars with
  | some n => if n ≤ 4 then { k with log := logSetLevel (UInt32.ofNat n) k.log } else k
  | none => k

/-- `loglevel` does with the text what it should, whatever else is on the line. -/
def LoglevelChecks (str : CString) : Prop :=
  ∀ (argc : ℕ) (args : Args) (k : ShellKernel), 2 ≤ argc → HoldsString (args 1) str.chars →
    (cmdLoglevel argc args k).map Prod.snd = .ok (setNamedLevel str k)

/-- What `testsig` should do with a text: a numeral whose value fits into 32 bits names the process that gets
the signal. -/
def killNamed (c : Caller) (str : CString) (k : ShellKernel) : Except CommandStop ShellKernel :=
  match numeralValue str.chars with
  | some n => if n < 2 ^ 32 then (shellKill c (UInt32.ofNat n) sigTerm k).map Prod.snd else .ok k
  | none => .ok k

/-- `testsig` does with the text what it should, whatever else is on the line. -/
def TestsigChecks (str : CString) : Prop :=
  ∀ (c : Caller) (argc : ℕ) (args : Args) (k : ShellKernel), 2 ≤ argc → HoldsString (args 1) str.chars →
    (cmdTestsig c argc args k).map Prod.snd = killNamed c str k

/-- The operators of the calculator. -/
inductive CalcOp where
  | add
  | sub
  | mul
  | div
  deriving DecidableEq, Repr

/-- The character of the operator on the line. -/
def CalcOp.char : CalcOp → UInt8
  | .add => 43
  | .sub => 45
  | .mul => 42
  | .div => 47

/-- The exact result; division truncates toward zero. -/
def CalcOp.exact (a b : ℤ) : CalcOp → Option ℤ
  | .add => some (a + b)
  | .sub => some (a - b)
  | .mul => some (a * b)
  | .div => if b = 0 then none else some (a.tdiv b)

/-- The signed decimal numeral. -/
def signedDecimal (x : ℤ) : List UInt8 := if x < 0 then 45 :: decimal x.natAbs else decimal x.natAbs

/-- The operands of a division whose quotient does not fit: the digits of the first one give `2^31` modulo
`2^32`, and the second one is `-1` modulo `2^32`. -/
def DividesMinByMinusOne (sa sb : List UInt8) : Prop :=
  digitsFrom 0 (digitPrefix (unsignedPart sa)) % 2 ^ 32 = 2 ^ 31 ∧
    digitsFrom 0 (digitPrefix (unsignedPart sb)) % 2 ^ 32 = if IsNegative sb then 1 else 2 ^ 32 - 1

end RtosKernel
