import QirGen.Json.Cursor

/-!
# Reading JSON numbers

A number is read as an unsigned 64-bit integer when it has no fraction or exponent and
fits, as a negative 64-bit integer when it is negative, integral, nonzero and fits, and as
a binary64 value otherwise (`-0` is the float `-0.0`).

A float is computed from the digits kept in a 64-bit significand `s` and a decimal
exponent `e`: digits that no longer fit in the significand only shift the exponent. The
value is `s` rounded to binary64, then multiplied (for `e ≥ 0`) or divided (for `e < 0`)
by `10^|e|` rounded to binary64, each step rounded to nearest. A product that overflows
fails as out of range; for `|e| > 308` a division by `10^308` comes first, repeated until
the rest of the exponent is in range or the value is zero.

Errors: a leading zero followed by a digit, a point or an exponent mark without a digit
after it, and a sign without digits are invalid numbers; an exponent past the 32-bit range
with a nonzero significand is out of range when positive and gives zero when negative.
-/

namespace QirGen
namespace Json

/-- The largest unsigned 64-bit integer. -/
def u64Max : Nat := Nat.pow 2 64 - 1

/-- The largest signed 32-bit integer. -/
def i32Max : Nat := Nat.pow 2 31 - 1

/-- The value of a decimal digit character. -/
def digitValue (c : Char) : Nat := c.toNat - 48

/-- Appends digits to `acc` while the result stays at most `bound`; returns the result and
how many digits were taken. -/
def accumulate (bound acc : Nat) : List Nat → Nat × Nat
  | [] => (acc, 0)
  | d :: ds =>
      if acc * 10 + d > bound then (acc, 0)
      else
        let (a, n) := accumulate bound (acc * 10 + d) ds
        (a, n + 1)

/-- An integer clamped to the signed 32-bit range. -/
def clampI32 (i : Int) : Int := max (-(Nat.pow 2 31)) (min (Nat.pow 2 31 - 1) i)

/-- A decimal significand and exponent, with the sign, rounded as described above; `none`
when the value is out of range. -/
def floatOfParts (positive : Bool) (sig : Nat) (exp : Int) : Option Binary64 :=
  let rec go (fuel : Nat) (f : Binary64) (e : Int) : Option Binary64 :=
    if e.natAbs ≤ 308 then
      if e ≥ 0 then
        let g := Binary64.mulFinite f (Binary64.tenPow e.natAbs)
        if g.isFinite then some g else none
      else some (Binary64.divFinite f (Binary64.tenPow e.natAbs))
    else if f.isZero then some f
    else if e ≥ 0 then none
    else match fuel with
      | 0 => some f
      | fuel + 1 => go fuel (Binary64.divFinite f (Binary64.tenPow 308)) (e + 308)
  (go 8 (Binary64.ofNat sig) exp).map fun f => if positive then f else f.neg

namespace Reader

/-- The digits that come next, not consumed. -/
def digitRun : Reader (List Nat) := do
  return ((← get).rest.takeWhile Char.isDigit).map digitValue

/-- Consumes `n` characters. -/
def eatN : Nat → Reader Unit
  | 0 => pure ()
  | n + 1 => do eat; eatN n

/-- Consumes a run of digits. -/
def skipDigits : Reader Unit := do eatN (← digitRun).length

/-- The float of the parts, failing as out of range with the position reached. -/
def floatFromParts (positive : Bool) (sig : Nat) (exp : Int) : Reader Binary64 :=
  match floatOfParts positive sig exp with
  | some f => pure f
  | none => fail .numberOutOfRange

/-- Reads an exponent part (the mark is next) and builds the float. -/
def readExponent (positive : Bool) (sig : Nat) (start : Int) : Reader Binary64 := do
  eat
  let positiveExp ← match ← peek with
    | some '+' => do eat; pure true
    | some '-' => do eat; pure false
    | _ => pure true
  match ← next with
  | none => fail .eofWhileParsingValue
  | some c =>
    if !c.isDigit then fail .invalidNumber
    else
      let run ← digitRun
      let (exp, used) := accumulate i32Max (digitValue c) run
      eatN used
      if used < run.length then
        -- the digit that overflows is read before the check
        eat
        if sig != 0 && positiveExp then fail .numberOutOfRange
        else
          skipDigits
          return Binary64.signedZero !positive
      else
        let e : Int := if positiveExp then start + exp else start - exp
        floatFromParts positive sig (clampI32 e)

/-- After the significand is full: skips the remaining fraction digits. -/
def readFractionOverflow (positive : Bool) (sig : Nat) (exp : Int) : Reader Binary64 := do
  skipDigits
  match ← peek with
  | some 'e' | some 'E' => readExponent positive sig exp
  | _ => floatFromParts positive sig exp

/-- Reads a fraction part (the point is next) and what follows it. -/
def readFraction (positive : Bool) (sig : Nat) (start : Int) : Reader Binary64 := do
  eat
  let run ← digitRun
  let (sig', used) := accumulate u64Max sig run
  eatN used
  if used < run.length then readFractionOverflow positive sig' (start - used)
  else if used = 0 then
    match ← peek with
    | some _ => failAhead .invalidNumber
    | none => failAhead .eofWhileParsingValue
  else
    match ← peek with
    | some 'e' | some 'E' => readExponent positive sig' (start - used)
    | _ => floatFromParts positive sig' (start - used)

/-- After an integer part too long for the significand: its remaining digits shift the
exponent. -/
def readLongInteger (positive : Bool) (sig : Nat) : Reader Binary64 := do
  let run ← digitRun
  eatN run.length
  match ← peek with
  | some '.' => readFraction positive sig run.length
  | some 'e' | some 'E' => readExponent positive sig run.length
  | _ => floatFromParts positive sig run.length

/-- What follows a complete integer part. -/
def readNumberTail (positive : Bool) (sig : Nat) : Reader Number := do
  match ← peek with
  | some '.' => return .float (← readFraction positive sig 0)
  | some 'e' | some 'E' => return .float (← readExponent positive sig 0)
  | _ =>
    if positive then return .nat sig
    else if 1 ≤ sig ∧ sig ≤ Nat.pow 2 63 then return .negInt (-(sig : Int))
    else return .float (Binary64.ofNat sig).neg

/-- Reads a number whose sign, if any, was consumed. -/
def readNumber (positive : Bool) : Reader Number := do
  match ← next with
  | none => fail .eofWhileParsingValue
  | some '0' =>
    match ← peek with
    | some c => if c.isDigit then failAhead .invalidNumber else readNumberTail positive 0
    | none => readNumberTail positive 0
  | some c =>
    if c.isDigit then
      let run ← digitRun
      let (sig, used) := accumulate u64Max (digitValue c) run
      eatN used
      if used < run.length then return .float (← readLongInteger positive sig)
      else readNumberTail positive sig
    else fail .invalidNumber

/-- Skips a number without computing it (for ignored values): only its shape is checked. -/
def skipNumber : Reader Unit := do
  let first ← next
  match first with
  | some '0' =>
    match ← peek with
    | some c => if c.isDigit then failAhead .invalidNumber else pure ()
    | none => pure ()
  | some c => if c.isDigit then skipDigits else fail .invalidNumber
  | none => fail .invalidNumber
  let skipExponent : Reader Unit := do
    eat
    match ← peek with
    | some '+' | some '-' => eat
    | _ => pure ()
    match ← next with
    | some c => if c.isDigit then skipDigits else fail .invalidNumber
    | none => fail .invalidNumber
  match ← peek with
  | some '.' =>
    eat
    let run ← digitRun
    if run.isEmpty then failAhead .invalidNumber
    else
      skipDigits
      match ← peek with
      | some 'e' | some 'E' => skipExponent
      | _ => pure ()
  | some 'e' | some 'E' => skipExponent
  | _ => pure ()

end Reader

/-- A number as a binary64 value: integers are rounded to nearest. -/
def Number.toBinary64 : Number → Binary64
  | .nat n => Binary64.ofNat n
  | .negInt i => Binary64.ofInt i
  | .float x => x

end Json
end QirGen
