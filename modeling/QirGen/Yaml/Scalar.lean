import QirGen.Decimal.Text
import QirGen.Binary64.Round
import QirGen.Text.Quoted

/-!
# What a plain scalar stands for

A plain scalar without a tag reads, in this order, as null (empty, `~`, `null`, `Null`,
`NULL`), a boolean (`true`, `True`, `TRUE`, `false`, `False`, `FALSE`), an integer, a
float, or else as text.

An integer is decimal, or `0x`, `0o`, `0b` with hexadecimal, octal or binary digits; a
single `+` may come first, and a `-` before a prefixed number negates it. It must fit 64
bits (unsigned, else signed), or else 128 bits. Decimal digits with a leading zero, such
as `007`, are text. A float is `.inf`, `-.inf`, `.nan` in three spellings each, or a
decimal number with an optional exponent that is finite once rounded to binary64.
-/

namespace QirGen
namespace Yaml

/-- How a scalar reads. -/
inductive Reading where
  | null
  | bool (b : Bool)
  /-- An integer and the width, 64 or 128 bits, of the first type it fits. -/
  | integer (i : Int) (wide : Bool)
  | float (x : Binary64)
  | text (s : String)
  deriving DecidableEq, Inhabited

/-- Whether a scalar is a null. -/
def isNull (s : String) : Bool := s == "~" || s == "null" || s == "Null" || s == "NULL"

/-- The boolean a scalar spells, if any. -/
def boolOf? (s : String) : Option Bool :=
  if s == "true" || s == "True" || s == "TRUE" then some true
  else if s == "false" || s == "False" || s == "FALSE" then some false
  else none

/-- The value of a non-empty run of digits in a radix. -/
def digitsValue? (radix : Nat) (cs : List Char) : Option Nat :=
  if cs.isEmpty then none
  else cs.foldl (fun acc c => acc.bind fun a =>
    (hexDigit? c).bind fun d => if d < radix then some (a * radix + d) else none) (some 0)
where
  hexDigit? (c : Char) : Option Nat :=
    if c.isDigit then some (c.toNat - '0'.toNat)
    else if 'a' ≤ c && c ≤ 'z' then some (c.toNat - 'a'.toNat + 10)
    else if 'A' ≤ c && c ≤ 'Z' then some (c.toNat - 'A'.toNat + 10)
    else none

/-- Decimal digits with a leading zero (after one sign), which read as text. -/
def digitsButNotNumber (cs : List Char) : Bool :=
  let t := match cs with
    | '-' :: r | '+' :: r => r
    | r => r
  t.length > 1 && t.head? == some '0' && t.tail.all Char.isDigit

/-- The radix prefixes, in the order they are tried. -/
def radixPrefixes : List (List Char × Nat) := [(['0', 'x'], 16), (['0', 'o'], 8), (['0', 'b'], 2)]

/-- Whether a list of characters starts with a sign. -/
def startsWithSign (cs : List Char) : Bool := cs.head? == some '+' || cs.head? == some '-'

/-- A non-negative integer below `2 ^ bits`: one optional `+`, then a prefixed number or
decimal digits without a leading zero. -/
def unsignedOf? (bits : Nat) (cs : List Char) : Option Int :=
  let u := match cs with
    | '+' :: r => r
    | r => r
  let fits (v : Nat) : Option Int := if v < Nat.pow 2 bits then some v else none
  let prefixed := radixPrefixes.findSome? fun (p, radix) =>
    if u.take 2 == p then
      let rest := u.drop 2
      if startsWithSign rest then some none
      else (digitsValue? radix rest).bind fits |>.map some
    else none
  match prefixed with
  | some r => r
  | none =>
    if startsWithSign u || digitsButNotNumber cs then none
    else (digitsValue? 10 u).bind fits

/-- A signed integer in the range of `bits` bits: `-0x`, `-0o`, `-0b` with digits, or an
optional sign and decimal digits without a leading zero. -/
def signedOf? (bits : Nat) (cs : List Char) : Option Int :=
  let fits (v : Int) : Option Int :=
    if -(Nat.pow 2 (bits - 1) : Int) ≤ v && v < Nat.pow 2 (bits - 1) then some v else none
  let prefixed := radixPrefixes.findSome? fun (p, radix) =>
    if cs.take 3 == '-' :: p then
      (digitsValue? radix (cs.drop 3)).bind fun v => fits (-(v : Int))
    else none
  match prefixed with
  | some v => some v
  | none =>
    if digitsButNotNumber cs then none
    else match cs with
      | '-' :: r => (digitsValue? 10 r).bind fun v => fits (-(v : Int))
      | '+' :: r => (digitsValue? 10 r).bind fun v => fits v
      | r => (digitsValue? 10 r).bind fun v => fits v

/-- The integer a scalar spells, with whether it needs 128 bits. -/
def integerOf? (s : String) : Option (Int × Bool) :=
  let cs := s.toList
  match unsignedOf? 64 cs with
  | some v => some (v, false)
  | none => match signedOf? 64 cs with
    | some v => some (v, false)
    | none => match unsignedOf? 128 cs with
      | some v => some (v, true)
      | none => (signedOf? 128 cs).map fun v => (v, true)

/-- A decimal number: an optional sign, digits with an optional point (at least one
digit), and an optional exponent; as sign, digits and power of ten. -/
def decimalOf? (cs : List Char) : Option (Bool × Nat × Int) := do
  let (negative, cs) := match cs with
    | '-' :: r => (true, r)
    | '+' :: r => (false, r)
    | r => (false, r)
  let whole := cs.takeWhile Char.isDigit
  let cs := cs.drop whole.length
  let (fraction, cs) := match cs with
    | '.' :: r => (r.takeWhile Char.isDigit, r.drop (r.takeWhile Char.isDigit).length)
    | r => ([], r)
  if whole.isEmpty && fraction.isEmpty then none
  let exponent ← match cs with
    | [] => some (0 : Int)
    | e :: r =>
      if e != 'e' && e != 'E' then none
      else
        let (neg, ds) := match r with
          | '-' :: d => (true, d)
          | '+' :: d => (false, d)
          | d => (false, d)
        (digitsValue? 10 ds).bind fun v =>
          if ds.all Char.isDigit then some (if neg then -(v : Int) else v) else none
  let mantissa ← digitsValue? 10 (whole ++ fraction)
  pure (negative, mantissa, exponent - fraction.length)

/-- The binary64 value nearest to `m × 10 ^ e`, ties to even; far outside the range it is
an infinity or a zero without computing the power. -/
def Binary64.ofDecimal (negative : Bool) (m : Nat) (e : Int) : Binary64 :=
  let size := (Nat.toDigits 10 m).length
  if m == 0 then Binary64.signedZero negative
  else if e + size > 400 then Binary64.infinity negative
  else if e + size < -400 then Binary64.signedZero negative
  else match e with
    | .ofNat k => Binary64.ofRatio negative (m * Nat.pow 10 k) 1
    | .negSucc k => Binary64.ofRatio negative m (Nat.pow 10 (k + 1))

/-- The float a scalar spells, if it is finite or one of the spelled infinities and NaN. -/
def floatOf? (s : String) : Option Binary64 :=
  let cs := s.toList
  let unpositive? := match cs with
    | '+' :: r => if startsWithSign r then none else some r
    | r => some r
  unpositive?.bind fun u =>
    let u' := String.ofList u
    if u' == ".inf" || u' == ".Inf" || u' == ".INF" then some (Binary64.infinity false)
    else if s == "-.inf" || s == "-.Inf" || s == "-.INF" then some (Binary64.infinity true)
    else if s == ".nan" || s == ".NaN" || s == ".NAN" then some Binary64.nan
    else (decimalOf? u).bind fun (negative, m, e) =>
      let x := Binary64.ofDecimal negative m e
      if x.isFinite then some x else none

/-- How a plain scalar without a tag reads. -/
def Reading.ofPlain (s : String) : Reading :=
  if s.isEmpty || isNull s then .null
  else match boolOf? s with
    | some b => .bool b
    | none => match integerOf? s with
      | some (i, wide) => .integer i wide
      | none =>
        match (if digitsButNotNumber s.toList then none else floatOf? s) with
        | some x => .float x
        | none => .text s

/-- The text of a float in messages: the shortest digits, never in scientific form,
with `.0` after an integer; `inf`, `-inf` and `NaN` otherwise. -/
def floatMessageText (x : Binary64) : String :=
  if x.isNaN then "NaN"
  else if !x.isFinite then (if x.negative then "-inf" else "inf")
  else Decimal.Notation.write ⟨none, none⟩ x

/-- How a value that was not wanted is named in messages. -/
def Reading.describe : Reading → String
  | .null => "unit value"
  | .bool b => "boolean `" ++ toString b ++ "`"
  | .integer i false => "integer `" ++ toString i ++ "`"
  | .integer i true => "integer `" ++ toString i ++ "` as " ++ (if i < 0 then "i128" else "u128")
  | .float x => "floating point `" ++ floatMessageText x ++ "`"
  | .text s => "string " ++ Text.quoted s

end Yaml
end QirGen
