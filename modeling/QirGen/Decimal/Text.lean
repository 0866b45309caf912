import QirGen.Decimal.Shortest

/-!
# Writing shortest decimals

A `Decimal.Notation` fixes how the shortest digits of a binary64 value are written: the
range of decimal exponents written positionally and nothing else. Outside that range the
text is scientific, `D.DDDe+K` or `D.DDDe-K`. Positional text always has a decimal point,
`.0` being added to integers. With `value = 0.D × 10^k` (`D` the digits), `k` in the
range means positional.
-/

namespace QirGen
namespace Decimal

/-- Which exponents `k` of `0.D × 10^k` are written positionally: `low < k ≤ high`, where
a missing bound is no bound. -/
structure Notation where
  low : Option Int
  high : Option Int

/-- The digits `D` (no trailing zeros) and the exponent `k` with `value = 0.D × 10^k`. -/
def pointForm (d : Decimal) : String × Int :=
  let s := digitString d.digits
  (s, d.exponent + s.length)

/-- Positional text of `0.D × 10^k`, with at least one digit on each side of the point. -/
def positional (s : String) (k : Int) : String :=
  match k with
  | .ofNat n =>
      if s.length ≤ n then s ++ String.ofList (List.replicate (n - s.length) '0') ++ ".0"
      else if n = 0 then "0." ++ s
      else String.ofList (s.toList.take n) ++ "." ++ String.ofList (s.toList.drop n)
  | .negSucc n => "0." ++ String.ofList (List.replicate (n + 1) '0') ++ s

/-- Scientific text `D.DDDe±K` of `0.D × 10^k`; a single digit has no point. -/
def scientific (s : String) (k : Int) : String :=
  let head := String.ofList (s.toList.take 1)
  let tail := String.ofList (s.toList.drop 1)
  let e := k - 1
  let mantissa := if tail.isEmpty then head else head ++ "." ++ tail
  mantissa ++ "e" ++ (if e < 0 then "-" else "+") ++ digitString e.natAbs

/-- Whether `k` is in the positional range of the notation. -/
def Notation.isPositional (f : Notation) (k : Int) : Bool :=
  (match f.low with | some l => decide (l < k) | none => true) &&
  (match f.high with | some h => decide (k ≤ h) | none => true)

/-- The text of a finite value in the notation: a minus sign for a negative pattern, zero
as `0.0`, otherwise the shortest digits that read back. -/
def Notation.write (f : Notation) (x : Binary64) : String :=
  let sign := if x.negative then "-" else ""
  if x.isZero then sign ++ "0.0"
  else
    let (s, k) := pointForm (shortest x)
    sign ++ (if f.isPositional k then positional s k else scientific s k)

end Decimal
end QirGen
