import QirGen.Binary64.Basic

/-!
# Rounding to binary64

`Binary64.ofRatio` is the one rounding of the library: the binary64 value nearest to a
nonnegative fraction, a tie going to the even significand, and magnitudes from
`2^1024 - 2^970` upwards going to infinity. Conversions from integers and the products
and quotients of finite values are that rounding applied to the exact result, which is
what IEEE 754 asks of them.
-/

namespace QirGen
namespace Binary64

/-- `⌊log₂ (n / d)⌋` for positive `n` and `d`. -/
def floorLog2Ratio (n d : Nat) : Int :=
  let l : Int := (n.log2 : Int) - d.log2
  let atLeast : Bool := match l with
    | .ofNat k => decide (d * Nat.pow 2 k ≤ n)
    | .negSucc k => decide (d ≤ n * Nat.pow 2 (k + 1))
  if atLeast then l else l - 1

/-- `n / d` rounded to an integer, a tie going to the even neighbour. -/
def roundHalfEven (n d : Nat) : Nat :=
  let q := n / d
  let r := n % d
  if 2 * r > d ∨ (2 * r = d ∧ q % 2 = 1) then q + 1 else q

/-- `n / (d * 2^e)` rounded half-even, for an exponent of either sign. -/
def roundScaled (n d : Nat) (e : Int) : Nat :=
  match e with
  | .ofNat k => roundHalfEven n (d * Nat.pow 2 k)
  | .negSucc k => roundHalfEven (n * Nat.pow 2 (k + 1)) d

/-- The pattern for a significand `m ≤ 2^53` at scale `e ≥ -1074`, after rounding. -/
def ofRounded (negative : Bool) (m : Nat) (e : Int) : Binary64 :=
  let (m, e) := if m = Nat.pow 2 53 then (Nat.pow 2 52, e + 1) else (m, e)
  if e > 971 then infinity negative
  else if m < Nat.pow 2 52 then ofFields negative 0 m
  else ofFields negative (e + 1075).toNat (m - Nat.pow 2 52)

/-- The binary64 value nearest to `n / d` with the given sign; `d = 0` counts as zero. -/
def ofRatio (negative : Bool) (n d : Nat) : Binary64 :=
  if n = 0 ∨ d = 0 then signedZero negative
  else
    let e := max (-1074) (floorLog2Ratio n d - 52)
    ofRounded negative (roundScaled n d e) e

/-- The binary64 value nearest to a natural number. -/
def ofNat (n : Nat) : Binary64 := ofRatio false n 1

/-- The binary64 value nearest to an integer (`0` gives positive zero). -/
def ofInt (i : Int) : Binary64 :=
  match i with
  | .ofNat n => ofNat n
  | .negSucc n => ofRatio true (n + 1) 1

/-- The rounded product of two finite values. -/
def mulFinite (x y : Binary64) : Binary64 :=
  ofRatio (x.negative != y.negative) (x.magnitude.1 * y.magnitude.1)
    (x.magnitude.2 * y.magnitude.2)

/-- The rounded quotient of two finite values, the divisor nonzero. -/
def divFinite (x y : Binary64) : Binary64 :=
  ofRatio (x.negative != y.negative) (x.magnitude.1 * y.magnitude.2)
    (x.magnitude.2 * y.magnitude.1)

/-- The binary64 value nearest to `10^k`. -/
def tenPow (k : Nat) : Binary64 := ofNat (Nat.pow 10 k)

/-- Whether the decimal `digits * 10^exp` with the given sign reads back as exactly `x`. -/
def readsBackAs (negative : Bool) (digits : Nat) (exp : Int) (x : Binary64) : Bool :=
  let y := match exp with
    | .ofNat k => ofRatio negative (digits * Nat.pow 10 k) 1
    | .negSucc k => ofRatio negative digits (Nat.pow 10 (k + 1))
  y == x

end Binary64
end QirGen
