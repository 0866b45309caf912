/-!
# Decimals

A `Decimal` is a natural number of digits scaled by a power of ten. The helpers here
measure and compare such numbers against exact fractions in `Nat` arithmetic: the
number of decimal digits, `⌊log₁₀ (n / d)⌋`, and the order of `c * 10^k` against a
fraction `n / d`.
-/

namespace QirGen

/-- The number `digits * 10^exponent`. -/
structure Decimal where
  digits : Nat
  exponent : Int
  deriving DecidableEq, Inhabited

namespace Decimal

/-- The number of decimal digits of `n` (one for zero). -/
def digitCount (n : Nat) : Nat :=
  if h : n < 10 then 1 else digitCount (n / 10) + 1
termination_by n
decreasing_by omega

/-- The decimal digits of `n`, most significant first. -/
def digitString (n : Nat) : String :=
  String.ofList (Nat.toDigits 10 n)

/-- `⌊log₁₀ (n / d)⌋` for positive `n` and `d`. -/
def floorLog10Ratio (n d : Nat) : Int :=
  if d ≤ n then (digitCount (n / d) : Int) - 1
  else -((digitCount ((d + n - 1) / n - 1) : Nat) : Int)

/-- Compares `c * 10^k` with the fraction `n / d`. -/
def compareScaled (c : Nat) (k : Int) (n d : Nat) : Ordering :=
  match k with
  | .ofNat j => compare (c * Nat.pow 10 j * d) n
  | .negSucc j => compare (c * d) (n * Nat.pow 10 (j + 1))

/-- The fraction `n / (d * 10^k)`, as a numerator and a denominator. -/
def divPow10 (n d : Nat) (k : Int) : Nat × Nat :=
  match k with
  | .ofNat j => (n, d * Nat.pow 10 j)
  | .negSucc j => (n * Nat.pow 10 (j + 1), d)

/-- Drops trailing zero digits, raising the exponent to keep the value. -/
def normalize (x : Decimal) : Decimal :=
  if h : x.digits ≠ 0 ∧ x.digits % 10 = 0 then
    normalize ⟨x.digits / 10, x.exponent + 1⟩
  else x
termination_by x.digits
decreasing_by omega

end Decimal
end QirGen
