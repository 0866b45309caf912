import QirGen.Decimal.Basic
import QirGen.Binary64.Round

/-!
# Shortest decimal of a binary64 value

`Decimal.shortest x` is, for a finite nonzero `x`, the decimal with the fewest significant
digits that reads back as `x`, and of two such decimals the nearer one. A decimal reads
back as `x` when it lies in the interval of reals that round to `x`: half an ulp on each
side (a quarter below a power of two, where the spacing halves), ends included when the
significand is even. Some grid of `n ≤ 17` digits always has a point there, and if a grid
has a point in the interval then one of the two grid points around `x` is in it, so the
search only ever tests those two neighbours.
-/

namespace QirGen
namespace Decimal

/-- The rounding interval of a finite nonzero value, in units of `2^(scale - 2)`:
lower end, value, upper end, and whether the ends belong to it. -/
def roundingInterval (x : Binary64) : Nat × Nat × Nat × Bool :=
  let m := x.significand
  let gap := if m = Nat.pow 2 52 ∧ x.biasedExponent > 1 then 1 else 2
  (4 * m - gap, 4 * m, 4 * m + 2, m % 2 == 0)

/-- A unit `2^s` written as a fraction `num / den`. -/
def twoPow (s : Int) : Nat × Nat :=
  match s with
  | .ofNat k => (Nat.pow 2 k, 1)
  | .negSucc k => (1, Nat.pow 2 (k + 1))

/-- Whether `c * 10^k` lies in the rounding interval of `x`. -/
def inInterval (x : Binary64) (c : Nat) (k : Int) : Bool :=
  let (lo, _, hi, closed) := roundingInterval x
  let (u, den) := twoPow (x.scale - 2)
  let above := compareScaled c k (lo * u) den
  let below := compareScaled c k (hi * u) den
  if closed then above != .lt && below != .gt
  else above == .gt && below == .lt

/-- The nearer of the two `n`-digit neighbours of `x` that read back, if either does. -/
def neighbourOnGrid (x : Binary64) (n : Nat) : Option Decimal :=
  let (num, den) := x.magnitude
  let k := floorLog10Ratio num den - (n - 1 : Nat)
  let (a, b) := divPow10 num den k
  let lo := a / b
  let hi := lo + 1
  match inInterval x lo k, inInterval x hi k with
  | true, true =>
      -- both read back: the nearer wins, an exact tie goes to the even one
      match compareScaled (2 * lo + 1) k (2 * num) den with
      | .gt => some ⟨lo, k⟩
      | .lt => some ⟨hi, k⟩
      | .eq => some (if lo % 2 = 0 then ⟨lo, k⟩ else ⟨hi, k⟩)
  | true, false => some ⟨lo, k⟩
  | false, true => some ⟨hi, k⟩
  | false, false => none

/-- The first grid from `n` digits up to `n + fuel` with a neighbour that reads back. -/
def searchGrids (x : Binary64) (n : Nat) : Nat → Option Decimal
  | 0 => none
  | fuel + 1 =>
      match neighbourOnGrid x n with
      | some d => some d
      | none => searchGrids x (n + 1) fuel

/-- The shortest decimal that reads back as the finite nonzero `x`, without trailing
zero digits; the magnitude only (the sign is the caller's). -/
def shortest (x : Binary64) : Decimal :=
  normalize ((searchGrids x 1 17).getD ⟨x.magnitude.1, 0⟩)

end Decimal
end QirGen
