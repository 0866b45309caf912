import QirGen.Decimal.Basic
import QirGen.Binary64.Round

/-!
# Rounding to significant digits

`Decimal.ofRatioSignificant p n d` is the decimal with exactly `p` significant digits
nearest to `n / d`, a tie going to the even last digit. It is the rounding behind the
fixed-width scientific notation of IR double constants.
-/

namespace QirGen
namespace Decimal

/-- The `p`-digit decimal nearest to `n / d` (for positive `n`, `d` and `p`): the digits
lie in `[10^(p-1), 10^p)` and a tie goes to the even last digit. -/
def ofRatioSignificant (p n d : Nat) : Decimal :=
  let e := floorLog10Ratio n d
  let k := e - (p - 1 : Nat)
  let (a, b) := divPow10 n d k
  let c := Binary64.roundHalfEven a b
  if c = Nat.pow 10 p then ⟨Nat.pow 10 (p - 1), k + 1⟩ else ⟨c, k⟩

end Decimal
end QirGen
