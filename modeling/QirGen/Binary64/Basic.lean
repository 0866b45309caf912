/-!
# Binary64 values

A binary64 (IEEE 754 double precision) value is held as its 64-bit pattern. Every
operation the library needs (classification, the exact value of a finite pattern, the
hexadecimal spelling) is read off the three fields with `Nat` arithmetic, so equality is
equality of patterns: `-0.0` and `0.0` differ, and each NaN payload is its own value.

Main facts: a finite pattern is `(-1)^sign * significand * 2^scale`, with the significand
below `2^53` (`significand_lt`).
-/

namespace QirGen

/-- A binary64 value, identified with its bit pattern. -/
structure Binary64 where
  bits : UInt64
  deriving DecidableEq, Inhabited

namespace Binary64

/-- The stored fraction field: the low 52 bits. -/
def fraction (x : Binary64) : Nat := x.bits.toNat % Nat.pow 2 52

/-- The biased exponent field: bits 52 to 62. -/
def biasedExponent (x : Binary64) : Nat := x.bits.toNat / Nat.pow 2 52 % Nat.pow 2 11

/-- The sign bit: `true` for a negative pattern (including `-0.0`). -/
def negative (x : Binary64) : Bool := decide (Nat.pow 2 63 ≤ x.bits.toNat)

/-- Neither an infinity nor a NaN. -/
def isFinite (x : Binary64) : Bool := x.biasedExponent != 2047

/-- A NaN: all exponent bits set and a nonzero fraction. -/
def isNaN (x : Binary64) : Bool := x.biasedExponent == 2047 && x.fraction != 0

/-- The integer significand of a finite pattern, with the hidden bit of normal values. -/
def significand (x : Binary64) : Nat :=
  if x.biasedExponent = 0 then x.fraction else x.fraction + Nat.pow 2 52

/-- The power of two that scales the significand of a finite pattern. -/
def scale (x : Binary64) : Int :=
  if x.biasedExponent = 0 then -1074 else (x.biasedExponent : Int) - 1075

/-- The pattern with the given sign, biased exponent and fraction. -/
def ofFields (negative : Bool) (biasedExponent fraction : Nat) : Binary64 :=
  ⟨UInt64.ofNat ((if negative then Nat.pow 2 63 else 0) + biasedExponent * Nat.pow 2 52 +
    fraction)⟩

/-- Positive zero. -/
def zero : Binary64 := ofFields false 0 0

/-- Zero with the given sign. -/
def signedZero (negative : Bool) : Binary64 := ofFields negative 0 0

/-- Infinity with the given sign. -/
def infinity (negative : Bool) : Binary64 := ofFields negative 2047 0

/-- The quiet NaN with an empty payload and a clear sign bit. -/
def nan : Binary64 := ofFields false 2047 (Nat.pow 2 51)

/-- The same value with the sign bit flipped. -/
def neg (x : Binary64) : Binary64 := ⟨x.bits ^^^ 0x8000000000000000⟩

/-- Zero of either sign. -/
def isZero (x : Binary64) : Bool := x.biasedExponent == 0 && x.fraction == 0

/-- The exact magnitude of a finite pattern as a fraction `num / den` with `den` a power of two. -/
def magnitude (x : Binary64) : Nat × Nat :=
  match x.scale with
  | .ofNat k => (x.significand * Nat.pow 2 k, 1)
  | .negSucc k => (x.significand, Nat.pow 2 (k + 1))

/-- The 64-bit pattern as sixteen upper-case hexadecimal digits. -/
def hexDigits (x : Binary64) : String :=
  let digit (v : Nat) : Char :=
    if v < 10 then Char.ofNat (48 + v) else Char.ofNat (55 + v)
  String.ofList ((List.range 16).reverse.map fun i => digit (x.bits.toNat / Nat.pow 16 i % 16))

theorem significand_lt (x : Binary64) : x.significand < Nat.pow 2 53 := by
  unfold significand fraction
  have h := Nat.mod_lt x.bits.toNat (show 0 < Nat.pow 2 52 by decide)
  have h52 : Nat.pow 2 52 = 4503599627370496 := rfl
  have h53 : Nat.pow 2 53 = 9007199254740992 := rfl
  split <;> omega

end Binary64
end QirGen
