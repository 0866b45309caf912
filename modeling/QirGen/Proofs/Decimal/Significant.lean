import QirGen.Decimal.Significant
import Mathlib.Algebra.Order.Field.Basic
import Mathlib.Algebra.Order.Field.Power
import Mathlib.Data.Rat.Cast.Order
import Mathlib.Tactic.FieldSimp
import Mathlib.Tactic.Linarith
import Mathlib.Tactic.Ring

/-!
# Significant digits

`Decimal.ofRatioSignificant p n d` rounds a positive fraction `n / d` to `p` significant digits.
Its exponent comes from `floorLog10Ratio`, which finds the decade of the fraction: scaled by that
power of ten, the fraction lies in `[1, 10)` (`floorLog10Ratio_spec`). Scaled by a power `p - 1`
lower it lies in `[10^(p-1), 10^p)`, so its rounding has `p` digits, a carry to `10^p` being
written `10^(p-1)` one decade up (`ofRatioSignificant_digits`). Over the rationals, that is
the rounding of `n / d` half-even to `p` significant digits
(`isSignificantRounding_ofRatioSignificant`), and no other decimal is.

Fractions scaled by powers of ten are compared by cross-multiplication, so everything stays in
`Nat`.
-/

namespace QirGen
namespace Decimal

/-- The digits counted are those `Nat.toDigits` writes. -/
theorem digitCount_eq_length (n : Nat) : digitCount n = (Nat.toDigits 10 n).length := by
  induction n using Nat.strongRecOn with
  | ind n ih =>
    rw [digitCount, Nat.toDigits_eq_if (by decide)]
    by_cases h : n < 10
    · simp [h]
    · simp [h, ih (n / 10) (Nat.div_lt_self (by omega) (by decide))]

theorem one_le_digitCount (n : Nat) : 1 ≤ digitCount n := by
  rw [digitCount_eq_length]
  exact Nat.length_toDigits_pos

/-- A number has fewer digits than the next power of ten. -/
theorem lt_pow_digitCount (n : Nat) : n < Nat.pow 10 (digitCount n) := by
  rw [digitCount_eq_length, Nat.pow_eq]
  exact (Nat.length_toDigits_le_iff (by decide) Nat.length_toDigits_pos).1 (Nat.le_refl _)

/-- A positive number reaches the power of ten below its digit count. -/
theorem pow_digitCount_le {n : Nat} (hn : 0 < n) : Nat.pow 10 (digitCount n - 1) ≤ n := by
  have hpos := one_le_digitCount n
  by_cases hk : digitCount n - 1 = 0
  · rw [hk]
    exact hn
  · -- fewer digits would need a smaller number
    refine Nat.le_of_not_lt fun hlt => ?_
    rw [digitCount_eq_length, Nat.pow_eq] at hlt
    rw [digitCount_eq_length] at hk hpos
    have := (Nat.length_toDigits_le_iff (by decide) (Nat.pos_of_ne_zero hk)).2 hlt
    omega

/-- One power of ten up is ten times more. -/
theorem pow_ten_succ (t : Nat) : Nat.pow 10 (t + 1) = 10 * Nat.pow 10 t := Nat.mul_comm _ _

/-- A positive number lies in the decade its digit count gives. -/
theorem digitCount_decade {m : Nat} (hm : 0 < m) :
    ∃ t, digitCount m = t + 1 ∧ Nat.pow 10 t ≤ m ∧ m < 10 * Nat.pow 10 t := by
  obtain ⟨t, ht⟩ : ∃ t, digitCount m = t + 1 :=
    ⟨_, (Nat.sub_add_cancel (one_le_digitCount m)).symm⟩
  have hlo := pow_digitCount_le hm
  have hhi := lt_pow_digitCount m
  rw [ht, Nat.add_sub_cancel] at hlo
  rw [ht, pow_ten_succ] at hhi
  exact ⟨t, ht, hlo, hhi⟩

/-- Scaling `n / d` by `10^k` multiplies the numerator by a power of ten for a negative `k`,
and the denominator by one for a positive `k`. -/
theorem divPow10_eq (n d : Nat) (k : Int) :
    divPow10 n d k = (n * Nat.pow 10 (-k).toNat, d * Nat.pow 10 k.toNat) := by
  cases k with
  | ofNat j => simp [divPow10]
  | negSucc j =>
    have h : (-Int.negSucc j).toNat = j + 1 := by omega
    simp only [divPow10, h, Int.toNat_negSucc, Nat.pow_eq, Nat.pow_zero, Nat.mul_one]

theorem divPow10_snd_pos {d : Nat} (hd : 0 < d) (n : Nat) (k : Int) : 0 < (divPow10 n d k).2 := by
  rw [divPow10_eq]
  exact Nat.mul_pos hd (Nat.pow_pos (by decide))

/-- Scaling by a power of ten `j` lower multiplies the scaled fraction by `10^j`, compared by
cross-multiplication. -/
theorem divPow10_sub (n d : Nat) (k : Int) (j : Nat) :
    (divPow10 n d (k - j)).1 * (divPow10 n d k).2 =
      Nat.pow 10 j * (divPow10 n d k).1 * (divPow10 n d (k - j)).2 := by
  simp only [divPow10_eq, Nat.pow_eq]
  have he : (-(k - j)).toNat + k.toNat = j + (-k).toNat + (k - j).toNat := by omega
  rw [Nat.mul_mul_mul_comm, ← Nat.pow_add, he, Nat.pow_add, Nat.pow_add]
  ac_rfl

/-- `floorLog10Ratio n d` is the decade of `n / d`: scaled by it, the fraction lies in
`[1, 10)`. -/
theorem floorLog10Ratio_spec {n d : Nat} (hn : 0 < n) (hd : 0 < d) :
    (divPow10 n d (floorLog10Ratio n d)).2 ≤ (divPow10 n d (floorLog10Ratio n d)).1 ∧
      (divPow10 n d (floorLog10Ratio n d)).1 < 10 * (divPow10 n d (floorLog10Ratio n d)).2 := by
  unfold floorLog10Ratio
  split
  · -- at least one: the decade of the integer part `q`
    rename_i hle
    obtain ⟨t, ht, hlo, hhi⟩ := digitCount_decade (Nat.div_pos hle hd)
    have he : ((digitCount (n / d) : Nat) : Int) - 1 = (t : Int) := by omega
    rw [he]
    simp only [divPow10]
    constructor
    · exact Nat.le_trans (Nat.mul_le_mul_left d hlo) (Nat.mul_div_le n d)
    · calc n < d * (n / d + 1) := Nat.lt_mul_div_succ n hd
        _ ≤ d * (10 * Nat.pow 10 t) := Nat.mul_le_mul_left d hhi
        _ = 10 * (d * Nat.pow 10 t) := by ac_rfl
  · -- below one: `c` is the least number of `n`s reaching `d`, and `c - 1 ≥ 1` sets the decade
    rename_i hlt
    have hdiv := Nat.div_add_mod (d + n - 1) n
    have hmod := Nat.mod_lt (d + n - 1) hn
    generalize hc : (d + n - 1) / n = c at hdiv
    have hcd : d ≤ n * c := by omega
    have hcd' : n * (c - 1) < d := by rw [Nat.mul_sub_one]; omega
    have hc1 : 1 ≤ c - 1 := by
      refine Nat.le_of_not_lt fun h => ?_
      have : n * c ≤ n * 1 := Nat.mul_le_mul_left n (by omega)
      omega
    obtain ⟨t, ht, hlo, hhi⟩ := digitCount_decade (Nat.lt_of_lt_of_le Nat.zero_lt_one hc1)
    have he : -(((digitCount (c - 1) : Nat) : Int)) = Int.negSucc t := by omega
    rw [he]
    simp only [divPow10]
    constructor
    · exact Nat.le_trans hcd (Nat.mul_le_mul_left n (by rw [pow_ten_succ]; omega))
    · calc n * Nat.pow 10 (t + 1) = 10 * (n * Nat.pow 10 t) := by rw [pow_ten_succ]; ac_rfl
        _ ≤ 10 * (n * (c - 1)) := Nat.mul_le_mul_left 10 (Nat.mul_le_mul_left n hlo)
        _ < 10 * d := by omega

/-- Rounding half-even gives the integer part or one more. -/
theorem roundHalfEven_bounds (n d : Nat) :
    n / d ≤ Binary64.roundHalfEven n d ∧ Binary64.roundHalfEven n d ≤ n / d + 1 := by
  unfold Binary64.roundHalfEven
  dsimp only
  split <;> omega

/-- **Significant digits.** Rounded to `p` significant digits, a positive fraction has exactly
`p` digits. -/
theorem ofRatioSignificant_digits {p n d : Nat} (hp : 0 < p) (hn : 0 < n) (hd : 0 < d) :
    Nat.pow 10 (p - 1) ≤ (ofRatioSignificant p n d).digits ∧
      (ofRatioSignificant p n d).digits < Nat.pow 10 p := by
  obtain ⟨hlo₀, hhi₀⟩ := floorLog10Ratio_spec hn hd
  have hcross := divPow10_sub n d (floorLog10Ratio n d) (p - 1)
  have hb₀ := divPow10_snd_pos hd n (floorLog10Ratio n d)
  have hb := divPow10_snd_pos hd n (floorLog10Ratio n d - (p - 1 : Nat))
  generalize divPow10 n d (floorLog10Ratio n d) = ab₀ at hlo₀ hhi₀ hcross hb₀
  obtain ⟨a₀, b₀⟩ := ab₀
  have hpow : Nat.pow 10 p = Nat.pow 10 (p - 1) * 10 := by
    rw [← Nat.sub_add_cancel hp]
    rfl
  unfold ofRatioSignificant
  dsimp only
  generalize divPow10 n d (floorLog10Ratio n d - (p - 1 : Nat)) = ab at hcross hb ⊢
  obtain ⟨a, b⟩ := ab
  dsimp only at hcross hb hlo₀ hhi₀ hb₀ ⊢
  -- the scaled fraction `a / b` lies in `[10^(p-1), 10^p)`
  have hlo : Nat.pow 10 (p - 1) * b ≤ a := by
    refine Nat.le_of_mul_le_mul_right ?_ hb₀
    calc Nat.pow 10 (p - 1) * b * b₀ ≤ Nat.pow 10 (p - 1) * a₀ * b := by
          rw [Nat.mul_right_comm]
          exact Nat.mul_le_mul_right b (Nat.mul_le_mul_left _ hlo₀)
      _ = a * b₀ := hcross.symm
  have hhi : a < Nat.pow 10 p * b := by
    refine Nat.lt_of_mul_lt_mul_right (a := b₀) ?_
    calc a * b₀ = Nat.pow 10 (p - 1) * a₀ * b := hcross
      _ < Nat.pow 10 (p - 1) * (10 * b₀) * b :=
          Nat.mul_lt_mul_of_pos_right
            (Nat.mul_lt_mul_of_pos_left hhi₀ (Nat.pow_pos (by decide))) hb
      _ = Nat.pow 10 p * b * b₀ := by rw [hpow]; ac_rfl
  have hq₁ : Nat.pow 10 (p - 1) ≤ a / b := (Nat.le_div_iff_mul_le hb).2 hlo
  have hq₂ : a / b < Nat.pow 10 p := (Nat.div_lt_iff_lt_mul hb).2 hhi
  obtain ⟨hc₁, hc₂⟩ := roundHalfEven_bounds a b
  have hlt : Nat.pow 10 (p - 1) < Nat.pow 10 p := by
    rw [hpow]
    have : 0 < Nat.pow 10 (p - 1) := Nat.pow_pos (by decide)
    omega
  split
  · exact ⟨Nat.le_refl _, hlt⟩
  · dsimp only
    constructor <;> omega

/-! ## The rounding, stated over the rationals

`IsSignificantRounding p r d` says what rounding to `p` significant digits is without the
arithmetic that computes it: the decade of `r`, the half-even rounding at the place of the
`p`-th digit, and a `p`-digit decimal of that value. A positive rational has one such
decimal (`IsSignificantRounding.unique`), and `ofRatioSignificant` computes it
(`isSignificantRounding_ofRatioSignificant`). -/

/-- `c` is `q` rounded to the nearest integer, a tie going to the even one. -/
def RoundsHalfEvenTo (q : ℚ) (c : ℕ) : Prop :=
  |q - c| < 1 / 2 ∨ (|q - c| = 1 / 2 ∧ c % 2 = 0)

/-- `d` is the rational `r ≥ 0` rounded half-even to `p` significant digits. Zero has the
digits zero. Otherwise `r` lies in a decade `[10^k, 10^(k+1))`, is rounded at the place
`10^(k-p+1)` of its `p`-th digit, and `d` writes the rounded value with exactly `p` digits. -/
def IsSignificantRounding (p : ℕ) (r : ℚ) (d : Decimal) : Prop :=
  (r = 0 ∧ d.digits = 0) ∨
    (Nat.pow 10 (p - 1) ≤ d.digits ∧ d.digits < Nat.pow 10 p ∧
      ∃ k : ℤ, 10 ^ k ≤ r ∧ r < 10 ^ (k + 1) ∧
        ∃ c, RoundsHalfEvenTo (r / 10 ^ (k - (p - 1 : ℕ))) c ∧
          (d.digits : ℚ) * 10 ^ d.exponent = c * 10 ^ (k - (p - 1 : ℕ)))

/-- Rounding `a / b` compares twice the distance `|a - c·b|` with `b`. -/
theorem roundsHalfEvenTo_div_iff {a b : ℕ} (hb : 0 < b) (c : ℕ) :
    RoundsHalfEvenTo ((a : ℚ) / b) c ↔
      2 * |(a : ℚ) - c * b| < b ∨ (2 * |(a : ℚ) - c * b| = b ∧ c % 2 = 0) := by
  have hbq : (0 : ℚ) < b := by exact_mod_cast hb
  have hdist : |(a : ℚ) / b - c| = |(a : ℚ) - c * b| / b := by
    rw [← abs_of_pos hbq, ← abs_div, abs_of_pos hbq]
    congr 1
    field_simp
  have hlt : |(a : ℚ) - c * b| / b < 1 / 2 ↔ 2 * |(a : ℚ) - c * b| < b := by
    rw [div_lt_iff₀ hbq]
    constructor <;> intro h <;> linarith
  have heq : |(a : ℚ) - c * b| / b = 1 / 2 ↔ 2 * |(a : ℚ) - c * b| = b := by
    rw [div_eq_iff hbq.ne']
    constructor <;> intro h <;> linarith
  unfold RoundsHalfEvenTo
  rw [hdist, hlt, heq]

/-- `roundHalfEven` rounds half-even. -/
theorem roundsHalfEvenTo_roundHalfEven {a b : ℕ} (hb : 0 < b) :
    RoundsHalfEvenTo ((a : ℚ) / b) (Binary64.roundHalfEven a b) := by
  have hr := Nat.mod_lt a hb
  have hsplit : (a : ℚ) = (a / b : ℕ) * b + (a % b : ℕ) := by
    exact_mod_cast (Nat.div_add_mod' a b).symm
  rw [roundsHalfEvenTo_div_iff hb]
  unfold Binary64.roundHalfEven
  dsimp only
  split
  · -- rounded up: the distance is `b - r`
    rename_i hup
    have hrq : ((a % b : ℕ) : ℚ) < b := by exact_mod_cast hr
    have hd : |(a : ℚ) - ((a / b + 1 : ℕ) : ℚ) * b| = b - (a % b : ℕ) := by
      rw [hsplit, abs_sub_comm]
      push_cast
      rw [abs_of_nonneg (by linarith)]
      ring
    rw [hd]
    rcases hup with h | ⟨h, hodd⟩
    · left
      have : (b : ℚ) < 2 * (a % b : ℕ) := by exact_mod_cast h
      linarith
    · right
      have : 2 * ((a % b : ℕ) : ℚ) = b := by exact_mod_cast h
      exact ⟨by linarith, by omega⟩
  · -- rounded down: the distance is `r`
    rename_i hdown
    have hd : |(a : ℚ) - ((a / b : ℕ) : ℚ) * b| = (a % b : ℕ) := by
      rw [hsplit, add_sub_cancel_left, abs_of_nonneg (by positivity)]
    rw [hd]
    by_cases h : 2 * (a % b) < b
    · left
      exact_mod_cast h
    · right
      have h2 : 2 * (a % b) = b := by omega
      refine ⟨by exact_mod_cast h2, by omega⟩

/-- The scaled fraction `divPow10 n d k` is `n / d` divided by `10^k`. -/
theorem divPow10_div (n d : ℕ) (k : ℤ) :
    ((divPow10 n d k).1 : ℚ) / (divPow10 n d k).2 = (n / d : ℚ) / 10 ^ k := by
  rw [divPow10_eq]
  cases k with
  | ofNat j =>
    simp only [Int.ofNat_eq_natCast, Int.toNat_neg_natCast, Nat.pow_eq, pow_zero, mul_one,
      Int.toNat_natCast, Nat.cast_mul, Nat.cast_pow, Nat.cast_ofNat, zpow_natCast]
    ring
  | negSucc j =>
    simp only [Int.neg_negSucc, Nat.cast_add, Nat.cast_one, Int.toNat_natCast_add_one,
      Nat.pow_eq, Nat.cast_mul, Nat.cast_pow, Nat.cast_ofNat, Int.toNat_negSucc, pow_zero, mul_one,
      zpow_negSucc, div_inv_eq_mul]
    ring


/-- Two integers that both round `q` half-even are equal. -/
theorem RoundsHalfEvenTo.unique {q : ℚ} {c c' : ℕ} (h : RoundsHalfEvenTo q c)
    (h' : RoundsHalfEvenTo q c') : c = c' := by
  by_contra hne
  have hone : (1 : ℚ) ≤ |(c : ℚ) - c'| := by
    have : (1 : ℤ) ≤ |(c : ℤ) - c'| := Int.one_le_abs (by omega)
    exact_mod_cast this
  have htri : |(c : ℚ) - c'| ≤ |q - c| + |q - c'| :=
    calc |(c : ℚ) - c'| ≤ |(c : ℚ) - q| + |q - c'| := abs_sub_le _ _ _
      _ = |q - c| + |q - c'| := by rw [abs_sub_comm (c : ℚ) q]
  rcases h with h | ⟨h, hc⟩ <;> rcases h' with h' | ⟨h', hc'⟩
  · linarith
  · linarith
  · linarith
  · -- both ties: two even integers one apart
    have hle : |(c : ℤ) - c'| ≤ 1 := by
      have : |(c : ℚ) - c'| ≤ 1 := by linarith
      exact_mod_cast this
    rw [abs_le] at hle
    omega

/-- A positive rational lies in one decade only. -/
theorem decade_le {r : ℚ} {k k' : ℤ} (h : 10 ^ k ≤ r) (h' : r < 10 ^ (k' + 1)) :
    k ≤ k' := by
  by_contra hlt
  have : (10 : ℚ) ^ (k' + 1) ≤ 10 ^ k := zpow_le_zpow_right₀ (by norm_num) (by omega)
  linarith

/-- Of two decimals of `p` digits with one value, neither has the larger exponent. -/
theorem exponent_le_of_value_eq {p m m' : ℕ} {e e' : ℤ} (hm : Nat.pow 10 (p - 1) ≤ m)
    (hm' : m' < Nat.pow 10 p) (h : (m : ℚ) * 10 ^ e = m' * 10 ^ e') : e ≤ e' := by
  by_contra hlt
  -- then `m' = m · 10^j` for some `j ≥ 1`, too many digits
  obtain ⟨j, hj⟩ : ∃ j : ℕ, e = e' + (j + 1 : ℕ) := ⟨(e - e' - 1).toNat, by omega⟩
  have hq : ((m * Nat.pow 10 (j + 1) : ℕ) : ℚ) = m' := by
    rw [hj, zpow_add₀ (by norm_num), zpow_natCast] at h
    have h10 : (10 : ℚ) ^ e' ≠ 0 := zpow_ne_zero _ (by norm_num)
    push_cast [Nat.pow_eq]
    exact mul_right_cancel₀ h10 (by rw [← h]; ring)
  have hn : m * Nat.pow 10 (j + 1) = m' := by exact_mod_cast hq
  have hp : Nat.pow 10 p ≤ 10 * Nat.pow 10 (p - 1) := by
    cases p with
    | zero => decide
    | succ p => exact Nat.le_of_eq (pow_ten_succ p)
  have hj10 : 10 ≤ Nat.pow 10 (j + 1) := by
    rw [pow_ten_succ]
    exact Nat.le_mul_of_pos_right 10 (Nat.pow_pos (by decide))
  have : 10 * Nat.pow 10 (p - 1) ≤ m * Nat.pow 10 (j + 1) :=
    Nat.mul_comm 10 _ ▸ Nat.mul_le_mul hm hj10
  omega


/-- Decimals of `p` digits are equal when their values are. -/
theorem eq_of_value_eq {p : ℕ} {d d' : Decimal} (hlo : Nat.pow 10 (p - 1) ≤ d.digits)
    (hhi : d.digits < Nat.pow 10 p) (hlo' : Nat.pow 10 (p - 1) ≤ d'.digits)
    (hhi' : d'.digits < Nat.pow 10 p)
    (h : (d.digits : ℚ) * 10 ^ d.exponent = d'.digits * 10 ^ d'.exponent) : d = d' := by
  have he : d.exponent = d'.exponent :=
    le_antisymm (exponent_le_of_value_eq hlo hhi' h) (exponent_le_of_value_eq hlo' hhi h.symm)
  have hm : d.digits = d'.digits := by
    rw [he] at h
    exact_mod_cast mul_right_cancel₀ (zpow_ne_zero _ (by norm_num)) h
  cases d
  cases d'
  dsimp only at he hm
  rw [he, hm]

/-- A positive rational has one rounding to `p` significant digits. -/
theorem IsSignificantRounding.unique {p : ℕ} {r : ℚ} {d d' : Decimal} (hr : 0 < r)
    (h : IsSignificantRounding p r d) (h' : IsSignificantRounding p r d') : d = d' := by
  rcases h with ⟨rfl, -⟩ | ⟨hlo, hhi, k, hk₁, hk₂, c, hc, hv⟩
  · exact absurd hr (lt_irrefl 0)
  rcases h' with ⟨rfl, -⟩ | ⟨hlo', hhi', k', hk₁', hk₂', c', hc', hv'⟩
  · exact absurd hr (lt_irrefl 0)
  -- the same decade, hence the same rounded value
  obtain rfl : k = k' := le_antisymm (decade_le hk₁ hk₂') (decade_le hk₁' hk₂)
  obtain rfl : c = c' := hc.unique hc'
  exact eq_of_value_eq hlo hhi hlo' hhi' (hv.trans hv'.symm)

/-- `floorLog10Ratio n d` is the decade of `n / d`. -/
theorem decade_floorLog10Ratio {n d : ℕ} (hn : 0 < n) (hd : 0 < d) :
    (10 : ℚ) ^ floorLog10Ratio n d ≤ n / d ∧
      (n / d : ℚ) < 10 ^ (floorLog10Ratio n d + 1) := by
  obtain ⟨hlo, hhi⟩ := floorLog10Ratio_spec hn hd
  have hab := divPow10_div n d (floorLog10Ratio n d)
  have hb := divPow10_snd_pos hd n (floorLog10Ratio n d)
  have h10 : (0 : ℚ) < 10 ^ floorLog10Ratio n d := zpow_pos (by norm_num) _
  generalize divPow10 n d (floorLog10Ratio n d) = ab at hlo hhi hab hb
  obtain ⟨a, b⟩ := ab
  dsimp only at hlo hhi hab hb
  have hbq : (0 : ℚ) < b := by exact_mod_cast hb
  rw [zpow_add_one₀ (by norm_num)]
  constructor
  · have h1 : (1 : ℚ) ≤ a / b := (one_le_div hbq).2 (by exact_mod_cast hlo)
    rw [hab, le_div_iff₀ h10, one_mul] at h1
    exact h1
  · have h10' : (a : ℚ) / b < 10 := (div_lt_iff₀ hbq).2 (by exact_mod_cast hhi)
    rw [hab, div_lt_iff₀ h10] at h10'
    linarith

/-- **Rounding to significant digits.** `ofRatioSignificant p n d` is `n / d` rounded
half-even to `p` significant digits. -/
theorem isSignificantRounding_ofRatioSignificant {p n d : ℕ} (hp : 0 < p) (hn : 0 < n)
    (hd : 0 < d) : IsSignificantRounding p (n / d) (ofRatioSignificant p n d) := by
  obtain ⟨hlo, hhi⟩ := ofRatioSignificant_digits hp hn hd
  obtain ⟨hk₁, hk₂⟩ := decade_floorLog10Ratio hn hd
  right
  refine ⟨hlo, hhi, floorLog10Ratio n d, hk₁, hk₂, ?_⟩
  have hab := divPow10_div n d (floorLog10Ratio n d - (p - 1 : ℕ))
  have hb := divPow10_snd_pos hd n (floorLog10Ratio n d - (p - 1 : ℕ))
  unfold ofRatioSignificant
  dsimp only
  generalize divPow10 n d (floorLog10Ratio n d - (p - 1 : ℕ)) = ab at hab hb ⊢
  obtain ⟨a, b⟩ := ab
  dsimp only at hab hb ⊢
  refine ⟨Binary64.roundHalfEven a b, hab ▸ roundsHalfEvenTo_roundHalfEven hb, ?_⟩
  split
  · -- a carry to `10^p` is written `10^(p-1)` one decade up
    rename_i hc
    obtain ⟨q, rfl⟩ : ∃ q, p = q + 1 := ⟨p - 1, by omega⟩
    rw [hc, zpow_add_one₀ (by norm_num)]
    push_cast [Nat.pow_eq, Nat.add_sub_cancel]
    ring
  · rfl

end Decimal
end QirGen
