import QirGen.Decimal.Shortest
import QirGen.Proofs.Ir.DoubleText
import Mathlib.Data.Nat.Cast.Order.Field

/-!
# How long the shortest digits are

`Decimal.shortest x` searches the grids of `1, 2, …, 17` significant digits for a neighbour of
`x` that reads back. The search never runs out: on the grid of seventeen digits the spacing
`10^k` is below the width of the rounding interval, because a significand below `2^53` is
below `10^16`, so of the two grid points around `x` one lies inside (`inInterval_grid`). Hence
the shortest digits are at most `10^17` and, with the decade of a binary64 value between
`10^-1075` and `10^1024`, the exponent stays within `±1100` (`shortest_bounds`).
-/

namespace QirGen
namespace Decimal

/-! ### Grids -/

/-- The exponent of the grid of `n` significant digits around `x`. -/
def gridExponent (x : Binary64) (n : Nat) : Int :=
  floorLog10Ratio x.magnitude.1 x.magnitude.2 - (n - 1 : Nat)

/-- The grid point of `n` significant digits at or below `x`. -/
def gridFloor (x : Binary64) (n : Nat) : Nat :=
  (divPow10 x.magnitude.1 x.magnitude.2 (gridExponent x n)).1 /
    (divPow10 x.magnitude.1 x.magnitude.2 (gridExponent x n)).2

/-- Scaled `j` decades below its own, a positive fraction lies in `[10^j, 10^(j+1))`. -/
theorem scaled_decade {n d : Nat} (hn : 0 < n) (hd : 0 < d) (j : Nat) :
    Nat.pow 10 j * (divPow10 n d (floorLog10Ratio n d - j)).2 ≤
        (divPow10 n d (floorLog10Ratio n d - j)).1 ∧
      (divPow10 n d (floorLog10Ratio n d - j)).1 <
        Nat.pow 10 (j + 1) * (divPow10 n d (floorLog10Ratio n d - j)).2 := by
  obtain ⟨hlo₀, hhi₀⟩ := floorLog10Ratio_spec hn hd
  have hcross := divPow10_sub n d (floorLog10Ratio n d) j
  have hb₀ := divPow10_snd_pos hd n (floorLog10Ratio n d)
  have hb := divPow10_snd_pos hd n (floorLog10Ratio n d - j)
  generalize divPow10 n d (floorLog10Ratio n d) = ab₀ at hlo₀ hhi₀ hcross hb₀
  generalize divPow10 n d (floorLog10Ratio n d - j) = ab at hcross hb ⊢
  obtain ⟨a₀, b₀⟩ := ab₀
  obtain ⟨a, b⟩ := ab
  dsimp only at hcross hb hlo₀ hhi₀ hb₀ ⊢
  constructor
  · refine Nat.le_of_mul_le_mul_right ?_ hb₀
    calc Nat.pow 10 j * b * b₀ ≤ Nat.pow 10 j * a₀ * b := by
          rw [Nat.mul_right_comm]
          exact Nat.mul_le_mul_right b (Nat.mul_le_mul_left _ hlo₀)
      _ = a * b₀ := hcross.symm
  · refine Nat.lt_of_mul_lt_mul_right (a := b₀) ?_
    calc a * b₀ = Nat.pow 10 j * a₀ * b := hcross
      _ < Nat.pow 10 j * (10 * b₀) * b :=
          Nat.mul_lt_mul_of_pos_right
            (Nat.mul_lt_mul_of_pos_left hhi₀ (Nat.pow_pos (by decide))) hb
      _ = Nat.pow 10 (j + 1) * b * b₀ := by rw [pow_ten_succ]; ac_rfl

/-- The grid point below a nonzero `x` has `n` digits. -/
theorem gridFloor_decade {x : Binary64} (hz : x.isZero = false) {n : Nat} (hn : 0 < n) :
    Nat.pow 10 (n - 1) ≤ gridFloor x n ∧ gridFloor x n < Nat.pow 10 n := by
  have hd := Binary64.magnitude_snd_pos x
  obtain ⟨hlo, hhi⟩ := scaled_decade (Binary64.magnitude_fst_pos hz) hd (n - 1)
  have hb := divPow10_snd_pos hd x.magnitude.1 (gridExponent x n)
  rw [Nat.sub_add_cancel hn] at hhi
  exact ⟨(Nat.le_div_iff_mul_le hb).2 hlo, (Nat.div_lt_iff_lt_mul hb).2 hhi⟩

/-- A neighbour found on a grid is one of the two grid points around `x`. -/
theorem neighbourOnGrid_eq_some {x : Binary64} {n : Nat} {d : Decimal}
    (h : neighbourOnGrid x n = some d) :
    d.exponent = gridExponent x n ∧ (d.digits = gridFloor x n ∨ d.digits = gridFloor x n + 1) := by
  unfold neighbourOnGrid at h
  unfold gridFloor gridExponent
  generalize x.magnitude = p at h ⊢
  obtain ⟨num, den⟩ := p
  dsimp only at h ⊢
  generalize divPow10 num den (floorLog10Ratio num den - (n - 1 : Nat)) = ab at h ⊢
  obtain ⟨a, b⟩ := ab
  dsimp only at h ⊢
  split at h
  · split at h
    · cases h
      exact ⟨rfl, .inl rfl⟩
    · cases h
      exact ⟨rfl, .inr rfl⟩
    · split at h
      · cases h
        exact ⟨rfl, .inl rfl⟩
      · cases h
        exact ⟨rfl, .inr rfl⟩
  · cases h
    exact ⟨rfl, .inl rfl⟩
  · cases h
    exact ⟨rfl, .inr rfl⟩
  · cases h

/-- A grid has a neighbour as soon as one of the two grid points around `x` reads back. -/
theorem neighbourOnGrid_isSome {x : Binary64} {n : Nat}
    (h : inInterval x (gridFloor x n) (gridExponent x n) = true ∨
      inInterval x (gridFloor x n + 1) (gridExponent x n) = true) :
    (neighbourOnGrid x n).isSome = true := by
  unfold neighbourOnGrid
  unfold gridFloor gridExponent at h
  generalize x.magnitude = p at h ⊢
  obtain ⟨num, den⟩ := p
  dsimp only at h ⊢
  generalize divPow10 num den (floorLog10Ratio num den - (n - 1 : Nat)) = ab at h ⊢
  obtain ⟨a, b⟩ := ab
  dsimp only at h ⊢
  split
  · split
    · rfl
    · rfl
    · split <;> rfl
  · rfl
  · rfl
  · rename_i h₁ h₂
    rw [h₁, h₂] at h
    simp at h

/-- The search stops at the first grid with a neighbour. -/
theorem searchGrids_eq_some {x : Binary64} {n fuel : Nat} {d : Decimal}
    (h : searchGrids x n fuel = some d) :
    ∃ m, n ≤ m ∧ m < n + fuel ∧ neighbourOnGrid x m = some d := by
  induction fuel generalizing n with
  | zero => simp [searchGrids] at h
  | succ fuel ih =>
    unfold searchGrids at h
    split at h
    · rename_i d' hd'
      cases h
      exact ⟨n, Nat.le_refl n, by omega, hd'⟩
    · obtain ⟨m, hm₁, hm₂, hm⟩ := ih h
      exact ⟨m, by omega, by omega, hm⟩

/-- The search finds something when its last grid has a neighbour. -/
theorem searchGrids_isSome {x : Binary64} {n fuel : Nat}
    (h : (neighbourOnGrid x (n + fuel)).isSome = true) : (searchGrids x n (fuel + 1)).isSome = true := by
  induction fuel generalizing n with
  | zero =>
    unfold searchGrids
    split
    · rfl
    · rename_i hn
      rw [Nat.add_zero, hn] at h
      simp at h
  | succ fuel ih =>
    unfold searchGrids
    split
    · rfl
    · exact ih (by rw [Nat.add_assoc, Nat.add_comm 1]; exact h)

/-! ### The interval test over the rationals -/

/-- `compareScaled` finds `c * 10^k` above the fraction exactly when it is. -/
theorem compareScaled_eq_gt (c : Nat) (k : Int) {n d : Nat} (hd : 0 < d) :
    compareScaled c k n d = .gt ↔ (n : ℚ) / d < c * 10 ^ k := by
  have hdq : (0 : ℚ) < d := by exact_mod_cast hd
  cases k with
  | ofNat j =>
    simp only [compareScaled, Nat.compare_eq_gt, Int.ofNat_eq_natCast, zpow_natCast,
      div_lt_iff₀ hdq]
    rw [Nat.pow_eq]
    exact_mod_cast Iff.rfl
  | negSucc j =>
    have hp : (0 : ℚ) < 10 ^ (j + 1) := by positivity
    simp only [compareScaled, Nat.compare_eq_gt, zpow_negSucc, ← div_eq_mul_inv,
      div_lt_div_iff₀ hdq hp]
    rw [Nat.pow_eq]
    exact_mod_cast Iff.rfl

/-- `compareScaled` finds `c * 10^k` below the fraction exactly when it is. -/
theorem compareScaled_eq_lt (c : Nat) (k : Int) {n d : Nat} (hd : 0 < d) :
    compareScaled c k n d = .lt ↔ (c : ℚ) * 10 ^ k < n / d := by
  have hdq : (0 : ℚ) < d := by exact_mod_cast hd
  cases k with
  | ofNat j =>
    simp only [compareScaled, Nat.compare_eq_lt, Int.ofNat_eq_natCast, zpow_natCast,
      lt_div_iff₀ hdq]
    rw [Nat.pow_eq]
    exact_mod_cast Iff.rfl
  | negSucc j =>
    have hp : (0 : ℚ) < 10 ^ (j + 1) := by positivity
    simp only [compareScaled, Nat.compare_eq_lt, zpow_negSucc, ← div_eq_mul_inv,
      div_lt_div_iff₀ hp hdq]
    rw [Nat.pow_eq]
    exact_mod_cast Iff.rfl

theorem twoPow_snd_pos (s : Int) : 0 < (twoPow s).2 := by
  cases s with
  | ofNat k => exact Nat.one_pos
  | negSucc k => exact Nat.pow_pos (by decide)

/-- `twoPow s` is `2^s` as a fraction. -/
theorem twoPow_div (s : Int) : ((twoPow s).1 : ℚ) / (twoPow s).2 = 2 ^ s := by
  cases s with
  | ofNat k =>
    simp [twoPow, Nat.pow_eq]
  | negSucc k =>
    simp [twoPow, Nat.pow_eq, zpow_negSucc]

/-- The magnitude of a finite value is its significand scaled by `2^scale`. -/
theorem magnitude_div (x : Binary64) :
    (x.magnitude.1 : ℚ) / x.magnitude.2 = x.significand * 2 ^ x.scale := by
  unfold Binary64.magnitude
  split
  · rename_i k hk
    rw [hk]
    simp [Nat.pow_eq]
  · rename_i k hk
    rw [hk]
    simp [Nat.pow_eq, zpow_negSucc, div_eq_mul_inv]

/-- A grid point strictly inside the rounding interval passes the interval test, whether or not
the ends belong to it. -/
theorem inInterval_of_between {x : Binary64} {c : Nat} {k : Int} {lo v hi : Nat} {closed : Bool}
    (hx : roundingInterval x = (lo, v, hi, closed))
    (h₁ : (lo : ℚ) * 2 ^ (x.scale - 2) < c * 10 ^ k)
    (h₂ : (c : ℚ) * 10 ^ k < hi * 2 ^ (x.scale - 2)) : inInterval x c k = true := by
  have hu := twoPow_div (x.scale - 2)
  have hpos := twoPow_snd_pos (x.scale - 2)
  unfold inInterval
  rw [hx]
  generalize twoPow (x.scale - 2) = ud at hu hpos ⊢
  obtain ⟨u, den⟩ := ud
  dsimp only at hu hpos ⊢
  have habove : compareScaled c k (lo * u) den = .gt := by
    rw [compareScaled_eq_gt c k hpos, Nat.cast_mul, mul_div_assoc, hu]
    exact h₁
  have hbelow : compareScaled c k (hi * u) den = .lt := by
    rw [compareScaled_eq_lt c k hpos, Nat.cast_mul, mul_div_assoc, hu]
    exact h₂
  rw [habove, hbelow]
  cases closed <;> rfl

theorem significand_pos {x : Binary64} (hz : x.isZero = false) : 0 < x.significand := by
  have h := Binary64.magnitude_fst_pos hz
  unfold Binary64.magnitude at h
  split at h
  · exact Nat.pos_of_ne_zero fun h0 => by simp [h0] at h
  · exact h

/-- The value lies between the grid point below it and the next one. -/
theorem gridFloor_between (x : Binary64) (n : Nat) :
    (gridFloor x n : ℚ) * 10 ^ gridExponent x n ≤ (x.magnitude.1 : ℚ) / x.magnitude.2 ∧
      (x.magnitude.1 : ℚ) / x.magnitude.2 < (gridFloor x n + 1) * 10 ^ gridExponent x n := by
  have hab := divPow10_div x.magnitude.1 x.magnitude.2 (gridExponent x n)
  have hb := divPow10_snd_pos (Binary64.magnitude_snd_pos x) x.magnitude.1 (gridExponent x n)
  have hT : (0 : ℚ) < 10 ^ gridExponent x n := zpow_pos (by norm_num) _
  unfold gridFloor
  generalize divPow10 x.magnitude.1 x.magnitude.2 (gridExponent x n) = ab at hab hb ⊢
  obtain ⟨a, b⟩ := ab
  dsimp only at hab hb ⊢
  have hbq : (0 : ℚ) < b := by exact_mod_cast hb
  rw [← le_div_iff₀ hT, ← div_lt_iff₀ hT, ← hab]
  constructor
  · exact Nat.cast_div_le
  · rw [div_lt_iff₀ hbq]
    have h := Nat.lt_mul_div_succ a hb
    rw [Nat.mul_comm] at h
    exact_mod_cast h

/-- **The seventeen-digit grid.** Around a finite nonzero value, one of the two grid points of
seventeen significant digits lies strictly inside the rounding interval. -/
theorem inInterval_grid {x : Binary64} (hz : x.isZero = false) :
    inInterval x (gridFloor x 17) (gridExponent x 17) = true ∨
      inInterval x (gridFloor x 17 + 1) (gridExponent x 17) = true := by
  -- the interval is `[(4m - g)u, (4m + 2)u]` around `x = 4mu`, with `u = 2^(scale - 2)`
  obtain ⟨g, hg₀, hg₂, hwide, hx⟩ : ∃ g : Nat, 0 < g ∧ g ≤ 2 ∧
      4 * x.significand < (g + 2) * Nat.pow 10 16 ∧
      roundingInterval x = (4 * x.significand - g, 4 * x.significand, 4 * x.significand + 2,
        x.significand % 2 == 0) := by
    have hm := Binary64.significand_lt x
    have h53 : Nat.pow 2 53 < Nat.pow 10 16 := by decide
    unfold roundingInterval
    by_cases hc : x.significand = Nat.pow 2 52 ∧ x.biasedExponent > 1
    · refine ⟨1, Nat.one_pos, by decide, ?_, by dsimp only; rw [if_pos hc]⟩
      rw [hc.1]
      decide
    · exact ⟨2, by decide, Nat.le_refl 2, by omega, by dsimp only; rw [if_neg hc]⟩
  have hm0 := significand_pos hz
  obtain ⟨hlo, hhi⟩ := gridFloor_between x 17
  obtain ⟨hdec, -⟩ := decade_floorLog10Ratio (Binary64.magnitude_fst_pos hz)
    (Binary64.magnitude_snd_pos x)
  rw [magnitude_div] at hlo hhi hdec
  generalize hT : (10 : ℚ) ^ gridExponent x 17 = T at hlo hhi
  -- the grid spacing `T` is a sixteenth decade below the value, so below the interval's width
  have hTpos : 0 < T := hT ▸ zpow_pos (by norm_num) _
  have hU : (0 : ℚ) < 2 ^ (x.scale - 2) := zpow_pos (by norm_num) _
  have hV : (x.significand : ℚ) * 2 ^ x.scale = 4 * x.significand * 2 ^ (x.scale - 2) := by
    rw [show x.scale = (x.scale - 2) + 2 by ring, zpow_add₀ two_ne_zero]
    norm_num
    ring
  have hT16 : T * 10 ^ 16 = 10 ^ floorLog10Ratio x.magnitude.1 x.magnitude.2 := by
    rw [← hT, gridExponent, ← zpow_natCast, ← zpow_add₀ (by norm_num)]
    congr 1
    omega
  have hwideq : (4 * x.significand : ℚ) < (g + 2) * 10 ^ 16 := by
    rw [Nat.pow_eq] at hwide
    exact_mod_cast hwide
  have hspacing : T < (g + 2) * 2 ^ (x.scale - 2) := by
    have h : T * 10 ^ 16 < (g + 2) * 2 ^ (x.scale - 2) * 10 ^ 16 := by
      calc T * 10 ^ 16 ≤ 4 * x.significand * 2 ^ (x.scale - 2) := by rw [hT16, ← hV]; exact hdec
        _ < (g + 2) * 10 ^ 16 * 2 ^ (x.scale - 2) := mul_lt_mul_of_pos_right hwideq hU
        _ = (g + 2) * 2 ^ (x.scale - 2) * 10 ^ 16 := by ring
    exact lt_of_mul_lt_mul_right h (by norm_num)
  have hcast : ((4 * x.significand - g : Nat) : ℚ) = 4 * x.significand - g := by
    rw [Nat.cast_sub (by omega)]
    push_cast
    ring
  rw [hV] at hlo hhi
  by_cases hbelow : ((4 * x.significand - g : Nat) : ℚ) * 2 ^ (x.scale - 2) < gridFloor x 17 * T
  · -- the grid point below is inside
    left
    refine inInterval_of_between hx ?_ ?_
    · rw [hT]
      exact hbelow
    · rw [hT]
      push_cast
      linarith
  · -- the grid point below is too far down, so the one above is inside
    right
    rw [not_lt, hcast] at hbelow
    have hgU : (0 : ℚ) < g * 2 ^ (x.scale - 2) := mul_pos (by exact_mod_cast hg₀) hU
    refine inInterval_of_between hx ?_ ?_
    · rw [hcast, hT]
      push_cast
      linarith
    · rw [hT]
      push_cast
      linarith

/-! ### Normalized digits and their exponent -/

/-- Dropping trailing zeros divides the digits by a power of ten and raises the exponent by as
much; nonzero digits stay nonzero. -/
theorem normalize_spec (d : Decimal) (hd : 0 < d.digits) :
    ∃ t, d.digits = (normalize d).digits * Nat.pow 10 t ∧
      (normalize d).exponent = d.exponent + t ∧ 0 < (normalize d).digits := by
  fun_induction normalize d with
  | case1 d h ih =>
    obtain ⟨t, hdig, hexp, hpos⟩ := ih (by dsimp only; omega)
    dsimp only at hdig hexp
    generalize normalize ⟨d.digits / 10, d.exponent + 1⟩ = N at hdig hexp hpos ⊢
    refine ⟨t + 1, ?_, by rw [hexp]; omega, hpos⟩
    rw [pow_ten_succ]
    calc d.digits = 10 * (d.digits / 10) := (Nat.mul_div_cancel' (Nat.dvd_of_mod_eq_zero h.2)).symm
      _ = N.digits * (10 * Nat.pow 10 t) := by rw [hdig]; ac_rfl
  | case2 d h => exact ⟨0, by simp, by simp, hd⟩

/-- The scale of a finite value lies in `[-1074, 971]`. -/
theorem scale_range {x : Binary64} (hf : x.isFinite = true) : -1074 ≤ x.scale ∧ x.scale ≤ 971 := by
  have hbe : x.biasedExponent < 2048 := Nat.mod_lt _ (by decide)
  have hne : x.biasedExponent ≠ 2047 := by simpa [Binary64.isFinite] using hf
  unfold Binary64.scale
  split <;> omega

/-- A finite magnitude is below `2^e` for some `e ≤ 1024`, over a denominator of at most
`2^e'` for some `e' ≤ 1074`. -/
theorem magnitude_range {x : Binary64} (hf : x.isFinite = true) :
    (∃ e ≤ 1024, x.magnitude.1 < Nat.pow 2 e) ∧ ∃ e ≤ 1074, x.magnitude.2 ≤ Nat.pow 2 e := by
  have hscale := scale_range hf
  have hm := Binary64.significand_lt x
  unfold Binary64.magnitude
  split
  · rename_i k hk
    simp only [Int.ofNat_eq_natCast] at hk
    refine ⟨⟨53 + k, by omega, ?_⟩, 0, by omega, Nat.le_refl 1⟩
    calc x.significand * Nat.pow 2 k < Nat.pow 2 53 * Nat.pow 2 k :=
          Nat.mul_lt_mul_of_pos_right hm (Nat.pow_pos (by decide))
      _ = Nat.pow 2 (53 + k) := (Nat.pow_add 2 53 k).symm
  · rename_i k hk
    exact ⟨⟨53, by omega, hm⟩, k + 1, by omega, Nat.le_refl _⟩

/-- The decade of a finite nonzero binary64 value lies between `10^-1075` and `10^1024`. -/
theorem floorLog10Ratio_magnitude {x : Binary64} (hf : x.isFinite = true) (hz : x.isZero = false) :
    -1075 ≤ floorLog10Ratio x.magnitude.1 x.magnitude.2 ∧
      floorLog10Ratio x.magnitude.1 x.magnitude.2 < 1024 := by
  have hn := Binary64.magnitude_fst_pos hz
  have hd := Binary64.magnitude_snd_pos x
  obtain ⟨hlo, hhi⟩ := floorLog10Ratio_spec hn hd
  obtain ⟨⟨e, he, hnum⟩, e', he', hden⟩ := magnitude_range hf
  rw [divPow10_eq] at hlo hhi
  dsimp only at hlo hhi
  generalize floorLog10Ratio x.magnitude.1 x.magnitude.2 = f at hlo hhi ⊢
  -- powers of two are at most the powers of ten with the same exponent
  have h2e : Nat.pow 2 e ≤ Nat.pow 10 e := Nat.pow_le_pow_left (by decide) e
  have h2e' : Nat.pow 2 e' ≤ Nat.pow 10 e' := Nat.pow_le_pow_left (by decide) e'
  constructor
  · -- a value below `10^-1075` would be below a tenth of `1 / den`
    refine Int.not_lt.1 fun hlt => ?_
    rw [show f.toNat = 0 by omega, show Nat.pow 10 0 = 1 from rfl, Nat.mul_one] at hhi
    have hone : Nat.pow 10 (-f).toNat ≤ x.magnitude.1 * Nat.pow 10 (-f).toNat :=
      Nat.le_mul_of_pos_left _ hn
    have hlt' : Nat.pow 10 (-f).toNat < Nat.pow 10 (e' + 1) := by
      rw [pow_ten_succ]
      omega
    have := (Nat.pow_lt_pow_iff_right (by decide)).1 hlt'
    omega
  · -- a value from `10^1024` on would be at least `2^1024`
    refine Int.not_le.1 fun hle => ?_
    rw [show (-f).toNat = 0 by omega, show Nat.pow 10 0 = 1 from rfl, Nat.mul_one] at hlo
    have hone : Nat.pow 10 f.toNat ≤ x.magnitude.2 * Nat.pow 10 f.toNat :=
      Nat.le_mul_of_pos_left _ hd
    have hlt' : Nat.pow 10 f.toNat < Nat.pow 10 e := by omega
    have := (Nat.pow_lt_pow_iff_right (by decide)).1 hlt'
    omega

/-- **Shortest digits.** For a finite nonzero value, the shortest digits are positive and at
most `10^17`, and their exponent lies within `±1100`. -/
theorem shortest_bounds {x : Binary64} (hf : x.isFinite = true) (hz : x.isZero = false) :
    0 < (shortest x).digits ∧ (shortest x).digits ≤ Nat.pow 10 17 ∧
      (shortest x).exponent.natAbs ≤ 1100 := by
  -- the search succeeds, at the latest on the grid of seventeen digits
  obtain ⟨d, hd⟩ := Option.isSome_iff_exists.1
    (@searchGrids_isSome x 1 16 (neighbourOnGrid_isSome (inInterval_grid hz)))
  obtain ⟨n, hn₁, hn₂, hn⟩ := searchGrids_eq_some hd
  obtain ⟨hexp, hdig⟩ := neighbourOnGrid_eq_some hn
  obtain ⟨hlo, hhi⟩ := gridFloor_decade hz (n := n) (by omega)
  have hpow : Nat.pow 10 n ≤ Nat.pow 10 17 := Nat.pow_le_pow_right (by decide) (by omega)
  have hd₁ : 0 < d.digits := by
    have : 0 < Nat.pow 10 (n - 1) := Nat.pow_pos (by decide)
    omega
  have hd₂ : d.digits ≤ Nat.pow 10 17 := by omega
  -- normalizing divides by at most `10^17`, so raises the exponent by at most 17
  obtain ⟨t, hdigits, hexponent, hpos⟩ := normalize_spec d hd₁
  have ht : t ≤ 17 := by
    have h : Nat.pow 10 t ≤ Nat.pow 10 17 :=
      Nat.le_trans (Nat.le_trans (Nat.le_mul_of_pos_left _ hpos) (Nat.le_of_eq hdigits.symm)) hd₂
    exact (Nat.pow_le_pow_iff_right (by decide)).1 h
  have hf₁₀ := floorLog10Ratio_magnitude hf hz
  have hshort : shortest x = normalize d := by rw [shortest, hd, Option.getD_some]
  rw [hshort]
  refine ⟨hpos, Nat.le_trans ?_ hd₂, ?_⟩
  · rw [hdigits]
    exact Nat.le_mul_of_pos_right _ (Nat.pow_pos (by decide))
  · rw [hexponent, hexp, gridExponent]
    omega

end Decimal
end QirGen
