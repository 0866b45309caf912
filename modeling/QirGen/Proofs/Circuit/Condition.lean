import QirGen.Circuit.Basic

/-!
# The bits of a condition

A condition compares bits `b₀ … b_{n-1}` with a 64-bit value `v`. Its expectations pair each
compared bit with the outcome it must have: bit `k` of `v` for `k < 64`, clear from position
64 on, so the value is never shifted by the word size or more. For a 64-bit value the guard
changes no outcome (`expects_eq_testBit`): there is no bit of `v` beyond 63.

The expected outcomes spell `v % 2^n` (`spelled_expectations`), so they spell `v` back
exactly when `v` fits: when `v < 2^n`, and always from 64 bits on (`fits_iff_spelled`).
-/

namespace QirGen
namespace Circuit
namespace Condition

/-- The number a list of outcomes spells, the first the least significant: the sum of `2^k`
over the positions `k` whose outcome is set. -/
def spelled (outcomes : List Bool) : Nat :=
  (((List.range outcomes.length).filter (outcomes.getD · false)).map (Nat.pow 2)).foldr (· + ·) 0

theorem expectations_map_fst (c : Condition) : c.expectations.map Prod.fst = c.bits := by
  simp [expectations, Function.comp_def, List.map_snd_zip]

theorem length_expectations (c : Condition) : c.expectations.length = c.bits.length := by
  simp [expectations]

/-- The outcomes of the expectations are the value's bits up to the number of compared bits. -/
theorem expectations_map_snd (c : Condition) :
    c.expectations.map Prod.snd = (List.range c.bits.length).map (expects c.value) := by
  simp only [expectations, List.map_map]
  rw [show (Prod.snd ∘ fun p : Nat × Nat => (p.2, expects c.value p.1)) =
    expects c.value ∘ Prod.fst from rfl, ← List.map_map, List.map_fst_zip (by simp)]

theorem getElem?_expectations (c : Condition) (k : Nat) :
    c.expectations[k]? =
      c.bits[k]?.map fun b => (b, if k < 64 then c.value.testBit k else false) := by
  by_cases hk : k < c.bits.length
  · simp [expectations, hk, expects]
  · simp [expectations, hk]

/-- Bit `k` of a 64-bit value is what a condition expects at position `k`, for every `k`:
beyond bit 63 both are clear. -/
theorem expects_eq_testBit {v : Nat} (hv : v < Nat.pow 2 64) (k : Nat) :
    expects v k = v.testBit k := by
  by_cases hk : k < 64
  · simp [expects, hk]
  · have hlt : v < Nat.pow 2 k := Nat.lt_of_lt_of_le hv (Nat.pow_le_pow_right (by decide) (by omega))
    simp [expects, hk, Nat.testBit_lt_two_pow hlt]

/-- The set bits of `v` below `n` sum to `v % 2^n`. -/
theorem sum_testBit (v : Nat) :
    ∀ n, (((List.range n).filter v.testBit).map (Nat.pow 2)).foldr (· + ·) 0 = v % Nat.pow 2 n
  | 0 => by simp [Nat.mod_one]
  | n + 1 => by
    have hbit : v / Nat.pow 2 n % 2 = 0 ∨ v / Nat.pow 2 n % 2 = 1 := Nat.mod_two_eq_zero_or_one _
    have ih := sum_testBit v n
    rw [← List.sum_eq_foldr] at ih ⊢
    rw [List.range_succ, List.filter_append, List.map_append, List.sum_append, ih]
    simp only [Nat.pow_eq] at hbit ⊢
    rw [Nat.mod_pow_succ]
    -- position `n` adds `2^n` exactly when bit `n` is set
    rcases hbit with h | h
    · have hb : v.testBit n = false := by simp [Nat.testBit_eq_decide_div_mod_eq, h]
      simp [hb, h]
    · have hb : v.testBit n = true := by simp [Nat.testBit_eq_decide_div_mod_eq, h]
      simp [hb, h]

/-- The outcomes a condition on a 64-bit value expects spell the value modulo `2^n`. -/
theorem spelled_expectations (c : Condition) (hv : c.value < Nat.pow 2 64) :
    spelled (c.expectations.map Prod.snd) = c.value % Nat.pow 2 c.bits.length := by
  rw [spelled, expectations_map_snd, List.length_map, List.length_range,
    ← sum_testBit c.value c.bits.length]
  congr 2
  apply List.filter_congr
  intro k hk
  have hk' : k < c.bits.length := List.mem_range.1 hk
  simp [hk', expects_eq_testBit hv]

/-- A condition fits when its value is below `2^n`, and always from 64 bits on. -/
theorem fits_iff_lt (c : Condition) :
    c.fits = true ↔ (c.bits.length < 64 → c.value < Nat.pow 2 c.bits.length) := by
  by_cases hn : 64 ≤ c.bits.length
  · have hn' : ¬ c.bits.length < 64 := Nat.not_lt.2 hn
    simp [fits, hn, hn']
  · simp [fits, hn, Nat.shiftRight_eq_div_pow, Nat.lt_of_not_le hn]

/-- A condition on a 64-bit value fits exactly when its expected outcomes spell the value. -/
theorem fits_iff_spelled (c : Condition) (hv : c.value < Nat.pow 2 64) :
    c.fits = true ↔ spelled (c.expectations.map Prod.snd) = c.value := by
  rw [spelled_expectations c hv, fits_iff_lt, Nat.pow_eq,
    Nat.mod_eq_iff_lt (Nat.pos_iff_ne_zero.1 (Nat.two_pow_pos _))]
  constructor
  · intro h
    by_cases hn : c.bits.length < 64
    · exact h hn
    · -- from 64 bits on, `2^n` is beyond every 64-bit value
      exact Nat.lt_of_lt_of_le hv (Nat.pow_le_pow_right (by decide) (by omega))
  · intro h _
    exact h

/-- **Condition bits.** A condition on `n` bits and a 64-bit value `v` expects `n` outcomes,
the `k`-th pairing bit `k` of the condition with bit `k` of `v` below position 64 and with a
clear outcome from 64 on; it fits exactly when those outcomes spell `v` back, that is when
`v < 2^n` or `n ≥ 64`. -/
theorem expectations_spell_value (c : Condition) (hv : c.value < Nat.pow 2 64) :
    c.expectations.length = c.bits.length ∧
      (∀ k, c.expectations[k]? =
        c.bits[k]?.map fun b => (b, if k < 64 then c.value.testBit k else false)) ∧
      (c.fits = true ↔ spelled (c.expectations.map Prod.snd) = c.value) ∧
      (c.fits = true ↔ (c.bits.length < 64 → c.value < Nat.pow 2 c.bits.length)) :=
  ⟨length_expectations c, getElem?_expectations c, fits_iff_spelled c hv, fits_iff_lt c⟩

/-- Sixty-five compared bits and the largest 64-bit value: the value fits, and the outcomes
spell it back. -/
theorem expectations_spell_value_wide :
    (⟨List.range 65, Nat.pow 2 64 - 1⟩ : Condition).value < Nat.pow 2 64 ∧
      (⟨List.range 65, Nat.pow 2 64 - 1⟩ : Condition).fits = true ∧
      spelled ((⟨List.range 65, Nat.pow 2 64 - 1⟩ : Condition).expectations.map Prod.snd) =
        Nat.pow 2 64 - 1 :=
  have h := expectations_spell_value ⟨List.range 65, Nat.pow 2 64 - 1⟩ (by decide)
  ⟨by decide, by decide, h.2.2.1.1 (by decide)⟩

end Condition
end Circuit
end QirGen
