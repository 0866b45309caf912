import QirGen.Proofs.Lower.Adaptive

/-!
# The names lowering writes

Lowering names every SSA value and every block it writes: `%q<i>` for an allocated qubit,
`%r<k>` for a measured result, `%c<r>.<k>` for a read of region `r`, `%zero`, and the blocks
`entry`, `cond<r>.<k>`, `then<r>` and `continue<r>`. Each is a word followed by decimal
numbers, so a name is read back to what it names: `Symbol.text` is injective. Uniqueness of
labels and of bound names is then a question about lists of symbols, with no strings left.
-/

namespace QirGen

open Ir

/-- What a name written by lowering stands for. -/
inductive Symbol where
  | qubit (q : Nat)
  | result (k : Nat)
  | test (r k : Nat)
  | zero
  | entry
  | cond (r k : Nat)
  | body (r : Nat)
  | join (r : Nat)
  deriving DecidableEq

/-- The text of a name. -/
def Symbol.text : Symbol → String
  | .qubit q => "q" ++ toString q
  | .result k => "r" ++ toString k
  | .test r k => testName r k
  | .zero => "zero"
  | .entry => "entry"
  | .cond r k => condLabel r k
  | .body r => thenLabel r
  | .join r => continueLabel r

/-- Whether a name labels a block. -/
def Symbol.isLabel : Symbol → Bool
  | .entry | .cond .. | .body _ | .join _ => true
  | _ => false

theorem toDigits_ten_injective : Function.Injective (Nat.toDigits 10) := fun a b h => by
  rw [← Nat.ofDigitChars_ten_toDigits (n := a), h, Nat.ofDigitChars_ten_toDigits]

theorem isDigit_of_mem_toDigits_ten {c : Char} {n : Nat} (h : c ∈ Nat.toDigits 10 n) :
    c.isDigit = true :=
  Nat.isDigit_of_mem_toDigits (by decide) (by decide) h

/-- Decimal digits never start with a character that is not a digit. -/
theorem toDigits_append_ne_cons {c : Char} (hc : c.isDigit = false) (n : Nat) (l rest : List Char) :
    Nat.toDigits 10 n ++ l ≠ c :: rest := by
  obtain ⟨d, ds, hd⟩ := List.exists_cons_of_ne_nil (Nat.toDigits_ne_nil (n := n) (b := 10))
  have hdigit := isDigit_of_mem_toDigits_ten (hd ▸ List.mem_cons_self : d ∈ Nat.toDigits 10 n)
  rw [hd]
  rintro ⟨⟩
  simp [hc] at hdigit

/-- Two numbers joined by a dot split back at the dot. -/
theorem toDigits_dot_inj :
    ∀ {a a' : List Char} {b b' : List Char}, '.' ∉ a → '.' ∉ a' →
      a ++ '.' :: b = a' ++ '.' :: b' → a = a' ∧ b = b'
  | [], [], _, _, _, _, h => by simpa using h
  | [], x :: a', _, _, _, ha', h => by
    simp only [List.nil_append, List.cons_append, List.cons.injEq] at h
    exact absurd (h.1 ▸ List.mem_cons_self) ha'
  | x :: a, [], _, _, ha, _, h => by
    simp only [List.nil_append, List.cons_append, List.cons.injEq] at h
    exact absurd (h.1 ▸ List.mem_cons_self) ha
  | x :: a, y :: a', _, _, ha, ha', h => by
    simp only [List.cons_append, List.cons.injEq] at h
    obtain ⟨rfl, h⟩ := h
    obtain ⟨rfl, rfl⟩ := toDigits_dot_inj (List.not_mem_of_not_mem_cons ha)
      (List.not_mem_of_not_mem_cons ha') h
    exact ⟨rfl, rfl⟩

theorem dot_not_mem_toDigits (n : Nat) : '.' ∉ Nat.toDigits 10 n := fun h => by
  simpa using isDigit_of_mem_toDigits_ten h

/-- Two numbers written in decimal and joined by a dot are read back. -/
theorem toDigits_pair_inj {r k r' k' : Nat}
    (h : Nat.toDigits 10 r ++ '.' :: Nat.toDigits 10 k = Nat.toDigits 10 r' ++ '.' :: Nat.toDigits 10 k') :
    r = r' ∧ k = k' := by
  obtain ⟨hr, hk⟩ := toDigits_dot_inj (dot_not_mem_toDigits r) (dot_not_mem_toDigits r') h
  exact ⟨toDigits_ten_injective hr, toDigits_ten_injective hk⟩

/-- Every name is read back to what it names. -/
theorem Symbol.text_injective : Function.Injective Symbol.text := by
  intro a b h
  have h := congrArg String.toList h
  -- names of different kinds differ in their words, save a read against a block of tests,
  -- where a digit meets the letter `o`
  cases a <;> cases b <;>
    simp [text, testName, condLabel, thenLabel, continueLabel] at h ⊢
  case qubit.qubit | result.result | body.body | join.join => exact toDigits_ten_injective h
  case test.test | cond.cond => exact toDigits_pair_inj h
  case test.cond | test.join => exact toDigits_append_ne_cons (by decide) _ _ _ h
  case cond.test | join.test => exact toDigits_append_ne_cons (by decide) _ _ _ h.symm

end QirGen
