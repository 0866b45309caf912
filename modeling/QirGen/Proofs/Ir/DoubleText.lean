import QirGen.Ir.Render
import QirGen.Proofs.Decimal.Significant

/-!
# The text of double constants

A double constant is written in one of two forms (`Binary64.irText`). The decimal form
`-?D.DDDDDDe±EE` has one digit before the point, six after it, and an exponent with a sign
and at least two digits; read back with correct rounding, it is the constant itself
(`IsDecimalText`). The hexadecimal form `0xHHHHHHHHHHHHHHHH` has sixteen upper-case digits
that spell the bit pattern (`IsHexText`). No text has both forms: a decimal text starts with
a sign, or with a digit and a point.

Main statement: `irText_form`. Every constant is written in one of the two forms, a NaN or an
infinity in the hexadecimal one, and a finite constant in the decimal one exactly when its
rounding half-even to seven significant digits reads back as the constant
(`SevenDigitsReadBack`, through `Decimal.IsSignificantRounding`).
-/

namespace QirGen
namespace Binary64

/-! ## The two forms -/

/-- An upper-case hexadecimal digit. -/
def isUpperHexDigit (c : Char) : Bool :=
  c.isDigit || ('A' ≤ c && c ≤ 'F')

/-- The value of an upper-case hexadecimal digit. -/
def hexDigitValue (c : Char) : Nat :=
  if c.isDigit then c.toNat - '0'.toNat else c.toNat - 'A'.toNat + 10

/-- The number that hexadecimal digits spell, the most significant first. -/
def hexValue (cs : List Char) : Nat :=
  cs.foldl (fun n c => 16 * n + hexDigitValue c) 0

/-- `t` is `0x` and sixteen upper-case hexadecimal digits that spell the bits of `x`. -/
def IsHexText (t : String) (x : Binary64) : Prop :=
  ∃ hs : List Char, t.toList = '0' :: 'x' :: hs ∧ hs.length = 16 ∧
    (∀ c ∈ hs, isUpperHexDigit c = true) ∧ hexValue hs = x.bits.toNat

/-- The value of an exponent written as a sign and digits. -/
def signedValue (negative : Bool) (digits : List Char) : Int :=
  if negative then -(Nat.ofDigitChars 10 digits 0 : Int) else Nat.ofDigitChars 10 digits 0

/-- `t` is `-?D.DDDDDDe±EE`, with at least two exponent digits, and the decimal it writes
reads back, correctly rounded, as `x`. -/
def IsDecimalText (t : String) (x : Binary64) : Prop :=
  ∃ (negative : Bool) (lead : Char) (frac : List Char) (expNegative : Bool) (exp : List Char),
    t.toList = (if negative then ['-'] else []) ++ lead :: '.' :: frac ++
      'e' :: (if expNegative then '-' else '+') :: exp ∧
    lead.isDigit = true ∧ frac.length = 6 ∧ (∀ c ∈ frac, c.isDigit = true) ∧
    2 ≤ exp.length ∧ (∀ c ∈ exp, c.isDigit = true) ∧
    readsBackAs negative (Nat.ofDigitChars 10 (lead :: frac) 0)
      (signedValue expNegative exp - 6) x = true

/-- The magnitude of a finite value as a rational. -/
def absValue (x : Binary64) : ℚ :=
  (x.magnitude.1 : ℚ) / x.magnitude.2

/-- `x` rounded half-even to seven significant digits reads back as `x`. -/
def SevenDigitsReadBack (x : Binary64) : Prop :=
  ∃ d, Decimal.IsSignificantRounding 7 x.absValue d ∧
    readsBackAs x.negative d.digits d.exponent x = true

/-- A decimal text is no hexadecimal text. -/
theorem IsDecimalText.not_isHexText {t : String} {x y : Binary64} (h : IsDecimalText t x) :
    ¬ IsHexText t y := by
  obtain ⟨negative, lead, frac, expNegative, exp, ht, -⟩ := h
  rintro ⟨hs, ht', -⟩
  rw [ht] at ht'
  cases negative <;> simp at ht'

/-! ## The hexadecimal form -/

/-- The digit `hexDigits` writes for a value below sixteen. -/
def hexDigitChar (v : Nat) : Char :=
  if v < 10 then Char.ofNat (48 + v) else Char.ofNat (55 + v)

theorem hexDigits_eq (x : Binary64) :
    x.hexDigits = String.ofList ((List.range 16).reverse.map fun i =>
      hexDigitChar (x.bits.toNat / Nat.pow 16 i % 16)) := rfl

theorem hexDigitChar_spec :
    ∀ v < 16, isUpperHexDigit (hexDigitChar v) = true ∧ hexDigitValue (hexDigitChar v) = v := by
  decide

/-- Horner's rule: the digits after a prefix worth `acc`. -/
theorem foldl_hexDigitValue (acc : Nat) (cs : List Char) :
    cs.foldl (fun n c => 16 * n + hexDigitValue c) acc =
      Nat.pow 16 cs.length * acc + hexValue cs := by
  induction cs generalizing acc with
  | nil => simp [hexValue]
  | cons c cs ih =>
    simp only [List.foldl_cons, hexValue, List.length_cons]
    rw [ih, ih (16 * 0 + hexDigitValue c), show Nat.pow 16 (cs.length + 1) =
      Nat.pow 16 cs.length * 16 from rfl]
    ring

/-- The lowest `m` hexadecimal digits of `N`, most significant first, spell `N mod 16^m`. -/
theorem hexValue_digits (N m : Nat) :
    hexValue ((List.range m).reverse.map fun i => hexDigitChar (N / Nat.pow 16 i % 16)) =
      N % Nat.pow 16 m := by
  induction m with
  | zero => simp [hexValue, Nat.mod_one]
  | succ m ih =>
    have hv := (hexDigitChar_spec _ (Nat.mod_lt (N / Nat.pow 16 m) (by decide))).2
    rw [List.range_succ, List.reverse_append, List.reverse_singleton, List.singleton_append,
      List.map_cons, hexValue, List.foldl_cons, foldl_hexDigitValue, hv, ih]
    simp only [List.length_map, List.length_reverse, List.length_range, Nat.mul_zero,
      Nat.zero_add, Nat.pow_eq]
    rw [Nat.mod_pow_succ]
    ac_rfl

theorem isHexText_hex (x : Binary64) : IsHexText ("0x" ++ x.hexDigits) x := by
  have hbits : x.bits.toNat < Nat.pow 16 16 := x.bits.toNat_lt
  refine ⟨x.hexDigits.toList, by simp [String.toList_append], ?_, ?_, ?_⟩
  · simp [hexDigits_eq]
  · intro c hc
    rw [hexDigits_eq, String.toList_ofList, List.mem_map] at hc
    obtain ⟨i, -, rfl⟩ := hc
    exact (hexDigitChar_spec _ (Nat.mod_lt _ (by decide))).1
  · rw [hexDigits_eq, String.toList_ofList, hexValue_digits]
    exact Nat.mod_eq_of_lt hbits

/-! ## The decimal form -/

/-- A number of seven digits is written as a digit and six more. -/
theorem digitString_seven {m : Nat} (hlo : Nat.pow 10 6 ≤ m) (hhi : m < Nat.pow 10 7) :
    ∃ lead frac, (Decimal.digitString m).toList = lead :: frac ∧ frac.length = 6 ∧
      lead.isDigit = true ∧ (∀ c ∈ frac, c.isDigit = true) ∧
      Nat.ofDigitChars 10 (lead :: frac) 0 = m := by
  have hle := (Nat.length_toDigits_le_iff (b := 10) (n := m) (k := 7) (by decide) (by decide)).2
    (by rw [← Nat.pow_eq]; exact hhi)
  have hnot : ¬ (Nat.toDigits 10 m).length ≤ 6 := fun h =>
    absurd ((Nat.length_toDigits_le_iff (by decide) (by decide)).1 h)
      (by rw [← Nat.pow_eq]; omega)
  have hdigit : ∀ c ∈ Nat.toDigits 10 m, c.isDigit = true := fun c hc =>
    Nat.isDigit_of_mem_toDigits (by decide) (by decide) hc
  obtain ⟨lead, frac, hm⟩ := List.exists_cons_of_length_pos (Nat.lt_of_lt_of_le (by decide)
    (Nat.lt_of_not_le hnot))
  rw [hm] at hle hnot hdigit
  rw [Decimal.digitString, String.toList_ofList, hm]
  refine ⟨lead, frac, rfl, by simp at hle hnot; omega, hdigit lead List.mem_cons_self,
    fun c hc => hdigit c (List.mem_cons_of_mem lead hc), ?_⟩
  rw [← hm]
  exact Nat.ofDigitChars_ten_toDigits

/-- The exponent field: the digits of the magnitude, padded to two. -/
theorem exponentDigits (e : Nat) :
    ∃ exp, (if (Decimal.digitString e).length < 2 then "0" ++ Decimal.digitString e
        else Decimal.digitString e).toList = exp ∧
      2 ≤ exp.length ∧ (∀ c ∈ exp, c.isDigit = true) ∧ Nat.ofDigitChars 10 exp 0 = e := by
  have hdigit : ∀ c ∈ Nat.toDigits 10 e, c.isDigit = true := fun c hc =>
    Nat.isDigit_of_mem_toDigits (by decide) (by decide) hc
  have hlen : (Decimal.digitString e).length = (Nat.toDigits 10 e).length := by
    rw [Decimal.digitString, String.length_ofList]
  split
  · -- a leading zero keeps the value
    rename_i hshort
    refine ⟨_, rfl, ?_, ?_, ?_⟩
    · simp only [Decimal.digitString, String.toList_append, String.reduceToList,
        String.toList_ofList, List.cons_append, List.nil_append, List.length_cons]
      have := Nat.length_toDigits_pos (b := 10) (n := e)
      omega
    · simp only [String.toList_append, Decimal.digitString, String.toList_ofList]
      intro c hc
      simp only [String.reduceToList, List.cons_append, List.nil_append, List.mem_cons] at hc
      rcases hc with rfl | hc
      · rfl
      · exact hdigit c hc
    · simp [String.toList_append, Decimal.digitString, Nat.ofDigitChars_cons,
        Nat.ofDigitChars_ten_toDigits]
  · rename_i hlong
    refine ⟨_, rfl, ?_, ?_, ?_⟩
    · rw [String.length_toList]
      omega
    · simpa [Decimal.digitString] using hdigit
    · simp [Decimal.digitString, Nat.ofDigitChars_ten_toDigits]

/-- A decimal of seven digits is written `D.DDDDDDe±EE`, and the text keeps its value. -/
theorem sevenDigitText_form {d : Decimal} (hlo : Nat.pow 10 6 ≤ d.digits)
    (hhi : d.digits < Nat.pow 10 7) :
    ∃ (lead : Char) (frac : List Char) (expNegative : Bool) (exp : List Char),
      d.sevenDigitText.toList =
        lead :: '.' :: frac ++ 'e' :: (if expNegative then '-' else '+') :: exp ∧
      lead.isDigit = true ∧ frac.length = 6 ∧ (∀ c ∈ frac, c.isDigit = true) ∧
      2 ≤ exp.length ∧ (∀ c ∈ exp, c.isDigit = true) ∧
      Nat.ofDigitChars 10 (lead :: frac) 0 = d.digits ∧
      signedValue expNegative exp - 6 = d.exponent := by
  obtain ⟨lead, frac, hs, hlen, hlead, hfrac, hval⟩ := digitString_seven hlo hhi
  obtain ⟨exp, hexp, hlen₂, hdigits, hval₂⟩ := exponentDigits (d.exponent + 6).natAbs
  refine ⟨lead, frac, decide (d.exponent + 6 < 0), exp, ?_, hlead, hlen, hfrac, hlen₂, hdigits,
    hval, ?_⟩
  · unfold Decimal.sevenDigitText
    dsimp only
    simp only [String.toList_append, String.toList_ofList, hs, hexp]
    by_cases hneg : d.exponent + 6 < 0 <;> simp [hneg]
  · unfold signedValue
    rw [hval₂]
    by_cases hneg : d.exponent + 6 < 0 <;>
      simp only [hneg, decide_true, decide_false, if_true, if_false, Bool.false_eq_true] <;> omega

/-- A sign and a text of seven digits make a decimal text, when it reads back. -/
theorem isDecimalText_sevenDigitText {negative : Bool} {d : Decimal} {x : Binary64}
    (hlo : Nat.pow 10 6 ≤ d.digits) (hhi : d.digits < Nat.pow 10 7)
    (hr : readsBackAs negative d.digits d.exponent x = true) :
    IsDecimalText ((if negative then "-" else "") ++ d.sevenDigitText) x := by
  obtain ⟨lead, frac, expNegative, exp, ht, hlead, hlen, hfrac, hlen₂, hexp, hval, hval₂⟩ :=
    sevenDigitText_form hlo hhi
  refine ⟨negative, lead, frac, expNegative, exp, ?_, hlead, hlen, hfrac, hlen₂, hexp, ?_⟩
  · rw [String.toList_append, ht]
    cases negative <;> simp
  · rw [hval, hval₂]
    exact hr

/-! ## Zero -/

/-- A zero is the zero of its sign. -/
theorem signedZero_negative {x : Binary64} (hz : x.isZero = true) : signedZero x.negative = x := by
  obtain ⟨bits⟩ := x
  have hlt : bits.toNat < 18446744073709551616 := bits.toNat_lt
  have h52 : Nat.pow 2 52 = 4503599627370496 := rfl
  have h11 : Nat.pow 2 11 = 2048 := rfl
  have h63 : Nat.pow 2 63 = 9223372036854775808 := rfl
  simp only [isZero, biasedExponent, fraction, Bool.and_eq_true, beq_iff_eq, h52, h11] at hz
  simp only [signedZero, ofFields, negative, Binary64.mk.injEq, h52, h63]
  apply UInt64.toNat_inj.1
  rw [UInt64.toNat_ofNat', show (2 : Nat) ^ 64 = 18446744073709551616 from rfl]
  by_cases hn : 9223372036854775808 ≤ bits.toNat <;> simp [hn] <;> omega

/-- A zero reads back from the digits zero, whatever the exponent. -/
theorem readsBackAs_zero {x : Binary64} (hz : x.isZero = true) (e : Int) :
    readsBackAs x.negative 0 e x = true := by
  have hy : ∀ d, ofRatio x.negative 0 d = x := fun d => by
    rw [ofRatio, if_pos (Or.inl rfl), signedZero_negative hz]
  unfold readsBackAs
  cases e <;> simp [hy]

theorem isDecimalText_zero {x : Binary64} (hz : x.isZero = true) :
    IsDecimalText ((if x.negative then "-" else "") ++ "0.000000e+00") x := by
  refine ⟨x.negative, '0', ['0', '0', '0', '0', '0', '0'], false, ['0', '0'], ?_, rfl, rfl,
    by simp, by decide, by simp, ?_⟩
  · cases x.negative <;>
      simp only [Bool.false_eq_true, reduceIte, String.toList_append, String.reduceToList,
        List.nil_append, List.cons_append]
  · rw [show Nat.ofDigitChars 10 ['0', '0', '0', '0', '0', '0', '0'] 0 = 0 by decide]
    exact readsBackAs_zero hz _

/-! ## Magnitudes -/

theorem magnitude_snd_pos (x : Binary64) : 0 < x.magnitude.2 := by
  unfold magnitude
  split
  · exact Nat.one_pos
  · exact Nat.pow_pos (by decide)

theorem magnitude_fst_eq_zero {x : Binary64} (hz : x.isZero = true) : x.magnitude.1 = 0 := by
  have hsig : x.significand = 0 := by
    simp only [isZero, Bool.and_eq_true, beq_iff_eq] at hz
    simp [significand, hz.1, hz.2]
  unfold magnitude
  split <;> simp [hsig]

theorem magnitude_fst_pos {x : Binary64} (hz : x.isZero = false) : 0 < x.magnitude.1 := by
  have hsig : 0 < x.significand := by
    simp only [isZero, Bool.and_eq_false_iff, beq_eq_false_iff_ne] at hz
    unfold significand
    split
    · rename_i h0
      have : x.fraction ≠ 0 := by simpa [h0] using hz
      omega
    · exact Nat.add_pos_right _ (Nat.pow_pos (by decide))
  unfold magnitude
  split
  · exact Nat.mul_pos hsig (Nat.pow_pos (by decide))
  · exact hsig

/-! ## Seven significant digits -/

theorem sevenDigitsReadBack_of_isZero {x : Binary64} (hz : x.isZero = true) :
    x.SevenDigitsReadBack :=
  ⟨⟨0, 0⟩, .inl ⟨by simp [absValue, magnitude_fst_eq_zero hz], rfl⟩,
    readsBackAs_zero hz 0⟩

/-- For a nonzero value, the rounding to seven significant digits is the one
`ofRatioSignificant` computes. -/
theorem sevenDigitsReadBack_iff {x : Binary64} (hz : x.isZero = false) :
    x.SevenDigitsReadBack ↔
      readsBackAs x.negative (Decimal.ofRatioSignificant 7 x.magnitude.1 x.magnitude.2).digits
        (Decimal.ofRatioSignificant 7 x.magnitude.1 x.magnitude.2).exponent x = true := by
  have hn := magnitude_fst_pos hz
  have hd := magnitude_snd_pos x
  have hspec : Decimal.IsSignificantRounding 7 x.absValue
      (Decimal.ofRatioSignificant 7 x.magnitude.1 x.magnitude.2) :=
    Decimal.isSignificantRounding_ofRatioSignificant (by decide) hn hd
  have hpos : 0 < x.absValue := by
    unfold absValue
    exact div_pos (by exact_mod_cast hn) (by exact_mod_cast hd)
  constructor
  · rintro ⟨d, hround, hr⟩
    rw [hround.unique hpos hspec] at hr
    exact hr
  · exact fun hr => ⟨_, hspec, hr⟩

/-! ## The text of a constant -/

theorem irText_of_isFinite_false {x : Binary64} (hf : x.isFinite = false) :
    x.irText = "0x" ++ x.hexDigits := by
  unfold irText
  simp [hf]

theorem irText_of_isZero {x : Binary64} (hf : x.isFinite = true) (hz : x.isZero = true) :
    x.irText = (if x.negative then "-" else "") ++ "0.000000e+00" := by
  unfold irText
  simp [hf, hz]

theorem irText_of_isZero_false {x : Binary64} (hf : x.isFinite = true) (hz : x.isZero = false) :
    x.irText =
      let d := Decimal.ofRatioSignificant 7 x.magnitude.1 x.magnitude.2
      if readsBackAs x.negative d.digits d.exponent x then
        (if x.negative then "-" else "") ++ d.sevenDigitText
      else "0x" ++ x.hexDigits := by
  unfold irText
  simp [hf, hz]

/-- **The text of a double constant.** It is a decimal text that reads back as the constant
or the hexadecimal text of its bits; the hexadecimal one for a NaN or an infinity; and, for a
finite constant, the decimal one exactly when its rounding to seven significant digits reads
back as the constant. -/
theorem irText_form (x : Binary64) :
    (IsDecimalText x.irText x ∨ IsHexText x.irText x) ∧
      (x.isFinite = false → IsHexText x.irText x) ∧
      (x.isFinite = true → (IsDecimalText x.irText x ↔ x.SevenDigitsReadBack)) := by
  cases hf : x.isFinite with
  | false =>
    rw [irText_of_isFinite_false hf]
    exact ⟨.inr (isHexText_hex x), fun _ => isHexText_hex x, fun h => nomatch h⟩
  | true =>
    cases hz : x.isZero with
    | true =>
      rw [irText_of_isZero hf hz]
      have hdec := isDecimalText_zero hz
      exact ⟨.inl hdec, (fun h => nomatch h),
        fun _ => iff_of_true hdec (sevenDigitsReadBack_of_isZero hz)⟩
    | false =>
      have hn := magnitude_fst_pos hz
      obtain ⟨hlo, hhi⟩ := Decimal.ofRatioSignificant_digits (p := 7) (by decide) hn
        (magnitude_snd_pos x)
      rw [irText_of_isZero_false hf hz, sevenDigitsReadBack_iff hz]
      dsimp only
      split
      · -- the seven digits read back
        rename_i hr
        have hdec := isDecimalText_sevenDigitText hlo hhi hr
        exact ⟨.inl hdec, (fun h => nomatch h), fun _ => iff_of_true hdec hr⟩
      · rename_i hr
        have hhex := isHexText_hex x
        exact ⟨.inr hhex, (fun h => nomatch h),
          fun _ => iff_of_false (fun h => h.not_isHexText hhex) hr⟩

/-- An infinity is written in hexadecimal. -/
theorem irText_infinity : IsHexText (infinity false).irText (infinity false) :=
  (irText_form _).2.1 (by decide)

end Binary64
end QirGen
