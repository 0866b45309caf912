import QirGen.Proofs.Json.Reading
import QirGen.Proofs.Decimal.ShortestRange

/-!
# Reading numbers back

A number is read from its digits: `accumulate` keeps the digits while the value stays within
the bound, so a text of at most `u64Max` is read whole. An unsigned integer is read back from
its decimal text exactly when it fits the wanted width (`unsigned_yields`).

A float is read from the digits and the exponent its text spells (`textParts`): zero is
written `0.0`, an integer below `10^16` with its zeros and `.0`, and any other value with its
shortest digits, positionally or in scientific form. The reader rounds twice, first the digits
to binary64 and then their scaling by a rounded power of ten (`floatReread`), so the text of a
value need not read back as the value itself; `null`, the text of NaN and the infinities, is
refused (`float_yields`).
-/

namespace QirGen
namespace Json
namespace Reader

variable {α β : Type}

/-! ### Runs of digits -/

/-- A run of decimal digits. -/
def Digits (cs : List Char) : Prop := ∀ ch ∈ cs, ch.isDigit = true

theorem digits_toDigits (n : Nat) : Digits (Nat.toDigits 10 n) :=
  fun _ h => Nat.isDigit_of_mem_toDigits (by decide) (by decide) h

theorem le_ofDigitChars (cs : List Char) (acc : Nat) : acc ≤ Nat.ofDigitChars 10 cs acc := by
  rw [Nat.ofDigitChars_eq_ofDigitChars_zero]
  calc acc ≤ 10 ^ cs.length * acc := Nat.le_mul_of_pos_left acc (Nat.pow_pos (by decide))
    _ ≤ _ := Nat.le_add_right _ _

/-- Digits whose value stays within the bound are all taken. -/
theorem accumulate_of_le {bound : Nat} : ∀ (cs : List Char) (acc : Nat),
    Nat.ofDigitChars 10 cs acc ≤ bound →
      accumulate bound acc (cs.map digitValue) = (Nat.ofDigitChars 10 cs acc, cs.length)
  | [], _, _ => rfl
  | ch :: cs, acc, h => by
    rw [Nat.ofDigitChars_cons] at h
    have hle := le_ofDigitChars cs (10 * acc + (ch.toNat - '0'.toNat))
    have hstep : acc * 10 + digitValue ch = 10 * acc + (ch.toNat - '0'.toNat) := by
      rw [Nat.mul_comm]
      rfl
    rw [List.map_cons, accumulate, if_neg (by omega), hstep, accumulate_of_le cs _ h,
      Nat.ofDigitChars_cons, List.length_cons]

/-- Digits whose value passes the bound are not all taken. -/
theorem accumulate_lt_of_lt {bound : Nat} : ∀ (cs : List Char) (acc : Nat), acc ≤ bound →
    bound < Nat.ofDigitChars 10 cs acc → (accumulate bound acc (cs.map digitValue)).2 < cs.length
  | [], acc, hacc, h => absurd h (by simp [hacc])
  | ch :: cs, acc, _, h => by
    rw [Nat.ofDigitChars_cons] at h
    have hstep : acc * 10 + digitValue ch = 10 * acc + (ch.toNat - '0'.toNat) := by
      rw [Nat.mul_comm]
      rfl
    rw [List.map_cons, accumulate]
    split
    · simp
    · rename_i hle
      rw [hstep] at hle ⊢
      have := accumulate_lt_of_lt cs _ (by omega) h
      simp only [List.length_cons]
      omega

/-- The digits ahead are seen, up to the first character that is not one. -/
theorem outcome_digitRun {c : Cursor} {cs rest : List Char} (hc : c.rest = cs ++ rest)
    (hcs : Digits cs) (hr : ∀ ch ∈ rest.head?, ch.isDigit = false) :
    outcome digitRun c = (.ok (cs.map digitValue), c) := by
  have htake : c.rest.takeWhile Char.isDigit = cs := by
    rw [hc, List.takeWhile_append_of_pos hcs]
    cases rest with
    | nil => simp
    | cons ch rest => simp [hr ch (by simp)]
  rw [digitRun, outcome_bind_ok (outcome_get c), htake]
  rfl

/-! ### The steps of the number reader -/

/-- The float of decimal parts ends as `floatOfParts` says: out of range, it fails. -/
theorem lands_floatFromParts (positive : Bool) (sig : Nat) (exp : Int) (c : Cursor) :
    Lands (floatFromParts positive sig exp) c c.rest (floatOfParts positive sig exp) := by
  unfold floatFromParts
  cases floatOfParts positive sig exp with
  | some f => exact Lands.of_ok rfl rfl rfl
  | none =>
    obtain ⟨e, h⟩ := outcome_fail (α := Binary64) .numberOutOfRange c
    exact Lands.of_error h

theorem ofDigitChars_cons_zero (ch : Char) (cs : List Char) :
    Nat.ofDigitChars 10 (ch :: cs) 0 = Nat.ofDigitChars 10 cs (digitValue ch) := by
  rw [Nat.ofDigitChars_cons, Nat.mul_zero, Nat.zero_add]
  rfl

/-- An exponent: the mark, a sign and the digits of its magnitude. -/
theorem lands_readExponent (positive : Bool) (sig : Nat) (start : Int) {c : Cursor}
    {sign : Char} {es rest : List Char} (hsign : sign = '+' ∨ sign = '-')
    (hc : c.rest = 'e' :: sign :: (es ++ rest))
    (hes : Digits es) (hne : es ≠ []) (hr : Delimits rest) (hv : Nat.ofDigitChars 10 es 0 ≤ i32Max) :
    Lands (readExponent positive sig start) c rest
      (floatOfParts positive sig (clampI32 (if sign = '+' then start + Nat.ofDigitChars 10 es 0
        else start - Nat.ofDigitChars 10 es 0))) := by
  obtain ⟨e₀, es', rfl⟩ := List.exists_cons_of_ne_nil hne
  obtain ⟨hr₁, hd₁⟩ := advance_rest hc
  obtain ⟨hr₂, hd₂⟩ := advance_rest hr₁
  obtain ⟨hr₃, hd₃⟩ := advance_rest hr₂
  have hdigit : e₀.isDigit = true := hes e₀ List.mem_cons_self
  have hrun := outcome_digitRun (c := c.advance.advance.advance) hr₃
    (fun ch h => hes ch (List.mem_cons_of_mem _ h)) (fun ch h => (hr ch h).1)
  rw [ofDigitChars_cons_zero] at hv ⊢
  obtain ⟨c₄, h₄, hr₄, hd₄⟩ := lands_eatN es' hr₃
  have hacc := @accumulate_of_le i32Max es' (digitValue e₀) hv
  rw [readExponent]
  refine Lands.step (outcome_eat c) hd₁ ?_
  refine Lands.step (outcome_peek_of hr₁) rfl ?_
  -- either sign is consumed; then the first digit, the run of the others, all taken
  rcases hsign with rfl | rfl <;>
  · refine Lands.step (r := eat) (outcome_eat _) hd₂ ?_
    refine Lands.step (outcome_pure _ _) rfl ?_
    refine Lands.step (outcome_next_of hr₂) hd₃ ?_
    dsimp only
    rw [if_neg (show ¬(!e₀.isDigit) = true by simp [hdigit])]
    refine Lands.step hrun rfl ?_
    rw [hacc]
    refine Lands.step h₄ hd₄ ?_
    rw [if_neg (by simp)]
    rw [← hr₄]
    exact lands_floatFromParts positive sig _ c₄

theorem digitValue_lt {ch : Char} (h : ch.isDigit = true) : digitValue ch < 10 := by
  have := Char.isDigit_iff_toNat.1 h
  simp only [Char.reduceToNat] at this
  unfold digitValue
  omega

/-- Digits after a value `acc` stay below the next power of ten. -/
theorem ofDigitChars_lt {cs : List Char} (hcs : Digits cs) (acc : Nat) :
    Nat.ofDigitChars 10 cs acc < (acc + 1) * Nat.pow 10 cs.length := by
  induction cs generalizing acc with
  | nil => simp
  | cons ch cs ih =>
    have hd := digitValue_lt (hcs ch List.mem_cons_self)
    have := ih (fun c hc => hcs c (List.mem_cons_of_mem _ hc)) (10 * acc + digitValue ch)
    rw [Nat.ofDigitChars_cons]
    calc Nat.ofDigitChars 10 cs (10 * acc + (ch.toNat - '0'.toNat))
        < (10 * acc + digitValue ch + 1) * Nat.pow 10 cs.length := this
      _ ≤ (10 * acc + 10) * Nat.pow 10 cs.length := Nat.mul_le_mul_right _ (by omega)
      _ = (acc + 1) * Nat.pow 10 (ch :: cs).length := by
        have hp : Nat.pow 10 (cs.length + 1) = 10 * Nat.pow 10 cs.length := Nat.mul_comm _ _
        rw [List.length_cons, hp, ← Nat.mul_assoc]
        congr 1
        omega

/-- The decimal text of a positive number does not start with a zero. -/
theorem toDigits_head_ne_zero {n : Nat} (hn : 0 < n) {ch : Char} {cs : List Char}
    (h : Nat.toDigits 10 n = ch :: cs) : ch ≠ '0' := by
  rintro rfl
  have hdigits := digits_toDigits n
  rw [h] at hdigits
  have hvalue : n = Nat.ofDigitChars 10 cs 0 := by
    rw [← Nat.ofDigitChars_toDigits (b := 10) (n := n) (by decide) (by decide), h,
      ofDigitChars_cons_zero]
    rfl
  have hlt := ofDigitChars_lt (fun c hc => hdigits c (List.mem_cons_of_mem _ hc)) 0
  rw [← hvalue, Nat.zero_add, Nat.one_mul] at hlt
  -- a zero in front would make the text one digit longer than the number needs
  cases cs with
  | nil => simp at hvalue; omega
  | cons c cs =>
    have hlen := (Nat.length_toDigits_le_iff (b := 10) (n := n) (k := (c :: cs).length) (by decide)
      (by simp)).2 (by rw [← Nat.pow_eq]; exact hlt)
    rw [h, List.length_cons] at hlen
    omega

theorem accumulate_snd_le (bound : Nat) : ∀ (acc : Nat) (ds : List Nat),
    (accumulate bound acc ds).2 ≤ ds.length
  | _, [] => Nat.le_refl 0
  | acc, d :: ds => by
    rw [accumulate]
    split
    · exact Nat.zero_le _
    · have := accumulate_snd_le bound (acc * 10 + d) ds
      simp only [List.length_cons]
      omega

/-- A fraction followed by the end of the number. -/
theorem lands_readFraction_end (positive : Bool) (sig : Nat) (start : Int) {c : Cursor}
    (fs : List Char) {rest : List Char} (hc : c.rest = '.' :: (fs ++ rest)) (hfs : Digits fs) (hne : fs ≠ [])
    (hr : Delimits rest) (hv : Nat.ofDigitChars 10 fs sig ≤ u64Max) :
    Lands (readFraction positive sig start) c rest
      (floatOfParts positive (Nat.ofDigitChars 10 fs sig) (start - fs.length)) := by
  obtain ⟨hr₁, hd₁⟩ := advance_rest hc
  obtain ⟨c₂, h₂, hr₂, hd₂⟩ := lands_eatN fs hr₁
  rw [readFraction]
  refine Lands.step (outcome_eat c) hd₁ ?_
  refine Lands.step (outcome_digitRun hr₁ hfs (fun ch h => (hr ch h).1)) rfl ?_
  rw [accumulate_of_le fs sig hv]
  refine Lands.step h₂ hd₂ ?_
  rw [List.length_map, if_neg (Nat.lt_irrefl _), if_neg (by simpa using hne)]
  refine Lands.step (outcome_peek c₂) rfl ?_
  rw [← hr₂]
  split
  · rename_i h
    exact absurd rfl ((hr 'e' (by rw [← hr₂, h]; rfl)).2.2.1)
  · rename_i h
    exact absurd rfl ((hr 'E' (by rw [← hr₂, h]; rfl)).2.2.2)
  · exact lands_floatFromParts positive _ _ c₂

/-- A fraction followed by an exponent. -/
theorem lands_readFraction_exponent (positive : Bool) (sig : Nat) (start : Int) {c : Cursor}
    {fs es rest : List Char} {sign : Char} (hsign : sign = '+' ∨ sign = '-')
    (hc : c.rest = '.' :: (fs ++ 'e' :: sign :: (es ++ rest))) (hfs : Digits fs) (hne : fs ≠ [])
    (hv : Nat.ofDigitChars 10 fs sig ≤ u64Max) (hes : Digits es) (hne' : es ≠ [])
    (hr : Delimits rest) (hv' : Nat.ofDigitChars 10 es 0 ≤ i32Max) :
    Lands (readFraction positive sig start) c rest
      (floatOfParts positive (Nat.ofDigitChars 10 fs sig)
        (clampI32 (if sign = '+' then start - fs.length + Nat.ofDigitChars 10 es 0
          else start - fs.length - Nat.ofDigitChars 10 es 0))) := by
  obtain ⟨hr₁, hd₁⟩ := advance_rest hc
  obtain ⟨c₂, h₂, hr₂, hd₂⟩ := lands_eatN fs hr₁
  rw [readFraction]
  refine Lands.step (outcome_eat c) hd₁ ?_
  refine Lands.step (outcome_digitRun hr₁ hfs (fun ch h => by simp at h; subst h; rfl)) rfl ?_
  rw [accumulate_of_le fs sig hv]
  refine Lands.step h₂ hd₂ ?_
  rw [List.length_map, if_neg (Nat.lt_irrefl _), if_neg (by simpa using hne)]
  refine Lands.step (outcome_peek_of hr₂) rfl ?_
  exact lands_readExponent positive _ _ hsign hr₂ hes hne' hr hv'

/-- A value read and returned through a function ends as the function says. -/
theorem Lands.bind_pure {r : Reader α} {c : Cursor} {rest : List Char} {o : Option α}
    (h : Lands r c rest o) (g : α → β) : Lands (do let x ← r; pure (g x)) c rest (o.map g) := by
  cases o with
  | none => exact Lands.stop h
  | some v =>
    obtain ⟨c', h', hr, hd⟩ := h
    exact Lands.step h' hd (Lands.of_ok rfl hr rfl)

/-- After the integer part, a point starts a fraction. -/
theorem lands_readNumberTail_point {positive : Bool} {sig : Nat} {c : Cursor} {t rest : List Char}
    {o : Option Binary64} (hc : c.rest = '.' :: t) (h : Lands (readFraction positive sig 0) c rest o) :
    Lands (readNumberTail positive sig) c rest (o.map .float) := by
  rw [readNumberTail]
  exact Lands.step (outcome_peek_of hc) rfl (h.bind_pure _)

/-- After the integer part, an exponent mark starts an exponent. -/
theorem lands_readNumberTail_exponent {positive : Bool} {sig : Nat} {c : Cursor}
    {t rest : List Char} {o : Option Binary64} (hc : c.rest = 'e' :: t)
    (h : Lands (readExponent positive sig 0) c rest o) :
    Lands (readNumberTail positive sig) c rest (o.map .float) := by
  rw [readNumberTail]
  exact Lands.step (outcome_peek_of hc) rfl (h.bind_pure _)

/-- An integer part followed by the end of the number is an unsigned integer. -/
theorem lands_readNumberTail_nat (sig : Nat) {c : Cursor} {rest : List Char} (hc : c.rest = rest)
    (hr : Delimits rest) : Lands (readNumberTail true sig) c rest (some (.nat sig)) := by
  rw [readNumberTail]
  refine Lands.step (outcome_peek c) rfl ?_
  rw [hc]
  split
  · rename_i h
    exact absurd rfl ((hr '.' (by rw [h]; rfl)).2.1)
  · rename_i h
    exact absurd rfl ((hr 'e' (by rw [h]; rfl)).2.2.1)
  · rename_i h
    exact absurd rfl ((hr 'E' (by rw [h]; rfl)).2.2.2)
  · rw [if_pos rfl]
    exact Lands.of_ok rfl hc rfl

/-- A number that starts with a zero: its integer part is that zero. -/
theorem lands_readNumber_zero {positive : Bool} {c : Cursor} {t rest : List Char}
    {o : Option Number} (hc : c.rest = '0' :: t) (ht : ∀ ch ∈ t.head?, ch.isDigit = false)
    (h : Lands (readNumberTail positive 0) c.advance rest o) : Lands (readNumber positive) c rest o := by
  obtain ⟨hr₁, hd₁⟩ := advance_rest hc
  rw [readNumber]
  refine Lands.step (outcome_next_of hc) hd₁ ?_
  refine Lands.step (outcome_peek c.advance) rfl ?_
  rw [hr₁]
  cases hh : t.head? with
  | none => exact h
  | some ch =>
    dsimp only
    rw [if_neg (by simp [ht ch (by simp [hh])])]
    exact h

/-- A number that starts with another digit: its integer part, taken whole while it stays
within `u64Max`. -/
theorem lands_readNumber_digits {positive : Bool} {c : Cursor} {i : Char} (is : List Char)
    {t rest : List Char}
    {o : Option Number} (hc : c.rest = i :: (is ++ t)) (hi : i.isDigit = true) (hi0 : i ≠ '0')
    (his : Digits is) (ht : ∀ ch ∈ t.head?, ch.isDigit = false)
    (hv : Nat.ofDigitChars 10 (i :: is) 0 ≤ u64Max)
    (h : ∀ c' : Cursor, c'.rest = t → c'.depth = c.depth →
      Lands (readNumberTail positive (Nat.ofDigitChars 10 (i :: is) 0)) c' rest o) :
    Lands (readNumber positive) c rest o := by
  obtain ⟨hr₁, hd₁⟩ := advance_rest hc
  obtain ⟨c₂, h₂, hr₂, hd₂⟩ := lands_eatN is hr₁
  rw [ofDigitChars_cons_zero] at hv h
  rw [readNumber]
  refine Lands.step (outcome_next_of hc) hd₁ ?_
  split
  · rename_i h0
    simp at h0
  · rename_i h0
    exact absurd (Option.some.inj h0) hi0
  · rename_i ch _ h0
    obtain rfl := Option.some.inj h0
    rw [if_pos hi]
    refine Lands.step (outcome_digitRun hr₁ his ht) rfl ?_
    rw [accumulate_of_le is _ hv]
    refine Lands.step h₂ hd₂ ?_
    rw [List.length_map, if_neg (Nat.lt_irrefl _)]
    exact h c₂ hr₂ (hd₂.trans hd₁)

/-- The digits of an integer part past the significand shift the exponent. -/
theorem lands_readLongInteger (positive : Bool) (sig : Nat) {c : Cursor} {ds rest : List Char}
    (hc : c.rest = ds ++ rest) (hds : Digits ds) (hr : Delimits rest) :
    Lands (readLongInteger positive sig) c rest (floatOfParts positive sig ds.length) := by
  obtain ⟨c₁, h₁, hr₁, hd₁⟩ := lands_eatN ds hc
  rw [readLongInteger]
  refine Lands.step (outcome_digitRun hc hds (fun ch h => (hr ch h).1)) rfl ?_
  rw [List.length_map]
  refine Lands.step h₁ hd₁ ?_
  refine Lands.step (outcome_peek c₁) rfl ?_
  rw [hr₁]
  split
  · rename_i h
    exact absurd rfl ((hr '.' (by rw [h]; rfl)).2.1)
  · rename_i h
    exact absurd rfl ((hr 'e' (by rw [h]; rfl)).2.2.1)
  · rename_i h
    exact absurd rfl ((hr 'E' (by rw [h]; rfl)).2.2.2)
  · rw [← hr₁]
    exact lands_floatFromParts positive sig _ c₁

/-- An integer part past `u64Max` is read as a float: the digits that fit make the
significand, the others shift the exponent. -/
theorem lands_readNumber_long {positive : Bool} {c : Cursor} {i : Char} (is : List Char)
    {rest : List Char}
    (hc : c.rest = i :: (is ++ rest)) (hi : i.isDigit = true) (hi0 : i ≠ '0') (his : Digits is)
    (hr : Delimits rest) (hv : u64Max < Nat.ofDigitChars 10 (i :: is) 0) :
    Lands (readNumber positive) c rest
      ((floatOfParts positive (accumulate u64Max (digitValue i) (is.map digitValue)).1
        (is.drop (accumulate u64Max (digitValue i) (is.map digitValue)).2).length).map .float) := by
  obtain ⟨hr₁, hd₁⟩ := advance_rest hc
  rw [ofDigitChars_cons_zero] at hv
  have hlt := accumulate_lt_of_lt is (digitValue i)
    (Nat.le_trans (Nat.le_of_lt (digitValue_lt hi)) (by decide)) hv
  rcases hacc : accumulate u64Max (digitValue i) (is.map digitValue) with ⟨sig, used⟩
  rw [hacc] at hlt
  -- the digits taken into the significand, then the others
  have hsplit : c.advance.rest = is.take used ++ (is.drop used ++ rest) := by
    rw [hr₁, ← List.append_assoc, List.take_append_drop]
  obtain ⟨c₂, h₂, hr₂, hd₂⟩ := lands_eatN _ hsplit
  rw [List.length_take_of_le (Nat.le_of_lt hlt)] at h₂
  rw [readNumber]
  refine Lands.step (outcome_next_of hc) hd₁ ?_
  split
  · rename_i h0
    simp at h0
  · rename_i h0
    exact absurd (Option.some.inj h0) hi0
  · rename_i ch _ h0
    obtain rfl := Option.some.inj h0
    rw [if_pos hi]
    refine Lands.step (outcome_digitRun hr₁ his (fun ch h => (hr ch h).1)) rfl ?_
    rw [hacc]
    refine Lands.step h₂ hd₂ ?_
    rw [List.length_map, if_pos hlt]
    exact (lands_readLongInteger positive sig hr₂
      (fun ch h => his ch (List.mem_of_mem_drop h)) hr).bind_pure _

/-- A sequence whose continuation always fails fails. -/
theorem Lands.bind_fail {r : Reader α} {f : α → Reader β} {c : Cursor} {rest : List Char}
    (hf : ∀ a c', Lands (f a) c' rest none) : Lands (r >>= f) c rest none := by
  rcases hr : outcome r c with ⟨_ | a, c₁⟩
  · exact Lands.of_error (outcome_bind_error hr)
  · obtain ⟨e, c', h⟩ := hf a c₁
    exact Lands.of_error ((outcome_bind_ok hr).trans h)

/-- `null` where another value is wanted is read and reported as of the wrong type. -/
theorem lands_invalidType_null (expected : String) {c : Cursor} {rest : List Char}
    (hc : c.rest = ['n', 'u', 'l', 'l'] ++ rest) :
    Lands (invalidType expected : Reader α) c rest none := by
  refine Lands.fixPosition ?_
  refine Lands.step (outcome_peek_of hc) rfl ?_
  exact Lands.bind_fail fun _ _ => Lands.bind_fail fun _ _ => Lands.bind_fail fun _ _ =>
    Lands.of_error rfl

/-- A number is read after its sign and then accepted or refused. -/
theorem lands_number {accept : Number → Except String α} {expected : String} {positive : Bool}
    {c : Cursor} {ch : Char} {t rest : List Char} {o : Option Number}
    (hc : c.rest = (if positive then [] else ['-']) ++ ch :: t) (hch : ch.isDigit = true)
    (h : ∀ c' : Cursor, c'.rest = ch :: t → c'.depth = c.depth → Lands (readNumber positive) c' rest o) :
    Lands (number accept expected) c rest (o.bind fun n => (accept n).toOption) := by
  refine Lands.fixPosition ?_
  cases positive with
  | false =>
    have hc' : c.rest = '-' :: ch :: t := by simpa using hc
    obtain ⟨hr₁, hd₁⟩ := advance_rest hc'
    refine Lands.step (outcome_skipBlanks (by simp [hc', blank])) rfl ?_
    rw [hc']
    simp only [List.head?_cons]
    refine Lands.step (outcome_eat c) hd₁ ?_
    refine Lands.bind (g := fun n => (accept n).toOption) (h c.advance hr₁ hd₁) ?_
    intro n _ c₁ hr₂ _
    cases accept n with
    | ok v => exact Lands.of_ok rfl hr₂ rfl
    | error m => exact Lands.of_error rfl
  | true =>
    have hc' : c.rest = ch :: t := by simpa using hc
    refine Lands.step (outcome_skipBlanks (by simp [hc', blank_of_isDigit hch])) rfl ?_
    rw [hc']
    simp only [List.head?_cons]
    split
    · rename_i h0
      simp at h0
    · rename_i h0
      obtain rfl := Option.some.inj h0
      simp at hch
    · rename_i ch' _ h0
      obtain rfl := Option.some.inj h0
      rw [if_pos hch]
      refine Lands.bind (g := fun n => (accept n).toOption) (h c hc' rfl) ?_
      intro n _ c₁ hr₁ _
      cases accept n with
      | ok v => exact Lands.of_ok rfl hr₁ rfl
      | error m => exact Lands.of_error rfl

theorem Lands.congr_option {r : Reader α} {c : Cursor} {rest : List Char} {o o' : Option α}
    (h : Lands r c rest o) (ho : o = o') : Lands r c rest o' :=
  ho ▸ h

/-! ### Unsigned integers -/

/-- The decimal text of a number is read as that number, when it fits the significand. -/
theorem lands_readNumber_toDigits {n : Nat} (hn : n ≤ u64Max) {c : Cursor} {rest : List Char}
    (hc : c.rest = Nat.toDigits 10 n ++ rest) (hr : Delimits rest) :
    Lands (readNumber true) c rest (some (.nat n)) := by
  obtain ⟨ch, t, hdig⟩ := List.exists_cons_of_ne_nil (Nat.toDigits_ne_nil (n := n) (b := 10))
  have hdigits := digits_toDigits n
  rw [hdig] at hdigits hc
  have hvalue : Nat.ofDigitChars 10 (ch :: t) 0 = n := by
    rw [← hdig]
    exact Nat.ofDigitChars_toDigits (by decide) (by decide)
  rcases Nat.eq_zero_or_pos n with rfl | hpos
  · -- zero is written as a single `0`
    have h0 : ch :: t = ['0'] := by rw [← hdig]; rfl
    obtain ⟨rfl, rfl⟩ := List.cons_eq_cons.1 h0
    refine lands_readNumber_zero hc (fun ch h => (hr ch h).1) ?_
    exact lands_readNumberTail_nat 0 (advance_rest hc).1 hr
  · refine lands_readNumber_digits t hc (hdigits ch List.mem_cons_self)
      (toDigits_head_ne_zero hpos hdig) (fun c h => hdigits c (List.mem_cons_of_mem _ h))
      (fun ch h => (hr ch h).1) (by rw [hvalue]; exact hn) ?_
    intro c' hr' _
    rw [hvalue]
    exact lands_readNumberTail_nat n hr' hr

/-- An unsigned integer is read back from its decimal text exactly when it fits the wanted
width. -/
theorem unsigned_yields {bits : Nat} (hbits : bits ≤ 64) (n : Nat) :
    Yields (unsigned bits) (toString n).toList (if n < Nat.pow 2 bits then some n else none) 0 := by
  intro c rest hc hr _
  have htext : (toString n).toList = Nat.toDigits 10 n := Nat.toList_repr
  rw [htext] at hc
  obtain ⟨ch, t, hdig⟩ := List.exists_cons_of_ne_nil (Nat.toDigits_ne_nil (n := n) (b := 10))
  have hdigits := digits_toDigits n
  rw [hdig] at hdigits
  have hc' : c.rest = (if true then [] else ['-']) ++ ch :: (t ++ rest) := by
    simp [hc, hdig]
  have hwide : Nat.pow 2 bits ≤ u64Max + 1 := by
    have := Nat.pow_le_pow_right (show 0 < 2 by decide) hbits
    unfold u64Max
    simp only [Nat.pow_eq] at this ⊢
    omega
  by_cases hn : n ≤ u64Max
  · refine (lands_number hc' (hdigits ch List.mem_cons_self) fun c' hr' _ =>
      lands_readNumber_toDigits hn (by rw [hr', hdig]; rfl) hr).congr_option ?_
    simp only [Option.bind_some]
    split <;> rfl
  · -- past the significand the number is read as a float, which no width accepts
    have hpos : 0 < n := by unfold u64Max at hn; omega
    have hvalue : Nat.ofDigitChars 10 (ch :: t) 0 = n := by
      rw [← hdig]
      exact Nat.ofDigitChars_toDigits (by decide) (by decide)
    refine (lands_number hc' (hdigits ch List.mem_cons_self) fun c' hr' _ =>
      lands_readNumber_long t hr' (hdigits ch List.mem_cons_self)
        (toDigits_head_ne_zero hpos hdig) (fun c h => hdigits c (List.mem_cons_of_mem _ h)) hr
        (by rw [hvalue]; omega)).congr_option ?_
    rw [if_neg (by omega)]
    cases floatOfParts true _ _ <;> rfl

/-! ### Decimal texts -/

theorem toDigits_eq_cons {D : Nat} (hD : 0 < D) :
    ∃ i is, Nat.toDigits 10 D = i :: is ∧ i.isDigit = true ∧ i ≠ '0' ∧ Digits is := by
  obtain ⟨i, is, h⟩ := List.exists_cons_of_ne_nil (Nat.toDigits_ne_nil (n := D) (b := 10))
  have hdigits := digits_toDigits D
  rw [h] at hdigits
  exact ⟨i, is, h, hdigits i List.mem_cons_self, toDigits_head_ne_zero hD h,
    fun c hc => hdigits c (List.mem_cons_of_mem _ hc)⟩

theorem ofDigitChars_toDigits_ten (D : Nat) : Nat.ofDigitChars 10 (Nat.toDigits 10 D) 0 = D :=
  Nat.ofDigitChars_toDigits (by decide) (by decide)

theorem lt_pow_length_toDigits (D : Nat) : D < Nat.pow 10 (Nat.toDigits 10 D).length :=
  (Nat.length_toDigits_le_iff (by decide) Nat.length_toDigits_pos).1 (Nat.le_refl _)

/-- An integer written with its zeros and `.0`: the reader takes the zero after the point as
one more digit. -/
theorem lands_readNumber_integer (positive : Bool) {D z : Nat} (hD : 0 < D)
    (hv : D * Nat.pow 10 z < Nat.pow 10 16) {c : Cursor} {rest : List Char}
    (hc : c.rest = Nat.toDigits 10 D ++ List.replicate z '0' ++ '.' :: '0' :: rest)
    (hr : Delimits rest) :
    Lands (readNumber positive) c rest
      ((floatOfParts positive (D * Nat.pow 10 (z + 1)) (-1)).map .float) := by
  obtain ⟨i, is, hs, hi, hi0, his⟩ := toDigits_eq_cons hD
  have hvalue : Nat.ofDigitChars 10 (i :: (is ++ List.replicate z '0')) 0 = Nat.pow 10 z * D := by
    rw [← List.cons_append, ← hs, Nat.ofDigitChars_append, Nat.ofDigitChars_replicate_zero,
      ofDigitChars_toDigits_ten, Nat.pow_eq]
  have hfits : 10 * (Nat.pow 10 z * D) ≤ u64Max := by
    rw [Nat.mul_comm (Nat.pow 10 z)]
    unfold u64Max
    have h16 : Nat.pow 10 16 * 10 < Nat.pow 2 64 := by decide
    omega
  have hfraction : Nat.ofDigitChars 10 ['0'] (Nat.pow 10 z * D) = 10 * (Nat.pow 10 z * D) := by
    rw [Nat.ofDigitChars_cons, Nat.ofDigitChars_nil, Nat.sub_self, Nat.add_zero]
  refine lands_readNumber_digits (is ++ List.replicate z '0') (t := '.' :: '0' :: rest)
    (by simp [hc, hs]) hi hi0
    (fun c hc => by
      rcases List.mem_append.1 hc with h | h
      · exact his c h
      · rw [List.eq_of_mem_replicate h]; rfl)
    (fun ch h => by simp at h; subst h; rfl) (by rw [hvalue]; omega) ?_
  intro c' hr' _
  rw [hvalue]
  refine (lands_readNumberTail_point hr' (lands_readFraction_end positive _ 0 ['0'] hr'
    (by simp [Digits]) (by simp) hr (by rw [hfraction]; exact hfits))).congr_option ?_
  have hpow : Nat.pow 10 (z + 1) = Nat.pow 10 z * 10 := rfl
  rw [hfraction, hpow, Nat.mul_comm 10, Nat.mul_comm (Nat.pow 10 z) D, Nat.mul_assoc]
  rfl

theorem digits_replicate_zero_append {z : Nat} {cs : List Char} (h : Digits cs) :
    Digits (List.replicate z '0' ++ cs) := fun c hc => by
  rcases List.mem_append.1 hc with hc | hc
  · rw [List.eq_of_mem_replicate hc]
    rfl
  · exact h c hc

/-- A value below one: `0.`, zeros, then the digits. -/
theorem lands_readNumber_fraction (positive : Bool) {D z : Nat} (hD : 0 < D) (hv : D ≤ u64Max)
    {c : Cursor} {rest : List Char}
    (hc : c.rest = '0' :: '.' :: (List.replicate z '0' ++ Nat.toDigits 10 D ++ rest))
    (hr : Delimits rest) :
    Lands (readNumber positive) c rest
      ((floatOfParts positive D (-((z + (Nat.toDigits 10 D).length : Nat) : Int))).map .float) := by
  have hvalue : Nat.ofDigitChars 10 (List.replicate z '0' ++ Nat.toDigits 10 D) 0 = D := by
    rw [Nat.ofDigitChars_append, Nat.ofDigitChars_replicate_zero, Nat.mul_zero,
      ofDigitChars_toDigits_ten]
  have hfs := digits_replicate_zero_append (z := z) (digits_toDigits D)
  obtain ⟨i, is, hs, -⟩ := toDigits_eq_cons hD
  have hne : List.replicate z '0' ++ Nat.toDigits 10 D ≠ [] := by simp [hs]
  refine lands_readNumber_zero hc (fun ch h => by simp at h; subst h; rfl) ?_
  have hpoint := (advance_rest hc).1
  refine (lands_readNumberTail_point hpoint (lands_readFraction_end positive 0 0 _
    (by rw [hpoint, List.append_assoc]) hfs hne hr (by rw [hvalue]; exact hv))).congr_option ?_
  rw [hvalue, List.length_append, List.length_replicate]
  congr 2
  omega

/-- A value with digits on both sides of the point. -/
theorem lands_readNumber_split (positive : Bool) {D n : Nat} (hD : 0 < D) (hv : D ≤ u64Max)
    (h0 : 0 < n) (hn : n < (Nat.toDigits 10 D).length) {c : Cursor} {rest : List Char}
    (hc : c.rest = (Nat.toDigits 10 D).take n ++ '.' :: ((Nat.toDigits 10 D).drop n ++ rest))
    (hr : Delimits rest) :
    Lands (readNumber positive) c rest
      ((floatOfParts positive D ((n : Int) - (Nat.toDigits 10 D).length)).map .float) := by
  obtain ⟨i, is, hs, hi, hi0, his⟩ := toDigits_eq_cons hD
  obtain ⟨m, rfl⟩ : ∃ m, n = m + 1 := ⟨n - 1, by omega⟩
  have htake : (Nat.toDigits 10 D).take (m + 1) = i :: is.take m := by rw [hs]; rfl
  have hall := List.take_append_drop (m + 1) (Nat.toDigits 10 D)
  have hvalue : Nat.ofDigitChars 10 ((Nat.toDigits 10 D).drop (m + 1))
      (Nat.ofDigitChars 10 (i :: is.take m) 0) = D := by
    rw [← htake, ← Nat.ofDigitChars_append, hall, ofDigitChars_toDigits_ten]
  have hfirst : Nat.ofDigitChars 10 (i :: is.take m) 0 ≤ u64Max :=
    Nat.le_trans (le_ofDigitChars _ _) (by rw [hvalue]; exact hv)
  have hdrop : Digits ((Nat.toDigits 10 D).drop (m + 1)) :=
    fun c hc => digits_toDigits D c (List.mem_of_mem_drop hc)
  rw [htake] at hc
  refine lands_readNumber_digits (is.take m) hc hi hi0
    (fun c hc => his c (List.mem_of_mem_take hc)) (fun ch h => by simp at h; subst h; rfl)
    hfirst ?_
  intro c' hr' _
  refine (lands_readNumberTail_point hr' (lands_readFraction_end positive _ 0 _ hr' hdrop
    (by simp; omega) hr (by rw [hvalue]; exact hv))).congr_option ?_
  rw [hvalue, List.length_drop]
  congr 2
  omega

/-- Scientific text of a single digit: the digit, the mark, the sign and the exponent. -/
theorem lands_readNumber_scientific_single (positive : Bool) {D E : Nat} (hD : 0 < D)
    (hlen : (Nat.toDigits 10 D).length = 1) (hE : E ≤ i32Max) {sign : Char}
    (hsign : sign = '+' ∨ sign = '-') {c : Cursor} {rest : List Char}
    (hc : c.rest = Nat.toDigits 10 D ++ 'e' :: sign :: (Nat.toDigits 10 E ++ rest))
    (hr : Delimits rest) :
    Lands (readNumber positive) c rest
      ((floatOfParts positive D (clampI32 (if sign = '+' then (E : Int) else -(E : Int)))).map
        .float) := by
  obtain ⟨i, is, hs, hi, hi0, -⟩ := toDigits_eq_cons hD
  obtain rfl : is = [] := by rw [hs] at hlen; simpa using hlen
  have hvalue : Nat.ofDigitChars 10 [i] 0 = D := by rw [← hs, ofDigitChars_toDigits_ten]
  rw [hs] at hc
  refine lands_readNumber_digits [] (t := 'e' :: sign :: (Nat.toDigits 10 E ++ rest))
    hc hi hi0 (by simp [Digits]) (fun ch h => by simp at h; subst h; rfl)
    (by
      rw [hvalue]
      have h10 := lt_pow_length_toDigits D
      rw [hlen] at h10
      exact Nat.le_trans (Nat.le_of_lt h10) (by decide)) ?_
  intro c' hr' _
  rw [hvalue]
  refine (lands_readNumberTail_exponent hr' (lands_readExponent positive D 0 hsign hr'
    (digits_toDigits E) Nat.toDigits_ne_nil hr (by rw [ofDigitChars_toDigits_ten]; exact hE))).congr_option ?_
  rw [ofDigitChars_toDigits_ten]
  congr 3
  split <;> omega

/-- Scientific text: the first digit, the point, the other digits, the mark, the sign and the
exponent. -/
theorem lands_readNumber_scientific (positive : Bool) {D E : Nat} (hD : 0 < D) (hv : D ≤ u64Max)
    (hlen : 1 < (Nat.toDigits 10 D).length) (hE : E ≤ i32Max) {sign : Char}
    (hsign : sign = '+' ∨ sign = '-') {c : Cursor} {rest : List Char}
    (hc : c.rest = (Nat.toDigits 10 D).take 1 ++
      '.' :: ((Nat.toDigits 10 D).drop 1 ++ 'e' :: sign :: (Nat.toDigits 10 E ++ rest)))
    (hr : Delimits rest) :
    Lands (readNumber positive) c rest
      ((floatOfParts positive D (clampI32 (if sign = '+' then
        1 - ((Nat.toDigits 10 D).length : Int) + E
        else 1 - ((Nat.toDigits 10 D).length : Int) - E))).map .float) := by
  obtain ⟨i, is, hs, hi, hi0, his⟩ := toDigits_eq_cons hD
  have hvalue : Nat.ofDigitChars 10 is (Nat.ofDigitChars 10 [i] 0) = D := by
    rw [← Nat.ofDigitChars_append, List.singleton_append, ← hs, ofDigitChars_toDigits_ten]
  rw [hs] at hc hlen ⊢
  simp only [List.take_succ_cons, List.take_zero, List.drop_succ_cons, List.drop_zero] at hc
  refine lands_readNumber_digits [] hc hi hi0 (by simp [Digits])
    (fun ch h => by simp at h; subst h; rfl)
    (Nat.le_trans (le_ofDigitChars is _) (by rw [hvalue]; exact hv)) ?_
  intro c' hr' _
  refine (lands_readNumberTail_point hr' (lands_readFraction_exponent positive _ 0 hsign hr' his
    (by simp at hlen; exact List.ne_nil_of_length_pos hlen) (by rw [hvalue]; exact hv)
    (digits_toDigits E) Nat.toDigits_ne_nil hr
    (by rw [ofDigitChars_toDigits_ten]; exact hE))).congr_option ?_
  rw [hvalue, ofDigitChars_toDigits_ten, List.length_cons]
  congr 3
  split <;> omega

/-- Zero, written `0.0`. -/
theorem lands_readNumber_zeroText (positive : Bool) {c : Cursor} {rest : List Char}
    (hc : c.rest = '0' :: '.' :: '0' :: rest) (hr : Delimits rest) :
    Lands (readNumber positive) c rest ((floatOfParts positive 0 (-1)).map .float) := by
  refine lands_readNumber_zero hc (fun ch h => by simp at h; subst h; rfl) ?_
  have hpoint := (advance_rest hc).1
  exact (lands_readNumberTail_point hpoint (lands_readFraction_end positive 0 0 ['0']
    hpoint (by simp [Digits]) (by simp) hr (by decide))).congr_option rfl

end Reader
end Json

namespace Decimal

theorem positional_ofNat_le {s : String} {n : Nat} (h : s.length ≤ n) :
    (positional s (.ofNat n)).toList = s.toList ++ List.replicate (n - s.length) '0' ++ ['.', '0'] := by
  unfold positional
  dsimp only
  rw [if_pos h]
  simp

theorem positional_zero {s : String} (h : 0 < s.length) :
    (positional s (.ofNat 0)).toList = '0' :: '.' :: s.toList := by
  unfold positional
  dsimp only
  rw [if_neg (by omega)]
  simp

theorem positional_ofNat_lt {s : String} {n : Nat} (h0 : 0 < n) (h : n < s.length) :
    (positional s (.ofNat n)).toList = s.toList.take n ++ '.' :: s.toList.drop n := by
  unfold positional
  dsimp only
  rw [if_neg (by omega), if_neg (by omega)]
  simp

theorem positional_negSucc (s : String) (m : Nat) :
    (positional s (.negSucc m)).toList = '0' :: '.' :: (List.replicate (m + 1) '0' ++ s.toList) := by
  unfold positional
  dsimp only
  simp

theorem scientific_single {s : String} (h : s.toList.drop 1 = []) (k : Int) :
    (scientific s k).toList = s.toList.take 1 ++
      'e' :: (if k - 1 < 0 then '-' else '+') :: Nat.toDigits 10 (k - 1).natAbs := by
  unfold scientific
  dsimp only
  rw [if_pos (by simp [h])]
  by_cases hk : k - 1 < 0 <;> simp [hk, digitString]

theorem scientific_long {s : String} (h : s.toList.drop 1 ≠ []) (k : Int) :
    (scientific s k).toList = s.toList.take 1 ++ '.' :: (s.toList.drop 1 ++
      'e' :: (if k - 1 < 0 then '-' else '+') :: Nat.toDigits 10 (k - 1).natAbs) := by
  unfold scientific
  dsimp only
  rw [if_neg (by simpa using h)]
  by_cases hk : k - 1 < 0 <;> simp [hk, digitString]

end Decimal

namespace Json
namespace Reader

theorem clampI32_of_natAbs_le {i : Int} (h : i.natAbs ≤ i32Max) : clampI32 i = i := by
  unfold clampI32
  unfold i32Max at h
  have h31 : (Nat.pow 2 31 : Int) = 2147483648 := rfl
  rw [h31]
  have : Nat.pow 2 31 = 2147483648 := rfl
  rw [this] at h
  omega

theorem length_toDigits_le_18 {D : Nat} (hv : D ≤ Nat.pow 10 17) : (Nat.toDigits 10 D).length ≤ 18 :=
  (Nat.length_toDigits_le_iff (by decide) (by decide)).2
    (Nat.lt_of_le_of_lt hv (by decide))

theorem digitString_toList (D : Nat) : (Decimal.digitString D).toList = Nat.toDigits 10 D :=
  String.toList_ofList

theorem digitString_length (D : Nat) : (Decimal.digitString D).length = (Nat.toDigits 10 D).length :=
  String.length_ofList

end Reader

/-- The significand and exponent the float reader takes from the JSON text of the nonzero
decimal `D × 10^e`: an integer below `10^16` is written with its zeros and `.0`, which adds
a digit and gives the exponent `-1`; any other value keeps its digits and exponent. -/
def decimalParts (D : Nat) (e : Int) : Nat × Int :=
  if 0 ≤ e ∧ e + (Nat.toDigits 10 D).length ≤ 16 then (D * Nat.pow 10 (e.toNat + 1), -1)
  else (D, e)

/-- The significand and exponent the float reader takes from the JSON text of a finite `x`:
zero is written `0.0`, any other value with its shortest digits. -/
def textParts (x : Binary64) : Nat × Int :=
  if x.isZero then (0, -1)
  else decimalParts (Decimal.shortest x).digits (Decimal.shortest x).exponent

/-- What the float reader gives for the JSON text of `x`: `null` fails; a finite value is
rebuilt from the parts of its text, its digits rounded to binary64 and then scaled by a
rounded power of ten. -/
def floatReread (x : Binary64) : Option Binary64 :=
  if x.isFinite then floatOfParts (!x.negative) (textParts x).1 (textParts x).2 else none

namespace Reader

/-- A positional text of a nonzero decimal: an integer with `.0`, a value below one, or digits
on both sides of the point. -/
theorem lands_readNumber_positional (positive : Bool) {D : Nat} {e k : Int} (hD : 0 < D)
    (hv : D ≤ Nat.pow 10 17) (hk : e + (Nat.toDigits 10 D).length = k) (hp : -5 < k ∧ k ≤ 16)
    {c : Cursor} {rest : List Char}
    (hc : c.rest = (Decimal.positional (Decimal.digitString D) k).toList ++ rest)
    (hr : Delimits rest) :
    Lands (readNumber positive) c rest
      ((floatOfParts positive (decimalParts D e).1 (decimalParts D e).2).map .float) := by
  have hfit : D ≤ u64Max := Nat.le_trans hv (by decide)
  have hlen := digitString_length D
  have hlt := lt_pow_length_toDigits D
  cases k with
  | ofNat n =>
    simp only [Int.ofNat_eq_natCast] at hk hp
    by_cases hle : (Decimal.digitString D).length ≤ n
    · -- an integer: its zeros and `.0`
      rw [Decimal.positional_ofNat_le hle, digitString_toList, hlen] at hc
      rw [hlen] at hle
      have hparts : decimalParts D e = (D * Nat.pow 10 (e.toNat + 1), -1) := by
        rw [decimalParts, if_pos (by omega)]
      have hz : e.toNat = n - (Nat.toDigits 10 D).length := by omega
      rw [hparts, hz]
      refine lands_readNumber_integer positive hD ?_ (by simpa using hc) hr
      calc D * Nat.pow 10 (n - (Nat.toDigits 10 D).length)
          < Nat.pow 10 (Nat.toDigits 10 D).length * Nat.pow 10 (n - (Nat.toDigits 10 D).length) :=
            Nat.mul_lt_mul_of_pos_right hlt (Nat.pow_pos (by decide))
        _ = Nat.pow 10 ((Nat.toDigits 10 D).length + (n - (Nat.toDigits 10 D).length)) :=
            (Nat.pow_add 10 _ _).symm
        _ = Nat.pow 10 n := by congr 1; omega
        _ ≤ Nat.pow 10 16 := Nat.pow_le_pow_right (by decide) (by omega)
    · have hparts : decimalParts D e = (D, e) := by
        rw [decimalParts, if_neg (by omega)]
      rw [hparts]
      by_cases h0 : n = 0
      · -- a value below one with no zeros after the point
        subst h0
        rw [Decimal.positional_zero (by omega), digitString_toList] at hc
        refine (lands_readNumber_fraction positive (z := 0) hD hfit (by simpa using hc) hr).congr_option ?_
        congr 2
        omega
      · -- digits on both sides of the point
        rw [Decimal.positional_ofNat_lt (by omega) (by omega), digitString_toList] at hc
        refine (lands_readNumber_split positive hD hfit (n := n) (by omega) (by omega)
          (by simpa using hc) hr).congr_option ?_
        congr 2
        omega
  | negSucc m =>
    -- a value below one with zeros after the point
    have hparts : decimalParts D e = (D, e) := by
      rw [decimalParts, if_neg (by omega)]
    rw [hparts]
    rw [Decimal.positional_negSucc, digitString_toList] at hc
    refine (lands_readNumber_fraction positive (z := m + 1) hD hfit (by simpa using hc) hr).congr_option ?_
    congr 2
    omega

/-- A scientific text of a nonzero decimal, with one digit or with a point after the first. -/
theorem lands_readNumber_scientificText (positive : Bool) {D : Nat} {e k : Int} (hD : 0 < D)
    (hv : D ≤ Nat.pow 10 17) (he : e.natAbs ≤ 1100) (hk : e + (Nat.toDigits 10 D).length = k)
    (hp : ¬(-5 < k ∧ k ≤ 16)) {c : Cursor} {rest : List Char}
    (hc : c.rest = (Decimal.scientific (Decimal.digitString D) k).toList ++ rest)
    (hr : Delimits rest) :
    Lands (readNumber positive) c rest
      ((floatOfParts positive (decimalParts D e).1 (decimalParts D e).2).map .float) := by
  have hfit : D ≤ u64Max := Nat.le_trans hv (by decide)
  have hlen := length_toDigits_le_18 hv
  have hpos : 0 < (Nat.toDigits 10 D).length := Nat.length_toDigits_pos
  have hparts : decimalParts D e = (D, e) := by
    rw [decimalParts, if_neg (by omega)]
  rw [hparts]
  -- the exponent after the `e` is `k - 1`, its sign written apart
  have hsign : (if k - 1 < 0 then '-' else '+') = '+' ∨ (if k - 1 < 0 then '-' else '+') = '-' := by
    by_cases h : k - 1 < 0 <;> simp [h]
  have hsigned : ∀ a : Int, (if (if k - 1 < 0 then '-' else '+') = '+' then a + ((k - 1).natAbs : Int)
      else a - ((k - 1).natAbs : Int)) = a + (k - 1) := by
    intro a
    by_cases h : k - 1 < 0
    · rw [if_pos h, if_neg (by decide)]
      omega
    · rw [if_neg h, if_pos rfl]
      omega
  have hE : (k - 1).natAbs ≤ i32Max := Nat.le_trans (show (k - 1).natAbs ≤ 1120 by omega) (by decide)
  have he32 : e.natAbs ≤ i32Max := Nat.le_trans he (by decide)
  by_cases h1 : (Nat.toDigits 10 D).length = 1
  · -- a single digit: no point
    have hdrop : (Nat.toDigits 10 D).drop 1 = [] := List.drop_eq_nil_of_le (by omega)
    have htake : (Nat.toDigits 10 D).take 1 = Nat.toDigits 10 D := List.take_of_length_le (by omega)
    rw [Decimal.scientific_single (by rw [digitString_toList]; exact hdrop), digitString_toList,
      htake] at hc
    refine (lands_readNumber_scientific_single positive hD h1 hE hsign (by simpa using hc) hr).congr_option ?_
    have hexp := hsigned 0
    simp only [Int.zero_add, Int.zero_sub] at hexp
    rw [hexp, show k - 1 = e by omega, clampI32_of_natAbs_le he32]
  · -- several digits: a point after the first
    rw [Decimal.scientific_long (by rw [digitString_toList, Ne, List.drop_eq_nil_iff]; omega),
      digitString_toList] at hc
    refine (lands_readNumber_scientific positive hD hfit (by omega) hE hsign (by simpa using hc) hr).congr_option ?_
    rw [hsigned, show 1 - ((Nat.toDigits 10 D).length : Int) + (k - 1) = e by omega,
      clampI32_of_natAbs_le he32]

/-- Every text of a nonzero decimal starts with a digit. -/
theorem head_positional_isDigit {D : Nat} (hD : 0 < D) (k : Int) :
    ∃ ch t, (Decimal.positional (Decimal.digitString D) k).toList = ch :: t ∧ ch.isDigit = true := by
  obtain ⟨i, is, hs, hi, -, -⟩ := toDigits_eq_cons hD
  have hlen := digitString_length D
  rw [hs] at hlen
  cases k with
  | ofNat n =>
    by_cases hle : (Decimal.digitString D).length ≤ n
    · rw [Decimal.positional_ofNat_le hle, digitString_toList, hs]
      exact ⟨i, _, rfl, hi⟩
    · by_cases h0 : n = 0
      · subst h0
        rw [Decimal.positional_zero (by simp at hlen; omega)]
        exact ⟨'0', _, rfl, rfl⟩
      · obtain ⟨m, rfl⟩ : ∃ m, n = m + 1 := ⟨n - 1, by omega⟩
        rw [Decimal.positional_ofNat_lt (by omega) (by omega), digitString_toList, hs]
        exact ⟨i, _, rfl, hi⟩
  | negSucc m =>
    rw [Decimal.positional_negSucc]
    exact ⟨'0', _, rfl, rfl⟩

theorem head_scientific_isDigit {D : Nat} (hD : 0 < D) (k : Int) :
    ∃ ch t, (Decimal.scientific (Decimal.digitString D) k).toList = ch :: t ∧ ch.isDigit = true := by
  obtain ⟨i, is, hs, hi, -, -⟩ := toDigits_eq_cons hD
  by_cases hdrop : (Decimal.digitString D).toList.drop 1 = []
  · rw [Decimal.scientific_single hdrop, digitString_toList, hs]
    exact ⟨i, _, rfl, hi⟩
  · rw [Decimal.scientific_long hdrop, digitString_toList, hs]
    exact ⟨i, _, rfl, hi⟩

/-- `null` is refused where a number is wanted. -/
theorem lands_number_null {accept : Number → Except String α} {expected : String} {c : Cursor}
    {rest : List Char} (hc : c.rest = ['n', 'u', 'l', 'l'] ++ rest) :
    Lands (number accept expected) c rest none := by
  refine Lands.fixPosition ?_
  refine Lands.step (outcome_skipBlanks (by simp [hc, blank])) rfl ?_
  rw [hc]
  simp only [List.cons_append, List.head?_cons]
  split
  · rename_i h0
    simp at h0
  · rename_i h0
    simp at h0
  · rename_i ch _ h0
    obtain rfl := Option.some.inj h0
    rw [if_neg (by decide)]
    exact Lands.stop (lands_invalidType_null expected hc)

/-- A float is its sign and a number text that starts with a digit. -/
theorem lands_float {negative : Bool} {B : List Char} {P : Nat × Int} {c : Cursor}
    {rest : List Char} (hc : c.rest = (if negative then ['-'] else []) ++ B ++ rest)
    (hB : ∃ ch t, B = ch :: t ∧ ch.isDigit = true)
    (h : ∀ c' : Cursor, c'.rest = B ++ rest →
      Lands (readNumber (!negative)) c' rest ((floatOfParts (!negative) P.1 P.2).map .float)) :
    Lands float c rest (floatOfParts (!negative) P.1 P.2) := by
  obtain ⟨ch, t, rfl, hch⟩ := hB
  refine (lands_number (t := t ++ rest) (by cases negative <;> simpa using hc) hch
    fun c' hc' _ => h c' (by simpa using hc')).congr_option ?_
  cases floatOfParts (!negative) P.1 P.2 <;> rfl

/-- The JSON text of a binary64 value is read as what its parts give: `null` is refused, and a
finite value is rebuilt from the digits and exponent of its text. -/
theorem float_yields (x : Binary64) : Yields float (floatText x).toList (floatReread x) 0 := by
  intro c rest hc hr _
  unfold floatReread
  by_cases hf : x.isFinite = true
  · rw [if_pos hf]
    rw [floatText, if_pos hf, Decimal.Notation.write] at hc
    by_cases hz : x.isZero = true
    · -- zero is written `0.0`
      have hparts : textParts x = (0, -1) := by rw [textParts, if_pos hz]
      rw [if_pos hz] at hc
      rw [hparts]
      exact lands_float (B := ['0', '.', '0']) (by rw [hc]; cases x.negative <;> simp)
        ⟨_, _, rfl, rfl⟩ fun c' h' => lands_readNumber_zeroText _ (by simpa using h') hr
    · have hparts : textParts x =
          decimalParts (Decimal.shortest x).digits (Decimal.shortest x).exponent := by
        rw [textParts, if_neg hz]
      obtain ⟨hD, hv, he⟩ := Decimal.shortest_bounds hf (by simpa using hz)
      rw [if_neg hz] at hc
      rw [hparts]
      generalize Decimal.shortest x = d at hD hv he hc ⊢
      obtain ⟨D, e⟩ := d
      dsimp only [Decimal.pointForm] at hc hD hv he ⊢
      rw [digitString_length] at hc
      by_cases hp : floatNotation.isPositional (e + ((Nat.toDigits 10 D).length : Int)) = true
      · have hk : -5 < e + ((Nat.toDigits 10 D).length : Int) ∧
            e + ((Nat.toDigits 10 D).length : Int) ≤ 16 := by
          simpa [floatNotation, Decimal.Notation.isPositional] using hp
        rw [if_pos hp] at hc
        exact lands_float (by rw [hc]; cases x.negative <;> simp) (head_positional_isDigit hD _)
          fun c' h' => lands_readNumber_positional _ hD hv rfl hk h' hr
      · have hk : ¬(-5 < e + ((Nat.toDigits 10 D).length : Int) ∧
            e + ((Nat.toDigits 10 D).length : Int) ≤ 16) := by
          simpa [floatNotation, Decimal.Notation.isPositional] using hp
        rw [if_neg hp] at hc
        exact lands_float (by rw [hc]; cases x.negative <;> simp) (head_scientific_isDigit hD _)
          fun c' h' => lands_readNumber_scientificText _ hD hv he rfl hk h' hr
  · -- NaN and the infinities are written `null`
    rw [if_neg hf]
    rw [floatText, if_neg hf] at hc
    exact lands_number_null (by rw [hc]; rfl)

/-- A sign in front of an item's text keeps it an item. -/
theorem opens_signed (negative : Bool) {s : String} (h : Opens s.toList) :
    Opens ((if negative then "-" else "") ++ s).toList := by
  cases negative with
  | true => exact ⟨'-', s.toList, by simp, by decide, by decide, by decide⟩
  | false => simpa using h

/-- The JSON text of every binary64 value opens an item: a sign, a digit, or the `n` of
`null`. -/
theorem opens_floatText (x : Binary64) : Opens (floatText x).toList := by
  unfold floatText
  by_cases hf : x.isFinite = true
  · rw [if_pos hf, Decimal.Notation.write]
    by_cases hz : x.isZero = true
    · rw [if_pos hz]
      exact opens_signed _ (opens_of_isDigit (u := ['.', '0']) (c := '0') (by simp) rfl)
    · rw [if_neg hz]
      obtain ⟨hD, -, -⟩ := Decimal.shortest_bounds hf (by simpa using hz)
      dsimp only [Decimal.pointForm]
      refine opens_signed _ ?_
      generalize (Decimal.shortest x).exponent +
        ((Decimal.digitString (Decimal.shortest x).digits).length : Int) = k
      by_cases hp : floatNotation.isPositional k = true
      · rw [if_pos hp]
        obtain ⟨c, t, ht, hc⟩ := head_positional_isDigit hD k
        exact opens_of_isDigit ht hc
      · rw [if_neg hp]
        obtain ⟨c, t, ht, hc⟩ := head_scientific_isDigit hD k
        exact opens_of_isDigit ht hc
  · rw [if_neg hf]
    exact ⟨'n', ['u', 'l', 'l'], by simp, by decide, by decide, by decide⟩

/-- A value read and then stored reads as the stored value. -/
theorem Yields.store {r : Reader α} {t : List Char} {o : Option α} {d : Nat} (g : α → β)
    (h : Yields r t o d) : Yields (r >>= fun a => Pure.pure (g a)) t (o.map g) d := by
  have hb := Yields.bind (f := fun a => Pure.pure (g a)) (g := fun a => some (g a)) h
    (fun a _ => Yields.pure (g a) d) (by simp [Delimits])
  rw [List.append_nil] at hb
  cases o <;> exact hb

end Reader

/-- **The library programs are read with is lawful**, read through `Reader.Yields`. -/
theorem serdeJson_lawful : serdeJson.Lawful Reader.Yields where
  run {α r s o d} h hd := by
    have hrun := Reader.run_toOption h hd
    change ((Reader.run r s).mapError Error.message).toOption = o
    rw [← hrun]
    cases Reader.run r s <;> rfl
  mono h hd := h.mono hd
  store g h := h.store g
  string := Reader.string_yields
  quote_head s := ⟨_, by rw [show serdeJson.quote s = quote s from rfl, Reader.quote_toList]; rfl⟩
  unsigned n hbits := Reader.unsigned_yields hbits n
  floatText_opens := Reader.opens_floatText
  float x := ⟨_, Reader.float_yields x⟩
  float_null x hx := by
    show Reader.Yields Reader.float (floatText x).toList none 0
    simpa [floatReread, hx] using Reader.float_yields x
  list ps hps := Reader.list_yields ps hps
  option h ht := Reader.option_yields h ht
  record ms hms hnodup := Reader.record_yields ms hms hnodup

/-- The text of a double reads back as its parts give. -/
theorem serdeJson_floatBack (x : Binary64) : serdeJson.floatBack x = floatReread x :=
  serdeJson_lawful.run (Reader.float_yields x) (by decide)

end Json
end QirGen
