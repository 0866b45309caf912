import QirGen.Json.Decode
import QirGen.Proofs.Json.Lawful

/-!
# Reading back what is written

A reader runs against a cursor; `Reader.outcome r c` is what it gives from `c` and the cursor
it leaves. `Lands r c rest o` says how a run from `c` ends: with `o = some v` it gives `v` and
leaves `rest` unread, with `o = none` it fails. `Yields r t o d` says the same of every cursor
at the text `t` followed by a text that cannot continue it (`Delimits`), with more than `d`
levels of nesting left: `r` reads `t` as `o` says.

Readers are sequenced by `Yields.bind`, and each reader of the library gets its lemma here: a
string reads its quoted form back, an array the items written between brackets, a record its
members written as an object with keys in any order, and a failing item or member makes the
whole fail.
-/

namespace QirGen
namespace Json
namespace Reader

variable {α β : Type}

/-- What a reader gives from a cursor: its outcome and the cursor it leaves. -/
def outcome (r : Reader α) (c : Cursor) : Except Error α × Cursor := (ExceptT.run r).run c

@[simp] theorem outcome_pure (a : α) (c : Cursor) : outcome (pure a) c = (.ok a, c) := rfl

theorem outcome_bind (r : Reader α) (f : α → Reader β) (c : Cursor) :
    outcome (r >>= f) c = match outcome r c with
      | (.ok a, c') => outcome (f a) c'
      | (.error e, c') => (.error e, c') := by
  unfold outcome ExceptT.run StateT.run
  simp only [bind, ExceptT.bind, ExceptT.mk, StateT.bind, ExceptT.bindCont]
  cases r c with
  | mk result c' => cases result <;> rfl

theorem outcome_bind_ok {r : Reader α} {f : α → Reader β} {c c' : Cursor} {a : α}
    (h : outcome r c = (.ok a, c')) : outcome (r >>= f) c = outcome (f a) c' := by
  rw [outcome_bind, h]

theorem outcome_bind_error {r : Reader α} {f : α → Reader β} {c c' : Cursor} {e : Error}
    (h : outcome r c = (.error e, c')) : outcome (r >>= f) c = (.error e, c') := by
  rw [outcome_bind, h]

theorem outcome_map (f : α → β) (r : Reader α) (c : Cursor) :
    outcome (f <$> r) c = match outcome r c with
      | (.ok a, c') => (.ok (f a), c')
      | (.error e, c') => (.error e, c') := by
  unfold outcome ExceptT.run StateT.run
  simp only [Functor.map, ExceptT.map, ExceptT.mk, bind, StateT.bind]
  cases r c with
  | mk result c' => cases result <;> rfl

@[simp] theorem outcome_get (c : Cursor) : outcome (get : Reader Cursor) c = (.ok c, c) := rfl

@[simp] theorem outcome_set (c c' : Cursor) : outcome (set c' : Reader PUnit) c = (.ok ⟨⟩, c') :=
  rfl

@[simp] theorem outcome_modify (f : Cursor → Cursor) (c : Cursor) :
    outcome (modify f : Reader PUnit) c = (.ok ⟨⟩, f c) := rfl

@[simp] theorem outcome_throw (e : Error) (c : Cursor) :
    outcome (throw e : Reader α) c = (.error e, c) := rfl

@[simp] theorem outcome_peek (c : Cursor) : outcome peek c = (.ok c.rest.head?, c) := rfl

@[simp] theorem outcome_eat (c : Cursor) : outcome eat c = (.ok (), c.advance) := rfl

@[simp] theorem outcome_next (c : Cursor) : outcome next c = (.ok c.rest.head?, c.advance) := rfl

theorem outcome_fail (code : ErrorCode) (c : Cursor) :
    ∃ e, outcome (fail code : Reader α) c = (.error e, c) := ⟨_, rfl⟩

@[simp] theorem outcome_failMessage (text : String) (c : Cursor) :
    outcome (failMessage text : Reader α) c = (.error { code := .message text }, c) := rfl

theorem outcome_tryCatch (r : Reader α) (handle : Error → Reader α) (c : Cursor) :
    outcome (tryCatch r handle) c = match outcome r c with
      | (.ok a, c') => (.ok a, c')
      | (.error e, c') => outcome (handle e) c' := by
  unfold outcome ExceptT.run StateT.run
  simp only [tryCatch, tryCatchThe, MonadExceptOf.tryCatch, ExceptT.tryCatch, ExceptT.mk, bind,
    StateT.bind]
  cases r c with
  | mk result c' => cases result <;> rfl

/-- Placing an error leaves a success as it is. -/
theorem outcome_fixPosition_ok {r : Reader α} {c c' : Cursor} {a : α}
    (h : outcome r c = (.ok a, c')) : outcome (fixPosition r) c = (.ok a, c') := by
  rw [fixPosition, outcome_tryCatch, h]

/-- Placing an error keeps it an error. -/
theorem outcome_fixPosition_error {r : Reader α} {c c' : Cursor} {e : Error}
    (h : outcome r c = (.error e, c')) : ∃ e', outcome (fixPosition r) c = (.error e', c') := by
  rw [fixPosition, outcome_tryCatch, h]
  dsimp only
  split <;> exact ⟨_, rfl⟩


/-- With no blank ahead, skipping blanks changes nothing and shows the next character. -/
theorem outcome_skipBlanks {c : Cursor} (h : ∀ ch ∈ c.rest.head?, blank ch = false) :
    outcome skipBlanks c = (.ok c.rest.head?, c) := by
  have hdrop : c.rest.dropWhile blank = c.rest := by
    cases hc : c.rest with
    | nil => rfl
    | cons ch cs =>
      rw [List.dropWhile_cons_of_neg]
      simpa using h ch (by simp [hc])
  have hskip : c.rest.dropWhile (fun ch => ch == ' ' || ch == '\n' || ch == '\t' || ch == '\r') =
      c.rest := hdrop
  simp only [skipBlanks, outcome_bind, outcome_get, outcome_set, outcome_pure, hskip,
    Nat.sub_self, List.take_zero, List.count_nil, List.length_nil, Nat.add_zero, if_true]


theorem advance_rest {c : Cursor} {ch : Char} {r : List Char} (h : c.rest = ch :: r) :
    c.advance.rest = r ∧ c.advance.depth = c.depth := by
  unfold Cursor.advance
  split <;> simp_all

theorem outcome_attempt (r : Reader α) (c : Cursor) :
    outcome (attempt r) c = (.ok (outcome r c).1, (outcome r c).2) := rfl


theorem outcome_next_of {c : Cursor} {ch : Char} {r : List Char} (h : c.rest = ch :: r) :
    outcome next c = (.ok (some ch), c.advance) := by
  simp [h]

theorem outcome_peek_of {c : Cursor} {ch : Char} {r : List Char} (h : c.rest = ch :: r) :
    outcome peek c = (.ok (some ch), c) := by
  simp [h]

/-! ### Where a reader ends -/

/-- How a reader run from `c` ends, as `o` says: with `some v` it gives `v` and leaves the text
`rest` unread, at the depth it started from; with `none` it fails. -/
def Lands (r : Reader α) (c : Cursor) (rest : List Char) : Option α → Prop
  | some v => ∃ c', outcome r c = (.ok v, c') ∧ c'.rest = rest ∧ c'.depth = c.depth
  | none => ∃ e c', outcome r c = (.error e, c')

namespace Lands

variable {r r' : Reader α} {f : α → Reader β} {c c₁ c' : Cursor} {rest mid : List Char} {a v : α}
  {o : Option α}

theorem of_ok (h : outcome r c = (.ok v, c')) (hr : c'.rest = rest) (hd : c'.depth = c.depth) :
    Lands r c rest (some v) :=
  ⟨c', h, hr, hd⟩

theorem of_error {e : Error} (h : outcome r c = (.error e, c')) : Lands r c rest none :=
  ⟨e, c', h⟩

/-- After a first step that gives `a`, a sequence ends as its continuation does. -/
theorem step {o : Option β} (h : outcome r c = (.ok a, c₁)) (hd : c₁.depth = c.depth)
    (h' : Lands (f a) c₁ rest o) : Lands (r >>= f) c rest o := by
  cases o with
  | none =>
    obtain ⟨e, c', h'⟩ := h'
    exact of_error ((outcome_bind_ok h).trans h')
  | some b =>
    obtain ⟨c', h', hr, hd'⟩ := h'
    exact of_ok ((outcome_bind_ok h).trans h') hr (hd'.trans hd)

theorem bind {g : α → Option β} (h₁ : Lands r c mid o)
    (h₂ : ∀ a ∈ o, ∀ c₁ : Cursor, c₁.rest = mid → c₁.depth = c.depth → Lands (f a) c₁ rest (g a)) :
    Lands (r >>= f) c rest (o.bind g) := by
  cases o with
  | none =>
    obtain ⟨e, c', h⟩ := h₁
    exact of_error (outcome_bind_error h)
  | some a =>
    obtain ⟨c₁, h, hr, hd⟩ := h₁
    exact step h hd (h₂ a rfl c₁ hr hd)

/-- A first step that fails makes the sequence fail. -/
theorem stop (h : Lands r c mid none) : Lands (r >>= f) c rest none := by
  obtain ⟨e, c', h⟩ := h
  exact of_error (outcome_bind_error h)

theorem map (g : α → β) (h : Lands r c rest o) : Lands (g <$> r) c rest (o.map g) := by
  cases o with
  | none =>
    obtain ⟨e, c', h⟩ := h
    exact ⟨e, c', by rw [outcome_map, h]⟩
  | some v =>
    obtain ⟨c', h, hr, hd⟩ := h
    exact of_ok (by rw [outcome_map, h]) hr hd

theorem fixPosition (h : Lands r c rest o) : Lands (Reader.fixPosition r) c rest o := by
  cases o with
  | none =>
    obtain ⟨e, c', h⟩ := h
    obtain ⟨e', h'⟩ := outcome_fixPosition_error h
    exact of_error h'
  | some v =>
    obtain ⟨c', h, hr, hd⟩ := h
    exact of_ok (outcome_fixPosition_ok h) hr hd

end Lands

theorem lands_eatN {c : Cursor} {rest : List Char} :
    ∀ (cs : List Char), c.rest = cs ++ rest → Lands (eatN cs.length) c rest (some ())
  | [], h => Lands.of_ok rfl h rfl
  | ch :: cs, h => by
    obtain ⟨h₁, hd₁⟩ := advance_rest (r := cs ++ rest) (by simpa using h)
    simp only [List.length_cons, eatN]
    exact Lands.step (outcome_eat c) hd₁ (lands_eatN cs h₁)

theorem lands_eatPlain {c : Cursor} {cs rest : List Char} (h : c.rest = cs ++ rest) :
    Lands (eatPlain cs) c rest (some ()) :=
  Lands.of_ok rfl (by simp [h]) rfl

/-! ### Reading a text -/

/-- The text after a value: empty, or starting with a character that cannot continue a
number. -/
def Delimits (rest : List Char) : Prop :=
  ∀ ch ∈ rest.head?, ch.isDigit = false ∧ ch ≠ '.' ∧ ch ≠ 'e' ∧ ch ≠ 'E'

theorem Delimits.append {t rest : List Char} (ht : Delimits t) (hr : Delimits rest) :
    Delimits (t ++ rest) := by
  cases t with
  | nil => simpa using hr
  | cons ch t => simpa [Delimits] using ht

/-- A comma, a closing bracket or brace, or a colon ends a number. -/
theorem delimits_cons {ch : Char} (h : ch = ',' ∨ ch = ']' ∨ ch = '}' ∨ ch = ':') (t : List Char) :
    Delimits (ch :: t) := by
  intro x hx
  obtain rfl : ch = x := by simpa using hx
  rcases h with rfl | rfl | rfl | rfl <;> decide

/-- `r` reads the text `t` as `o` says, with `d` levels of nesting: from a cursor at `t`
followed by a text that delimits it, with more than `d` levels left, it gives the value of
`o` and stops right after `t`, or fails when `o` is `none`. -/
def Yields (r : Reader α) (t : List Char) (o : Option α) (d : Nat) : Prop :=
  ∀ c : Cursor, ∀ rest : List Char, c.rest = t ++ rest → Delimits rest → d < c.depth →
    Lands r c rest o

namespace Yields

variable {r : Reader α} {f : α → Reader β} {t t₁ t₂ : List Char} {o : Option α} {d : Nat}

theorem pure (a : α) (d : Nat) : Yields (Pure.pure a) [] (some a) d :=
  fun _ _ hc _ _ => Lands.of_ok rfl hc rfl

theorem bind {g : α → Option β} (h₁ : Yields r t₁ o d) (h₂ : ∀ a ∈ o, Yields (f a) t₂ (g a) d)
    (ht : Delimits t₂) : Yields (r >>= f) (t₁ ++ t₂) (o.bind g) d := by
  intro c rest hc hr hd
  refine Lands.bind (h₁ c (t₂ ++ rest) (by simp [hc]) (ht.append hr) hd) ?_
  intro a ha c₁ hr₁ hd₁
  exact h₂ a ha c₁ rest hr₁ hr (hd₁ ▸ hd)

theorem map (g : α → β) (h : Yields r t o d) : Yields (g <$> r) t (o.map g) d :=
  fun c rest hc hr hd => (h c rest hc hr hd).map g

theorem mono {d' : Nat} (h : Yields r t o d) (hd : d ≤ d') : Yields r t o d' :=
  fun c rest hc hr hdc => h c rest hc hr (Nat.lt_of_le_of_lt hd hdc)

theorem fixPosition (h : Yields r t o d) : Yields (Reader.fixPosition r) t o d :=
  fun c rest hc hr hd => (h c rest hc hr hd).fixPosition

end Yields

/-! ### Strings -/

/-- Each character takes at least one byte. -/
theorem length_le_byteCount (cs : List Char) : cs.length ≤ byteCount cs := by
  suffices h : ∀ k, k + cs.length ≤ cs.foldl (fun n c => n + c.utf8Size) k from
    by simpa [byteCount] using h 0
  induction cs with
  | nil => simp
  | cons ch cs ih =>
    intro k
    have := ih (k + ch.utf8Size)
    have := ch.utf8Size_pos
    simp only [List.foldl_cons, List.length_cons]
    omega

/-- Four hexadecimal digits are read as their value. -/
theorem lands_hexEscape {c : Cursor} {hs rest : List Char} {n : Nat} (hlen : hs.length = 4)
    (hc : c.rest = hs ++ rest) (hv : hex4? hs = some n) : Lands hexEscape c rest (some n) := by
  have htake : c.rest.take 4 = hs := by simp [hc, ← hlen]
  have heat := lands_eatN hs hc
  rw [hlen] at heat
  rw [hexEscape]
  refine Lands.step (outcome_get c) rfl ?_
  rw [if_neg (by have := length_le_byteCount hs; rw [htake]; omega), htake, hv]
  obtain ⟨c', h', hr', hd'⟩ := heat
  exact Lands.of_ok (by rw [outcome_bind_ok h']; rfl) hr' hd'

theorem hexValue?_hexDigit : ∀ v, v < 16 → hexValue? (hexDigit v) = some v := by decide

/-- A control character is written as the escape `\u00XY` of its code. -/
theorem lands_unicodeEscape {ch : Char} (hch : ch.toNat < 32) {c : Cursor} {rest : List Char}
    (hc : c.rest = ['0', '0', hexDigit (ch.toNat / 16), hexDigit (ch.toNat % 16)] ++ rest) :
    Lands unicodeEscape c rest (some ch) := by
  have hv : hex4? ['0', '0', hexDigit (ch.toNat / 16), hexDigit (ch.toNat % 16)] = some ch.toNat := by
    simp only [hex4?, hexValue?_hexDigit _ (Nat.div_lt_of_lt_mul (show ch.toNat < 16 * 16 by omega)),
      hexValue?_hexDigit _ (Nat.mod_lt _ (by omega))]
    simp only [hexValue?, show ('0' : Char).isDigit = true from rfl, if_true,
      show ('0' : Char).toNat = 48 from rfl]
    simp only [bind, Option.bind, pure]
    congr 1
    omega
  obtain ⟨c', h', hr', hd'⟩ := lands_hexEscape rfl hc hv
  refine Lands.of_ok ?_ hr' hd'
  rw [unicodeEscape, outcome_bind_ok h', if_neg (by omega), if_pos (by omega), Char.ofNat_toNat]
  rfl

theorem escapeChar_of_plain {ch : Char} (h : isPlainInString ch = true) :
    escapeChar ch = String.singleton ch := by
  simp only [isPlainInString, Bool.and_eq_true, bne_iff_ne, ne_eq, decide_eq_true_eq] at h
  obtain ⟨⟨hq, hb⟩, hn⟩ := h
  unfold escapeChar
  split
  · exact absurd rfl hq
  · exact absurd rfl hb
  -- the other escaped characters are control characters
  · exact absurd hn (by decide)
  · exact absurd hn (by decide)
  · exact absurd hn (by decide)
  · exact absurd hn (by decide)
  · exact absurd hn (by decide)
  · rw [if_neg (by omega)]

/-- An escape whose letter stands for `ch` reads `ch` and consumes the letter. -/
theorem escape_of_letter {c : Cursor} {l ch : Char} {rest : List Char} (hc : c.rest = l :: rest)
    (hl : outcome escape c = (.ok ch, c.advance)) : Lands escape c rest (some ch) :=
  Lands.of_ok hl (advance_rest hc).1 (advance_rest hc).2

/-- A character that is not plain is written as a backslash and an escape, which reads it
back. -/
theorem escape_reads {ch : Char} (h : isPlainInString ch = false) :
    ∃ tail, (escapeChar ch).toList = '\\' :: tail ∧
      ∀ {c : Cursor} {rest : List Char}, c.rest = tail ++ rest → Lands escape c rest (some ch) := by
  unfold escapeChar
  split
  · exact ⟨['"'], rfl, fun hc => escape_of_letter hc
      (by rw [escape, outcome_bind_ok (outcome_next_of hc)]; rfl)⟩
  · exact ⟨['\\'], rfl, fun hc => escape_of_letter hc
      (by rw [escape, outcome_bind_ok (outcome_next_of hc)]; rfl)⟩
  · exact ⟨['n'], rfl, fun hc => escape_of_letter hc
      (by rw [escape, outcome_bind_ok (outcome_next_of hc)]; rfl)⟩
  · exact ⟨['r'], rfl, fun hc => escape_of_letter hc
      (by rw [escape, outcome_bind_ok (outcome_next_of hc)]; rfl)⟩
  · exact ⟨['t'], rfl, fun hc => escape_of_letter hc
      (by rw [escape, outcome_bind_ok (outcome_next_of hc)]; rfl)⟩
  · exact ⟨['b'], rfl, fun hc => escape_of_letter hc
      (by rw [escape, outcome_bind_ok (outcome_next_of hc)]; rfl)⟩
  · exact ⟨['f'], rfl, fun hc => escape_of_letter hc
      (by rw [escape, outcome_bind_ok (outcome_next_of hc)]; rfl)⟩
  · split
    · rename_i hch
      refine ⟨['u', '0', '0', hexDigit (ch.toNat / 16), hexDigit (ch.toNat % 16)], by simp,
        @fun c rest hc => ?_⟩
      rw [escape]
      exact Lands.step (outcome_next_of hc) (advance_rest hc).2
        (lands_unicodeEscape hch (advance_rest hc).1)
    · -- neither a quote, a backslash nor a control character: the character is plain
      simp_all [isPlainInString]

/-- The characters of a string as written between quotes. -/
def escaped (s : List Char) : List Char := s.flatMap fun ch => (escapeChar ch).toList

theorem escaped_append (s t : List Char) : escaped (s ++ t) = escaped s ++ escaped t :=
  List.flatMap_append

theorem escaped_cons (ch : Char) (s : List Char) :
    escaped (ch :: s) = (escapeChar ch).toList ++ escaped s :=
  List.flatMap_cons

/-- Plain characters are written as themselves. -/
theorem escaped_of_plain : ∀ {p : List Char}, (∀ ch ∈ p, isPlainInString ch = true) → escaped p = p
  | [], _ => rfl
  | ch :: p, h => by
    rw [escaped_cons, escapeChar_of_plain (h ch List.mem_cons_self),
      escaped_of_plain fun c hc => h c (List.mem_cons_of_mem ch hc)]
    simp

theorem quote_toList (s : String) : (quote s).toList = '"' :: escaped s.toList ++ ['"'] := by
  simp [quote, escaped, String.toList_join, List.flatMap_map]

/-- The written form of a string, up to its closing quote, starts with its plain characters
and then a character that is not plain. -/
theorem takeWhile_escaped (s rest : List Char) :
    (escaped s ++ '"' :: rest).takeWhile isPlainInString = s.takeWhile isPlainInString := by
  induction s with
  | nil => simp [escaped, isPlainInString]
  | cons ch s ih =>
    cases hp : isPlainInString ch
    · obtain ⟨tail, htail, -⟩ := escape_reads hp
      simp [escaped_cons, htail, hp, show isPlainInString '\\' = false from rfl]
    · simp [escaped_cons, escapeChar_of_plain hp, hp, ih]

/-- The loop of `stringBody` reads the written form of `s` and its closing quote, when it may
take one more turn for each escape. -/
theorem stringBody_loop (s : List Char) (fuel : Nat) (acc : String) {c : Cursor} {rest : List Char}
    (hfuel : (s.filter fun ch => !isPlainInString ch).length ≤ fuel)
    (hc : c.rest = escaped s ++ '"' :: rest) :
    Lands (stringBody.loop fuel acc) c rest (some (acc ++ String.ofList s)) := by
  -- the plain characters first, then a closing quote or an escape
  have hsplit := List.takeWhile_append_dropWhile (p := isPlainInString) (l := s)
  have hplain : ∀ ch ∈ s.takeWhile isPlainInString, isPlainInString ch = true :=
    fun ch hch => List.all_eq_true.1 List.all_takeWhile ch hch
  have hc₀ : c.rest = s.takeWhile isPlainInString ++
      (escaped (s.dropWhile isPlainInString) ++ '"' :: rest) := by
    rw [hc, ← escaped_of_plain hplain, ← List.append_assoc, ← escaped_append, hsplit]
  obtain ⟨c₁, h₁, hr₁, hd₁⟩ := lands_eatPlain hc₀
  have htake : c.rest.takeWhile isPlainInString = s.takeWhile isPlainInString := by
    rw [hc, takeWhile_escaped]
  rw [stringBody.loop]
  refine Lands.step (outcome_get c) rfl ?_
  rw [htake]
  refine Lands.step h₁ hd₁ ?_
  cases hd : s.dropWhile isPlainInString with
  | nil =>
    rw [hd] at hr₁
    have hq : c₁.rest = '"' :: rest := by simpa [escaped] using hr₁
    refine Lands.step (outcome_peek_of hq) rfl (Lands.of_ok ?_ (advance_rest hq).1
      (advance_rest hq).2)
    conv => rhs; rw [← hsplit, hd, List.append_nil]
    rfl
  | cons ch s' =>
    have hch : isPlainInString ch = false := by
      have := List.head_dropWhile_not isPlainInString (l := s) (by simp [hd])
      simpa [hd] using this
    obtain ⟨tail, htail, hesc⟩ := escape_reads hch
    rw [hd, escaped_cons, htail] at hr₁
    obtain ⟨hr₂, hd₂⟩ := advance_rest (c := c₁) (r := tail ++ escaped s' ++ '"' :: rest)
      (by simpa using hr₁)
    obtain ⟨c₃, h₃, hr₃, hd₃⟩ := @hesc c₁.advance (escaped s' ++ '"' :: rest) (by simpa using hr₂)
    -- the escape takes one turn of the loop
    have hcount : (s.filter fun ch => !isPlainInString ch).length =
        (s'.filter fun ch => !isPlainInString ch).length + 1 := by
      conv => lhs; rw [← hsplit, hd]
      rw [List.filter_append, List.filter_eq_nil_iff.2 (fun x hx => by simp [hplain x hx])]
      simp [hch]
    obtain ⟨f, rfl⟩ : ∃ f, fuel = f + 1 := ⟨fuel - 1, by omega⟩
    have hloop := stringBody_loop s' f
      ((acc ++ String.ofList (s.takeWhile isPlainInString)).push ch) (by omega) hr₃
    refine Lands.step (outcome_peek_of hr₁) rfl ?_
    show Lands (do eat; let ch ← escape; stringBody.loop f _) c₁ rest _
    refine Lands.step (outcome_eat c₁) hd₂ (Lands.step h₃ hd₃ ?_)
    have hvalue : (acc ++ String.ofList (s.takeWhile isPlainInString)).push ch ++ String.ofList s' =
        acc ++ String.ofList s := by
      conv => rhs; rw [← hsplit, hd]
      apply String.ext
      simp
    rw [hvalue] at hloop
    exact hloop
termination_by s.length
decreasing_by
  have := congrArg List.length hsplit
  simp [hd] at this
  omega

/-- Each character is written as at least one character. -/
theorem length_le_escaped : ∀ s : List Char, s.length ≤ (escaped s).length
  | [] => Nat.le_refl 0
  | ch :: s => by
    have hne : (escapeChar ch).toList ≠ [] := by
      cases hp : isPlainInString ch
      · obtain ⟨tail, htail, -⟩ := escape_reads hp
        simp [htail]
      · simp [escapeChar_of_plain hp]
    have := length_le_escaped s
    have := List.length_pos_iff.2 hne
    rw [escaped_cons, List.length_append, List.length_cons]
    omega

/-- The body of a string, after its opening quote, is read up to the closing quote. -/
theorem stringBody_lands (s : String) {c : Cursor} {rest : List Char}
    (hc : c.rest = escaped s.toList ++ '"' :: rest) : Lands stringBody c rest (some s) := by
  have hfuel : (s.toList.filter fun ch => !isPlainInString ch).length ≤ c.rest.length := by
    have := List.length_filter_le (fun ch => !isPlainInString ch) s.toList
    have := length_le_escaped s.toList
    rw [hc, List.length_append]
    omega
  have hloop := stringBody_loop s.toList c.rest.length "" hfuel hc
  rw [String.empty_append, String.ofList_toList] at hloop
  rw [stringBody]
  exact Lands.step (outcome_get c) rfl hloop

/-- A string is read back from its quoted form. -/
theorem string_yields (s : String) : Yields string (quote s).toList (some s) 0 := by
  intro c rest hc _ _
  have hc' : c.rest = '"' :: (escaped s.toList ++ '"' :: rest) := by
    simpa [quote_toList] using hc
  obtain ⟨hr₁, hd₁⟩ := advance_rest hc'
  refine Lands.fixPosition ?_
  refine Lands.step (outcome_skipBlanks (by simp [hc', blank])) rfl ?_
  rw [hc']
  show Lands (do eat; stringBody) c rest _
  exact Lands.step (outcome_eat c) hd₁ (stringBody_lands s hr₁)

/-! ### Arrays -/

theorem outcome_nextItem_end {first : Bool} {rest : List Char} {c : Cursor}
    (hc : c.rest = ']' :: rest) : outcome (nextItem first) c = (.ok none, c) := by
  rw [nextItem, outcome_bind_ok (outcome_skipBlanks (by simp [hc, blank])), hc]
  rfl

/-- The next item is found, after the comma that separates it from the one before. -/
theorem lands_nextItem_item (first : Bool) {t : List Char} (rest : List Char) (ht : Opens t)
    {c : Cursor} (hc : c.rest = (if first then [] else [',']) ++ t ++ rest) :
    Lands (nextItem first) c (t ++ rest) (some ()) := by
  obtain ⟨ch, t', rfl, hblank, hb, hbr⟩ := ht
  cases first with
  | true =>
    have hc' : c.rest = ch :: (t' ++ rest) := by simpa using hc
    refine Lands.of_ok ?_ (by simpa using hc) rfl
    rw [nextItem, outcome_bind_ok (outcome_skipBlanks (by simp [hc', hblank])), hc']
    simp only [List.head?_cons]
    rw [if_neg (by simp), if_pos trivial, outcome_bind_ok (outcome_pure _ _)]
    split
    · simp_all
    · rfl
    · simp_all
  | false =>
    have hc' : c.rest = ',' :: ch :: (t' ++ rest) := by simpa using hc
    obtain ⟨hr₁, hd₁⟩ := advance_rest hc'
    refine Lands.of_ok ?_ (by simpa using hr₁) hd₁
    rw [nextItem, outcome_bind_ok (outcome_skipBlanks (by simp [hc', blank])), hc']
    simp +decide only [List.head?_cons]
    rw [if_pos trivial, outcome_bind_ok (outcome_eat c),
      outcome_bind_ok (outcome_skipBlanks (by simp [hr₁, hblank])), hr₁]
    split
    · simp_all
    · rfl
    · simp_all

/-- After an item comes a comma or the closing bracket. -/
theorem delimits_itemsText (ts : List (List Char)) {ch : Char} (hch : ch = ']' ∨ ch = '}')
    (rest : List Char) : Delimits (itemsText false ts ++ ch :: rest) := by
  cases ts with
  | nil => exact delimits_cons (by rcases hch with rfl | rfl <;> simp) rest
  | cons t ts => exact delimits_cons (Or.inl rfl) _

theorem length_le_itemsText : ∀ (first : Bool) (ts : List (List Char)), (∀ t ∈ ts, t ≠ []) →
    ts.length ≤ (itemsText first ts).length
  | _, [], _ => Nat.zero_le _
  | first, t :: ts, h => by
    have := List.length_pos_iff.2 (h t List.mem_cons_self)
    have := length_le_itemsText false ts fun t ht => h t (List.mem_cons_of_mem _ ht)
    simp only [itemsText, List.length_append, List.length_cons]
    omega

/-- The loop of `items` reads the written items up to the closing bracket, when it may take a
turn for each, and stops at the first that fails. -/
theorem items_loop {item : Reader α} {d : Nat} :
    ∀ (ps : List (List Char × Option α)) (fuel : Nat) (first : Bool) (acc : List α) {c : Cursor}
      {rest : List Char}, (∀ p ∈ ps, Opens p.1 ∧ Yields item p.1 p.2 d) → ps.length ≤ fuel →
      c.rest = itemsText first (ps.map Prod.fst) ++ ']' :: rest → d < c.depth →
      Lands (items.loop item fuel first acc) c (']' :: rest)
        ((ps.mapM Prod.snd).map (acc.reverse ++ ·))
  | [], fuel, first, acc, c, rest, _, _, hc, _ => by
    rw [items.loop]
    refine Lands.step (outcome_nextItem_end (by simpa [itemsText] using hc)) rfl ?_
    exact Lands.of_ok (by simp) (by simpa [itemsText] using hc) rfl
  | (t, o) :: ps, fuel, first, acc, c, rest, hps, hfuel, hc, hd => by
    obtain ⟨hopen, hitem⟩ := hps (t, o) List.mem_cons_self
    obtain ⟨c₁, h₁, hr₁, hd₁⟩ := lands_nextItem_item first
      (itemsText false (ps.map Prod.fst) ++ ']' :: rest) hopen (c := c) (by simp [hc, itemsText])
    obtain ⟨f, rfl⟩ : ∃ f, fuel = f + 1 := ⟨fuel - 1, by simp at hfuel; omega⟩
    have hvalue := hitem c₁ _ hr₁ (delimits_itemsText _ (Or.inl rfl) rest) (hd₁ ▸ hd)
    rw [items.loop]
    refine Lands.step h₁ hd₁ ?_
    show Lands (do let v ← item; items.loop item f false (v :: acc)) c₁ _ _
    cases o with
    | none => exact Lands.stop hvalue
    | some v =>
      obtain ⟨c₂, h₂, hr₂, hd₂⟩ := hvalue
      have hloop := items_loop ps f false (v :: acc)
        (fun p hp => hps p (List.mem_cons_of_mem _ hp)) (by simp at hfuel; omega) hr₂
        (by rw [hd₂, hd₁]; exact hd)
      refine Lands.step h₂ hd₂ ?_
      have hvalues : ((((t, some v) :: ps).mapM Prod.snd).map (acc.reverse ++ ·)) =
          (ps.mapM Prod.snd).map ((v :: acc).reverse ++ ·) := by
        rcases hm : ps.mapM Prod.snd with _ | vs <;> simp [hm]
      rw [hvalues]
      exact hloop

theorem outcome_descend {c : Cursor} (h : 1 < c.depth) :
    outcome descend c = (.ok (), { c with depth := c.depth - 1 }) := by
  rw [descend, outcome_bind_ok (outcome_get c), if_neg (by omega)]
  rfl

@[simp] theorem outcome_ascend (c : Cursor) :
    outcome ascend c = (.ok (), { c with depth := c.depth + 1 }) := rfl

/-- A bracketed body: the opening bracket, a body read at one more level of nesting, and the
closing bracket; when the body fails, so does the whole. -/
theorem bracketed_lands {body : Reader α} {close : Reader Unit} {t rest : List Char} {cl : Char}
    {o : Option α} {d : Nat}
    (hbody : ∀ c : Cursor, c.rest = t ++ cl :: rest → d < c.depth → Lands body c (cl :: rest) o)
    (hclose : ∀ c : Cursor, c.rest = cl :: rest → Lands close c rest (some ()))
    {c : Cursor} {opening : Char} (hc : c.rest = opening :: (t ++ cl :: rest))
    (hd : d + 1 < c.depth) : Lands (bracketed body close) c rest o := by
  let c₀ : Cursor := { c with depth := c.depth - 1 }
  obtain ⟨hr₁, hd₁⟩ := advance_rest (c := c₀) hc
  have hbody' := hbody c₀.advance hr₁ (by rw [hd₁]; simp [c₀]; omega)
  cases o with
  | some v =>
    obtain ⟨c₂, h₂, hr₂, hd₂⟩ := hbody'
    obtain ⟨c₃, h₃, hr₃, hd₃⟩ := hclose { c₂ with depth := c₂.depth + 1 } hr₂
    refine Lands.of_ok ?_ hr₃ ?_
    · rw [bracketed, outcome_bind_ok (outcome_descend (by omega)), outcome_bind_ok (outcome_eat c₀),
        outcome_bind_ok (outcome_attempt body _), h₂, outcome_bind_ok (outcome_ascend c₂),
        outcome_bind_ok (outcome_attempt close _), h₃]
      rfl
    · rw [hd₃]
      simp only [hd₂, hd₁, c₀]
      omega
  | none =>
    -- the closing bracket is still looked for, but the body's error is the one given
    obtain ⟨e, c₂, h₂⟩ := hbody'
    refine ⟨e, (outcome close { c₂ with depth := c₂.depth + 1 }).2, ?_⟩
    rw [bracketed, outcome_bind_ok (outcome_descend (by omega)), outcome_bind_ok (outcome_eat c₀),
      outcome_bind_ok (outcome_attempt body _), h₂, outcome_bind_ok (outcome_ascend c₂),
      outcome_bind_ok (outcome_attempt close _)]
    rfl

theorem endArray_lands (c : Cursor) (rest : List Char) (hc : c.rest = ']' :: rest) :
    Lands endArray c rest (some ()) := by
  refine Lands.of_ok ?_ (advance_rest hc).1 (advance_rest hc).2
  rw [endArray, outcome_bind_ok (outcome_skipBlanks (by simp [hc, blank])), hc]
  rfl

theorem endObject_lands (c : Cursor) (rest : List Char) (hc : c.rest = '}' :: rest) :
    Lands endObject c rest (some ()) := by
  refine Lands.of_ok ?_ (advance_rest hc).1 (advance_rest hc).2
  rw [endObject, outcome_bind_ok (outcome_skipBlanks (by simp [hc, blank])), hc]
  rfl

/-- An array is read back from its items written between brackets: the list of their values,
or a failure when one of them fails. -/
theorem list_yields {item : Reader α} {d : Nat} (ps : List (List Char × Option α))
    (hps : ∀ p ∈ ps, Opens p.1 ∧ Yields item p.1 p.2 d) :
    Yields (list item) ('[' :: itemsText true (ps.map Prod.fst) ++ [']']) (ps.mapM Prod.snd)
      (d + 1) := by
  intro c rest hc _ hd
  have hc' : c.rest = '[' :: (itemsText true (ps.map Prod.fst) ++ ']' :: rest) := by simpa using hc
  have hbody : ∀ c : Cursor, c.rest = itemsText true (ps.map Prod.fst) ++ ']' :: rest →
      d < c.depth → Lands (items item) c (']' :: rest) (ps.mapM Prod.snd) := by
    intro c hc hd
    have hfuel : ps.length ≤ c.rest.length := by
      have := length_le_itemsText true (ps.map Prod.fst) (fun t ht => by
        obtain ⟨p, hp, rfl⟩ := List.mem_map.1 ht
        obtain ⟨ch, t', ht', -⟩ := (hps p hp).1
        simp [ht'])
      rw [hc, List.length_append]
      simp only [List.length_map] at this
      omega
    have hloop := items_loop ps c.rest.length true [] hps hfuel hc hd
    simp only [List.reverse_nil, List.nil_append, Option.map_id'] at hloop
    rw [items]
    exact Lands.step (outcome_get c) rfl hloop
  refine Lands.fixPosition ?_
  refine Lands.step (outcome_skipBlanks (by simp [hc', blank])) rfl ?_
  rw [hc']
  exact bracketed_lands hbody (endArray_lands · rest) hc' hd

/-! ### Optional values -/

/-- A value that does not start with `n` is read as present. -/
theorem option_yields {inner : Reader α} {t : List Char} {o : Option α} {d : Nat}
    (h : Yields inner t o d) (ht : ∃ ch t', t = ch :: t' ∧ blank ch = false ∧ ch ≠ 'n') :
    Yields (option inner) t (o.map some) d := by
  obtain ⟨ch, t', rfl, hblank, hn⟩ := ht
  intro c rest hc hr hd
  rw [option]
  refine Lands.step (outcome_skipBlanks (by simp [hc, hblank])) rfl ?_
  rw [hc]
  simp only [List.cons_append, List.head?_cons]
  split
  · simp_all
  · exact (h c rest hc hr hd).map some

/-! ### Records -/

theorem outcome_nextKey_end {first : Bool} {rest : List Char} {c : Cursor}
    (hc : c.rest = '}' :: rest) : outcome (nextKey first) c = (.ok none, c) := by
  rw [nextKey, outcome_bind_ok (outcome_skipBlanks (by simp [hc, blank])), hc]
  rfl

/-- The key of the next member is read, after the comma that separates it from the one
before. -/
theorem lands_nextKey_key (first : Bool) (k : String) (rest : List Char) {c : Cursor}
    (hc : c.rest = (if first then [] else [',']) ++ (quote k).toList ++ rest) :
    Lands (nextKey first) c rest (some (some k)) := by
  have hquote : ∀ rest', (quote k).toList ++ rest' = '"' :: (escaped k.toList ++ '"' :: rest') := by
    intro rest'
    simp [quote_toList]
  -- from the opening quote on, the string body
  have hbody : ∀ c₁ : Cursor, c₁.rest = (quote k).toList ++ rest →
      Lands (do eat; return some (← stringBody)) c₁ rest (some (some k)) := by
    intro c₁ hc₁
    rw [hquote] at hc₁
    obtain ⟨hr₂, hd₂⟩ := advance_rest hc₁
    refine Lands.step (outcome_eat c₁) hd₂ ?_
    exact (stringBody_lands k hr₂).bind (g := fun s => some (some s))
      fun s _ c₃ hr₃ _ => Lands.of_ok rfl hr₃ rfl
  cases first with
  | true =>
    have hc' : c.rest = '"' :: (escaped k.toList ++ '"' :: rest) := by simpa [hquote] using hc
    rw [nextKey]
    refine Lands.step (outcome_skipBlanks (by simp [hc', blank])) rfl ?_
    rw [hc']
    simp +decide only [List.head?_cons]
    rw [if_neg (by simp), if_pos trivial]
    exact Lands.step (outcome_pure _ _) rfl (hbody c (by simpa [hquote] using hc))
  | false =>
    have hc' : c.rest = ',' :: '"' :: (escaped k.toList ++ '"' :: rest) := by simpa [hquote] using hc
    obtain ⟨hr₁, hd₁⟩ := advance_rest hc'
    rw [nextKey]
    refine Lands.step (outcome_skipBlanks (by simp [hc', blank])) rfl ?_
    rw [hc']
    simp +decide only [List.head?_cons]
    rw [if_pos trivial]
    refine Lands.step (outcome_eat c) hd₁ ?_
    refine Lands.step (outcome_skipBlanks (by simp [hr₁, blank])) rfl ?_
    rw [hr₁]
    exact hbody c.advance (by rw [hr₁, hquote])

theorem lands_colon {c : Cursor} {rest : List Char} (hc : c.rest = ':' :: rest) :
    Lands colon c rest (some ()) := by
  refine Lands.of_ok ?_ (advance_rest hc).1 (advance_rest hc).2
  rw [colon, outcome_bind_ok (outcome_skipBlanks (by simp [hc, blank])), hc]
  rfl

variable {σ : Type}

/-- A plain key is quoted as it is. -/
theorem quote_plainKey {k : String} (h : plainKey k = true) :
    (quote k).toList = '"' :: k.toList ++ ['"'] := by
  rw [quote_toList, escaped_of_plain (List.all_eq_true.1 h)]

/-- The loop of `recordMembers` reads the written members up to the closing brace, each
through its field, and completes the draft; it stops at the first value that fails. -/
theorem recordMembers_loop {r : Record Reader σ α} {d : Nat} :
    ∀ (ms : List (Member σ)) (fuel : Nat) (first : Bool) (seen : List Nat) (x : σ) {c : Cursor}
      {rest : List Char}, (∀ m ∈ ms, m.ReadBy Yields r d ∧ m.index ∉ seen) →
      (ms.map Member.index).Nodup → ms.length ≤ fuel →
      c.rest = itemsText first (ms.map Member.written) ++ '}' :: rest → d < c.depth →
      Lands (recordMembers.loop r fuel first seen x) c ('}' :: rest)
        ((Member.applyAll ms x).bind fun x => (r.complete x).toOption)
  | [], fuel, first, seen, x, c, rest, _, _, _, hc, _ => by
    have hc' : c.rest = '}' :: rest := by simpa [itemsText] using hc
    rw [recordMembers.loop]
    refine Lands.step (outcome_nextKey_end hc') rfl ?_
    dsimp only
    have htarget : (Member.applyAll [] x).bind (fun x => (r.complete x).toOption) =
        (r.complete x).toOption := rfl
    rw [htarget]
    cases r.complete x with
    | ok v => exact Lands.of_ok (show outcome (pure v : Reader α) c = (.ok v, c) from rfl) hc' rfl
    | error msg =>
      exact Lands.of_error (show outcome (failMessage msg : Reader α) c = (.error _, c) from rfl)
  | m :: ms, fuel, first, seen, x, c, rest, hms, hnodup, hfuel, hc, hd => by
    obtain ⟨⟨hplain, hidx, fd, hf, hread⟩, hseen⟩ := hms m List.mem_cons_self
    rw [List.map_cons, List.nodup_cons] at hnodup
    obtain ⟨hfresh, hnodup'⟩ := hnodup
    obtain ⟨c₁, h₁, hr₁, hd₁⟩ := lands_nextKey_key first m.key
      (':' :: (m.text ++ (itemsText false (ms.map Member.written) ++ '}' :: rest))) (c := c)
      (by simp [hc, itemsText, Member.written, quote_plainKey hplain])
    obtain ⟨c₂, h₂, hr₂, hd₂⟩ := lands_colon hr₁
    have hvalue := hread x c₂ _ hr₂ (delimits_itemsText _ (Or.inr rfl) rest)
      (by rw [hd₂, hd₁]; exact hd)
    obtain ⟨fuel, rfl⟩ : ∃ f, fuel = f + 1 := ⟨fuel - 1, by simp at hfuel; omega⟩
    rw [recordMembers.loop]
    refine Lands.step h₁ hd₁ ?_
    dsimp only
    rw [hidx]
    dsimp only
    rw [if_neg hseen, hf]
    dsimp only
    refine Lands.step h₂ hd₂ ?_
    -- the value read through the field gives the next draft, or fails
    rw [Member.applyAll_cons]
    cases hu : m.update x with
    | none =>
      rw [hu] at hvalue
      exact Lands.stop (hvalue.map some)
    | some x' =>
      rw [hu] at hvalue
      obtain ⟨c₃, h₃, hr₃, hd₃⟩ := hvalue.map some
      refine Lands.step h₃ hd₃ ?_
      exact recordMembers_loop ms fuel false (m.index :: seen) x'
        (fun m' hm' => ⟨(hms m' (List.mem_cons_of_mem _ hm')).1, by
          rw [List.mem_cons, not_or]
          refine ⟨fun h => hfresh ?_, (hms m' (List.mem_cons_of_mem _ hm')).2⟩
          rw [← h]
          exact List.mem_map_of_mem hm'⟩)
        hnodup' (by simp at hfuel; omega) hr₃ (by rw [hd₃, hd₂, hd₁]; exact hd)

/-- A record is read back from its members written as an object, in any order of fields: the
completed draft, or a failure when a value fails or the draft is incomplete. -/
theorem record_yields {r : Record Reader σ α} {d : Nat} (ms : List (Member σ))
    (hms : ∀ m ∈ ms, m.ReadBy Yields r d) (hnodup : (ms.map Member.index).Nodup) :
    Yields (record r) ('{' :: itemsText true (ms.map Member.written) ++ ['}'])
      ((Member.applyAll ms r.empty).bind fun x => (r.complete x).toOption)
      (d + 1) := by
  intro c rest hc _ hd
  have hc' : c.rest = '{' :: (itemsText true (ms.map Member.written) ++ '}' :: rest) := by
    simpa using hc
  have hbody : ∀ c : Cursor, c.rest = itemsText true (ms.map Member.written) ++ '}' :: rest →
      d < c.depth → Lands (recordMembers r) c ('}' :: rest)
        ((Member.applyAll ms r.empty).bind fun x => (r.complete x).toOption) := by
    intro c hc hd
    have hfuel : ms.length ≤ c.rest.length := by
      have := length_le_itemsText true (ms.map Member.written) (fun t ht => by
        obtain ⟨m, -, rfl⟩ := List.mem_map.1 ht
        simp [Member.written])
      rw [hc, List.length_append]
      simp only [List.length_map] at this
      omega
    rw [recordMembers]
    exact Lands.step (outcome_get c) rfl (recordMembers_loop ms c.rest.length true [] r.empty
      (fun m hm => ⟨hms m hm, List.not_mem_nil⟩) hnodup hfuel hc hd)
  refine Lands.fixPosition ?_
  refine Lands.step (outcome_skipBlanks (by simp [hc', blank])) rfl ?_
  rw [hc']
  exact bracketed_lands hbody (endObject_lands · rest) hc' hd

/-! ### Whole texts -/

/-- A reader run on a whole text gives what it yields from it. -/
theorem run_toOption {r : Reader α} {s : String} {o : Option α} {d : Nat}
    (h : Yields r s.toList o d) (hd : d < 128) : (run r s).toOption = o := by
  have hland := h (Cursor.ofString s) [] (by simp [Cursor.ofString]) (by simp [Delimits]) hd
  unfold run
  change (outcome _ (Cursor.ofString s)).1.toOption = o
  cases o with
  | none =>
    obtain ⟨e, c', h'⟩ := hland
    rw [outcome_bind_error h']
    rfl
  | some v =>
    obtain ⟨c', h', hr', -⟩ := hland
    rw [outcome_bind_ok h', outcome_bind_ok (outcome_skipBlanks (by simp [hr'])), hr']
    rfl

end Reader
end Json
end QirGen
