import QirGen.Json.Serde

/-!
# What is assumed of the JSON library

Programs are read through `SerdeJson`, of which a proof assumes only `SerdeJson.Lawful`. Its laws
are stated through a relation `reads r t o d` that the library supplies: the reader `r`, run where
a value is wanted on the text `t` and whatever follows it, reads `t` as `o` (`none`: it fails),
with more than `d` levels of nesting left. They are the behaviour of serde_json's derived readers:
strings, unsigned words and doubles read back their written forms, `null` is no double, an array
is read item by item, `null`-or-value reads a present value, records read their members in any
order, and a whole text reads as it reads in place.

The texts the laws speak of are plain JSON: items separated by commas (`itemsText`), starting with
a character that opens a value (`Opens`), and members written as a quoted key, a colon and a value
(`Member.written`).
-/

namespace QirGen
namespace Json

/-- A character JSON allows between tokens. -/
def blank (ch : Char) : Bool := ch == ' ' || ch == '\n' || ch == '\t' || ch == '\r'

/-- Items as written after an opening bracket: separated by commas, with a comma before the
first unless it opens the array. -/
def itemsText : Bool → List (List Char) → List Char
  | _, [] => []
  | first, t :: ts => (if first then [] else [',']) ++ t ++ itemsText false ts

/-- A written item starts with a character that is neither blank nor a closing bracket or
brace. -/
def Opens (t : List Char) : Prop := ∃ ch t', t = ch :: t' ∧ blank ch = false ∧ ch ≠ ']' ∧ ch ≠ '}'

/-- A number read as an unsigned word of `bits` bits: itself when it fits. -/
def wordOf (bits n : Nat) : Option Nat := if n < Nat.pow 2 bits then some n else none

/-- A key that is written between quotes as it is: no quote, backslash or control character. -/
def plainKey (k : String) : Bool := k.toList.all fun c => c != '"' && c != '\\' && c.toNat ≥ 32

variable {σ α : Type}

/-- A member of an object as the reader of a record meets it: its key, the text of its value,
the position of the field the key names, and what reading the value makes of a draft
(`none`: the value fails). -/
structure Member (σ : Type) where
  key : String
  text : List Char
  index : Nat
  update : σ → Option σ

/-- The written form of a member: the key between quotes, a colon and the value. -/
def Member.written (m : Member σ) : List Char := '"' :: m.key.toList ++ '"' :: ':' :: m.text

/-- The draft after the members, in order; `none` when a value fails. -/
def Member.applyAll (ms : List (Member σ)) (x : σ) : Option σ := ms.foldlM (fun x m => m.update x) x

theorem Member.applyAll_cons (m : Member σ) (ms : List (Member σ)) (x : σ) :
    applyAll (m :: ms) x = (m.update x).bind (applyAll ms) :=
  List.foldlM_cons

/-- The record reads the member through the field its key names: the key is plain, the first
field of that name stands at `index`, and its reader reads the value's text as `update x`, from
any draft `x`. -/
def Member.ReadBy {R : Type → Type} (reads : {β : Type} → R β → List Char → Option β → Nat → Prop)
    (m : Member σ) (r : Record R σ α) (d : Nat) : Prop :=
  plainKey m.key = true ∧ r.fields.findIdx? (·.name == m.key) = some m.index ∧
    ∃ f, r.fields[m.index]? = some f ∧ ∀ x, reads (f.read x) m.text (m.update x) d

/-! ### Texts that open an item -/

theorem blank_of_isDigit {ch : Char} (h : ch.isDigit = true) : blank ch = false := by
  have := Char.isDigit_iff_toNat.1 h
  simp only [Char.reduceToNat] at this
  simp only [blank, Bool.or_eq_false_iff, beq_eq_false_iff_ne]
  refine ⟨⟨⟨?_, ?_⟩, ?_⟩, ?_⟩ <;> rintro rfl <;> simp at this

/-- A text that starts with a digit opens an item. -/
theorem opens_of_isDigit {t u : List Char} {c : Char} (h : t = c :: u) (hc : c.isDigit = true) :
    Opens t :=
  ⟨c, u, h, blank_of_isDigit hc, fun h' => by subst h'; simp at hc,
    fun h' => by subst h'; simp at hc⟩

theorem opens_toString (n : Nat) : Opens (toString n).toList := by
  obtain ⟨ch, t, h⟩ := List.exists_cons_of_ne_nil (Nat.toDigits_ne_nil (n := n) (b := 10))
  have hdigit : ch.isDigit = true :=
    Nat.isDigit_of_mem_toDigits (b := 10) (by decide) (by decide) (by rw [h]; exact List.mem_cons_self)
  exact opens_of_isDigit (u := t) (by simp [h]) hdigit

/-- The text of a record opens an item. -/
theorem opens_brace (t : List Char) : Opens ('{' :: t) := ⟨'{', t, rfl, by decide, by decide, by decide⟩

/-- Items separated by commas, as `String.intercalate` writes them. -/
theorem itemsText_eq_intercalate : ∀ ts : List (List Char), itemsText true ts = [','].intercalate ts
  | [] => rfl
  | [t] => by simp [itemsText]
  | t :: t' :: ts => by
    rw [List.intercalate_cons_cons, ← itemsText_eq_intercalate (t' :: ts)]
    simp [itemsText]

end Json

/-- What the library's reader makes of the written text of a double. -/
def SerdeJson.floatBack (json : SerdeJson) (x : Binary64) : Option Binary64 :=
  (json.run json.float (json.floatText x)).toOption

open Json in
/-- **The laws of the JSON library**, read through `reads` (see the module comment). -/
structure SerdeJson.Lawful (json : SerdeJson)
    (reads : {α : Type} → json.Reader α → List Char → Option α → Nat → Prop) : Prop where
  /-- A whole text is read as the reader reads it in place, below the nesting limit of 128. -/
  run : ∀ {α : Type} {r : json.Reader α} {s : String} {o : Option α} {d : Nat},
    reads r s.toList o d → d < 128 → (json.run r s).toOption = o
  /-- Reading with more levels of nesting left reads the same. -/
  mono : ∀ {α : Type} {r : json.Reader α} {t : List Char} {o : Option α} {d d' : Nat},
    reads r t o d → d ≤ d' → reads r t o d'
  /-- A value read and then stored reads as the stored value. -/
  store : ∀ {α β : Type} {r : json.Reader α} {t : List Char} {o : Option α} {d : Nat} (g : α → β),
    reads r t o d → reads (r >>= fun a => pure (g a)) t (o.map g) d
  /-- A string reads back from its quoted form, which opens with a quote. -/
  string : ∀ s : String, reads json.string (json.quote s).toList (some s) 0
  quote_head : ∀ s : String, ∃ t, (json.quote s).toList = '"' :: t
  /-- A number in decimal reads as an unsigned word of at most 64 bits when it fits. -/
  unsigned : ∀ {bits : Nat} (n : Nat), bits ≤ 64 →
    reads (json.unsigned bits) (toString n).toList (wordOf bits n) 0
  /-- The written text of a double opens an item and reads as something, nothing when the
  double is not finite (it is written `null`). -/
  floatText_opens : ∀ x : Binary64, Opens (json.floatText x).toList
  float : ∀ x : Binary64, ∃ o, reads json.float (json.floatText x).toList o 0
  float_null : ∀ x : Binary64, x.isFinite = false → reads json.float (json.floatText x).toList none 0
  /-- An array reads its items, each opening an item: the list of their values, or a failure
  when one fails. -/
  list : ∀ {α : Type} {item : json.Reader α} {d : Nat} (ps : List (List Char × Option α)),
    (∀ p ∈ ps, Opens p.1 ∧ reads item p.1 p.2 d) →
    reads (json.list item) ('[' :: itemsText true (ps.map Prod.fst) ++ [']']) (ps.mapM Prod.snd)
      (d + 1)
  /-- A value that does not open with `n` reads as present. -/
  option : ∀ {α : Type} {inner : json.Reader α} {t : List Char} {o : Option α} {d : Nat},
    reads inner t o d → (∃ ch t', t = ch :: t' ∧ blank ch = false ∧ ch ≠ 'n') →
    reads (json.option inner) t (o.map some) d
  /-- A record reads its members written as an object, in any order of fields, each through the
  field its key names: the completed draft, or a failure when a value fails or a field is
  missing. -/
  record : ∀ {σ α : Type} {r : Json.Record json.Reader σ α} {d : Nat} (ms : List (Member σ)),
    (∀ m ∈ ms, m.ReadBy reads r d) → (ms.map Member.index).Nodup →
    reads (json.record r) ('{' :: itemsText true (ms.map Member.written) ++ ['}'])
      ((Member.applyAll ms r.empty).bind fun x => (r.complete x).toOption) (d + 1)

namespace SerdeJson.Lawful

variable {json : SerdeJson} {reads : {α : Type} → json.Reader α → List Char → Option α → Nat → Prop}

/-- The written text of a double reads in place as it reads alone. -/
theorem reads_floatBack (hjson : json.Lawful reads) (x : Binary64) :
    reads json.float (json.floatText x).toList (json.floatBack x) 0 := by
  obtain ⟨o, h⟩ := hjson.float x
  rw [SerdeJson.floatBack, hjson.run h (by decide)]
  exact h

/-- No double reads back from the text of a double that is not finite. -/
theorem floatBack_of_not_finite (hjson : json.Lawful reads) {x : Binary64} (hx : x.isFinite = false) :
    json.floatBack x = none :=
  hjson.run (hjson.float_null x hx) (by decide)

end SerdeJson.Lawful

end QirGen
