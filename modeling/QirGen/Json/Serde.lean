import QirGen.Binary64.Basic

/-!
# The JSON library programs are written and read with

Programs are written and read by the derived (de)serialization of their types through
serde_json. The library is a parameter, `SerdeJson`: the readers the derived code combines
(strings, unsigned words, doubles, arrays, `null`-or-value, records), a run over a whole text,
and the writers of strings and doubles. What the derived code adds is in `Circuit.Json`: which
fields a record has, which may be left out, and how a complete value is taken from them.
-/

namespace QirGen
namespace Json

/-- One field of a record read into a draft of type `σ` by readers `R`. -/
structure Field (R : Type → Type) (σ : Type) where
  name : String
  /-- Whether the field may be left out (it then has its default). -/
  optional : Bool
  read : σ → R σ

/-- How a record is read: its description in messages (`struct Program`), its fields in
declaration order, the empty draft, and the check that completes a draft, naming the
first missing field. -/
structure Record (R : Type → Type) (σ α : Type) where
  title : String
  fields : List (Field R σ)
  empty : σ
  complete : σ → Except String α

/-- The message for a missing field. -/
def missingField (name : String) : String := "missing field `" ++ name ++ "`"

/-- Takes a field of a draft, or names it as missing. -/
def need {α : Type} (v : Option α) (name : String) : Except String α :=
  match v with
  | some a => .ok a
  | none => .error (missingField name)

end Json

/-- serde_json as derived code reaches it. Reading: a string, an unsigned integer of at most
the given number of bits, a double, an array of items, `null` or a value, and a record from
an object (members in any order, unknown ones skipped) or an array of its fields; `run` reads
one value from a whole text, or gives the library's message. Writing: a string quoted and
escaped, and a double (`null` when it is not finite). -/
structure SerdeJson where
  Reader : Type → Type
  monad : Monad Reader
  string : Reader String
  unsigned : Nat → Reader Nat
  float : Reader Binary64
  list : {α : Type} → Reader α → Reader (List α)
  option : {α : Type} → Reader α → Reader (Option α)
  record : {σ α : Type} → Json.Record Reader σ α → Reader α
  run : {α : Type} → Reader α → String → Except String α
  quote : String → String
  floatText : Binary64 → String

instance (json : SerdeJson) : Monad json.Reader := json.monad

end QirGen
