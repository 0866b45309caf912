import QirGen.Json.Read
import QirGen.Json.Serde
import QirGen.Text.Quoted

/-!
# Decoding typed values from JSON text

Decoders read a value of a known shape straight from the text, so the first fault met in
reading order is the one reported. A value of the wrong kind is reported as
`invalid type: <what was found>, expected <what was wanted>` at the place after it (a
scalar is read whole first; an array or object is not entered), a number out of the
wanted range as `invalid value: …`.

A record (`Json.Record`) is read from an object, whose keys may come in any order, where
unknown keys are skipped and a repeated key is an error, or from an array of its fields
in declaration order. A field left out is an error unless it has a default; the first
field missing in declaration order is reported, after the closing brace.
-/

namespace QirGen
namespace Json

/-- How an unexpected number is described. -/
def Number.describe : Number → String
  | .nat n => "integer `" ++ toString n ++ "`"
  | .negInt i => "integer `" ++ toString i ++ "`"
  | .float x => "floating point `" ++ floatText x ++ "`"

namespace Reader

/-- Reads the value that stands where `expected` was wanted and fails with
`invalid type`. -/
def invalidType {α : Type} (expected : String) : Reader α := fixPosition do
  let found ← match ← peek with
    | some 'n' => do eat; literalRest ['u', 'l', 'l']; pure "null"
    | some 't' => do eat; literalRest ['r', 'u', 'e']; pure "boolean `true`"
    | some 'f' => do eat; literalRest ['a', 'l', 's', 'e']; pure "boolean `false`"
    | some '-' => do eat; pure (← readNumber false).describe
    | some '"' => do eat; pure ("string " ++ Text.quoted (← stringBody))
    | some '[' => pure "sequence"
    | some '{' => pure "map"
    | some c =>
      if c.isDigit then pure (← readNumber true).describe else failAhead .expectedSomeValue
    | none => failAhead .expectedSomeValue
  failMessage ("invalid type: " ++ found ++ ", expected " ++ expected)

/-- Reads a string. -/
def string : Reader String := fixPosition do
  match ← skipBlanks with
  | none => failAhead .eofWhileParsingValue
  | some '"' => do eat; stringBody
  | some _ => invalidType "a string"

/-- Reads a number and accepts it through `accept`, which gives the value or the failure
message. -/
def number {α : Type} (accept : Number → Except String α) (expected : String) :
    Reader α := fixPosition do
  let n ← match ← skipBlanks with
    | none => failAhead .eofWhileParsingValue
    | some '-' => do eat; readNumber false
    | some c => if c.isDigit then readNumber true else invalidType expected
  match accept n with
  | .ok v => pure v
  | .error m => failMessage m

/-- Reads an unsigned integer of at most `bits` bits (named `u<bits>` in messages). -/
def unsigned (bits : Nat) : Reader Nat :=
  let what := "u" ++ toString bits
  number (fun n => match n with
    | .nat v => if v < Nat.pow 2 bits then .ok v
        else .error ("invalid value: integer `" ++ toString v ++ "`, expected " ++ what)
    | .negInt i => .error ("invalid value: integer `" ++ toString i ++ "`, expected " ++ what)
    | .float x => .error ("invalid type: " ++ Number.describe (.float x) ++ ", expected " ++ what))
    what

/-- Reads a binary64 number; integers are rounded to nearest. -/
def float : Reader Binary64 := number (fun n => .ok n.toBinary64) "f64"

/-- Reads an array of items. -/
def list {α : Type} (item : Reader α) : Reader (List α) := fixPosition do
  match ← skipBlanks with
  | none => failAhead .eofWhileParsingValue
  | some '[' => bracketed (items item) endArray
  | some _ => invalidType "a sequence"

/-- Reads `null` as nothing and anything else with `inner`. -/
def option {α : Type} (inner : Reader α) : Reader (Option α) := do
  match ← skipBlanks with
  | some 'n' => do eat; literalRest ['u', 'l', 'l']; pure none
  | _ => some <$> inner

end Reader

namespace Reader

/-- Reads the members of an object into a draft (the brace was consumed). -/
def recordMembers {σ α : Type} (r : Record Reader σ α) : Reader α := do
  let rec loop (fuel : Nat) (first : Bool) (seen : List Nat) (draft : σ) : Reader α := do
    match ← nextKey first with
    | none =>
      match r.complete draft with
      | .ok v => pure v
      | .error m => failMessage m
    | some key =>
      let draft' ← match r.fields.findIdx? (·.name == key) with
        | none => do colon; skipValue; pure (some draft)
        | some i =>
          if i ∈ seen then pure none
          else
            colon
            match r.fields[i]? with
            | some f => some <$> f.read draft
            | none => pure (some draft)
      match draft' with
      | none => failMessage ("duplicate field `" ++ key ++ "`")
      | some d =>
        match fuel with
        | 0 => failAhead .eofWhileParsingObject
        | fuel + 1 =>
          let seen' := match r.fields.findIdx? (·.name == key) with
            | some i => i :: seen
            | none => seen
          loop fuel false seen' d
  loop ((← get).rest.length) true [] r.empty

/-- Reads the fields of a record given as an array, in declaration order (the bracket
was consumed). -/
def recordItems {σ α : Type} (r : Record Reader σ α) : Reader α := do
  let count := r.fields.length
  let rec loop (first : Bool) (index : Nat) (draft : σ) : List (Field Reader σ) → Reader α
    | [] =>
      match r.complete draft with
      | .ok v => pure v
      | .error m => failMessage m
    | f :: rest => do
      match ← nextItem first with
      | some () => do let d ← f.read draft; loop false (index + 1) d rest
      | none =>
        if f.optional then loop first (index + 1) draft rest
        else
          failMessage ("invalid length " ++ toString index ++ ", expected " ++ r.title ++
            " with " ++ toString count ++ (if count = 1 then " element" else " elements"))
  loop true 0 r.empty r.fields

/-- Reads a record from an object or an array. -/
def record {σ α : Type} (r : Record Reader σ α) : Reader α := fixPosition do
  match ← skipBlanks with
  | none => failAhead .eofWhileParsingValue
  | some '[' => bracketed (recordItems r) endArray
  | some '{' => bracketed (recordMembers r) endObject
  | some _ => invalidType r.title

end Reader

end Json

/-- The reader of `QirGen.Json` and its writers as the `SerdeJson` programs are read and
written with. -/
def Json.serdeJson : SerdeJson where
  Reader := Json.Reader
  monad := inferInstance
  string := Json.Reader.string
  unsigned := Json.Reader.unsigned
  float := Json.Reader.float
  list := Json.Reader.list
  option := Json.Reader.option
  record := Json.Reader.record
  run r s := (Json.Reader.run r s).mapError Json.Error.message
  quote := Json.quote
  floatText := Json.floatText

end QirGen
