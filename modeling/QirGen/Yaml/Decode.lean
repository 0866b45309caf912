import QirGen.Yaml.Document
import QirGen.Yaml.Scalar

/-!
# Decoding typed values from YAML events

Decoders walk the events of a document in order, so the first fault met is the one
reported. A value of the wrong kind is `invalid type: <what was found>, expected <what
was wanted>`; the message is placed at the mark of the value's first event, behind the
path of keys that leads to it (`emit_module_flags: … at line 1 column 20`). The path is
left out at the top, and the mark at the very start of the text.

A record is read from a mapping whose keys may come in any order: unknown keys are
passed over with their values, a repeated key is an error placed at the mapping. An
alias is read as the node it names.

When the events run out, the syntax error that stopped them is reported; a document that
decodes still fails on such an error, and on a second document after it.
-/

namespace QirGen
namespace Yaml

/-- Where a value sits in a document: under a key, through an alias, or under a key that
is not a scalar. -/
inductive Path where
  | root
  | alias (parent : Path)
  | key (parent : Path) (name : String)
  | unknownKey (parent : Path)
  deriving Inhabited

/-- The text of a path: keys joined by dots, `.` for the top. -/
def Path.text : Path → String
  | .root => "."
  | .alias p => p.text
  | .key p k => (match p with | .root => "" | _ => p.text ++ ".") ++ k
  | .unknownKey p => (match p with | .root => "" | _ => p.text ++ ".") ++ "?"

/-- Why a document does not decode. -/
inductive DecodeError where
  | malformed (e : Error)
  | endOfStream
  | moreDocuments
  /-- A message about a value, with its mark and path once they are known. -/
  | custom (text : String) (place : Option (Mark × Path))
  deriving Inhabited

/-- The text of a decoding error. -/
def DecodeError.message : DecodeError → String
  | .malformed e => e.message
  | .endOfStream => "EOF while parsing a value"
  | .moreDocuments =>
    "deserializing from YAML containing more than one document is not supported"
  | .custom t none => t
  | .custom t (some (m, p)) =>
    (if p.text == "." then "" else p.text ++ ": ") ++ t ++
      (if m.isStart then "" else " at " ++ m.text)

/-- Places a message that has no place yet. -/
def DecodeError.placed (e : DecodeError) (m : Mark) (p : Path) : DecodeError :=
  match e with
  | .custom t none => .custom t (some (m, p))
  | e => e

/-- The events of a document and the syntax error that ended them, if any. -/
structure Events where
  items : Array (Event × Mark)
  failure : Option Error
  deriving Inhabited

/-- The event at a position; past the end, the syntax error or the end of the stream. -/
def Events.get (ev : Events) (pos : Nat) : Except DecodeError (Event × Mark) :=
  match ev.items[pos]? with
  | some x => .ok x
  | none => .error (match ev.failure with
    | some e => .malformed e
    | none => .endOfStream)

/-- The tags of the core schema. -/
def boolTag : String := "tag:yaml.org,2002:bool"
/-- The tag of integers. -/
def intTag : String := "tag:yaml.org,2002:int"
/-- The tag of floats. -/
def floatTag : String := "tag:yaml.org,2002:float"
/-- The tag of nulls. -/
def nullTag : String := "tag:yaml.org,2002:null"

/-- How a scalar reads for messages: by its core tag, by its plain text, or as text. A
value its tag does not allow is reported with the message it gives. -/
def scalarReading (v : String) (style : ScalarStyle) (tag : Option String) :
    Except String Reading :=
  let bad (what : String) : Except String Reading :=
    .error ("invalid value: " ++ (Reading.text v).describe ++ ", expected " ++ what)
  match tag with
  | some t =>
    if t == boolTag then
      match boolOf? v with
      | some b => .ok (.bool b)
      | none => bad "a boolean"
    else if t == intTag then
      match integerOf? v with
      | some (i, wide) => .ok (.integer i wide)
      | none => bad "an integer"
    else if t == floatTag then
      match floatOf? v with
      | some x => .ok (.float x)
      | none => bad "a float"
    else if t == nullTag then
      if isNull v then .ok .null else bad "null"
    else if t.startsWith "!" && style == .plain then .ok (Reading.ofPlain v)
    else .ok (.text v)
  | none => .ok (if style == .plain then Reading.ofPlain v else .text v)

/-- The error for an event that is not the wanted kind of value. -/
def invalidType (expected : String) : Event → DecodeError
  | .scalar v style tag =>
    match scalarReading v style tag with
    | .ok r => .custom ("invalid type: " ++ r.describe ++ ", expected " ++ expected) none
    | .error t => .custom t none
  | .sequenceStart => .custom ("invalid type: sequence, expected " ++ expected) none
  | .mappingStart => .custom ("invalid type: map, expected " ++ expected) none
  | _ => .endOfStream

namespace Events

/-- Reads a string: any scalar gives its text. Returns the position after it; anything
else is reported as not being what `expected` describes. -/
def string (ev : Events) (expected : String) (path : Path) :
    Nat → Nat → Except DecodeError (String × Nat)
  | 0, _ => .error .endOfStream
  | fuel + 1, pos => do
    let (e, m) ← ev.get pos
    match e with
    | .scalar v _ _ => pure (v, pos + 1)
    | .alias t =>
      let (s, _) ← string ev expected (.alias path) fuel t
      pure (s, pos + 1)
    | e => .error ((invalidType expected e).placed m path)

/-- Reads a string that may be missing: an empty plain scalar or a plain null (with no
tag) is none, any other scalar a string. A plain scalar tagged as null that is not a null
is an error that takes its place from the enclosing value, not from the scalar. -/
def optionalString (ev : Events) (path : Path) :
    Nat → Nat → Except DecodeError (Option String × Nat)
  | 0, _ => .error .endOfStream
  | fuel + 1, pos => do
    let (e, _) ← ev.get pos
    match e with
    | .alias t =>
      let (r, _) ← optionalString ev (.alias path) fuel t
      pure (r, pos + 1)
    | .scalar v style tag =>
      let present ←
        if style != .plain then pure true
        else match tag with
          | some t =>
            if t != nullTag then pure true
            else if isNull v then pure false
            else .error (.custom ("invalid value: " ++ (Reading.text v).describe ++
                                  ", expected null") none)
          | none => pure (!v.isEmpty && !isNull v)
      if present then
        let (s, p) ← string ev "a string" path (fuel + 1) pos
        pure (some s, p)
      else pure (none, pos + 1)
    | .void => pure (none, pos + 1)
    | _ =>
      let (s, p) ← string ev "a string" path (fuel + 1) pos
      pure (some s, p)

/-- Reads a boolean: a plain scalar `true`, `True`, `TRUE`, `false`, `False` or
`FALSE`, or such a literal block scalar tagged as a boolean. -/
def bool (ev : Events) (path : Path) : Nat → Nat → Except DecodeError (Bool × Nat)
  | 0, _ => .error .endOfStream
  | fuel + 1, pos => do
    let (e, m) ← ev.get pos
    match e with
    | .alias t =>
      let (b, _) ← bool ev (.alias path) fuel t
      pure (b, pos + 1)
    | .scalar v style tag =>
      let eligible := style == .plain || (style == .literal && tag == some boolTag)
      match (if eligible then boolOf? v else none) with
      | some b => pure (b, pos + 1)
      | none => .error ((invalidType "a boolean" e).placed m path)
    | e => .error ((invalidType "a boolean" e).placed m path)

/-- Passes over one node, returning the position after it. -/
def skipNode (ev : Events) : Nat → Nat → Nat → Except DecodeError Nat
  | 0, _, pos => pure pos
  | fuel + 1, depth, pos => do
    let (e, _) ← ev.get pos
    let depth := match e with
      | .sequenceStart | .mappingStart => depth + 1
      | .sequenceEnd | .mappingEnd => depth - 1
      | _ => depth
    if depth == 0 then pure (pos + 1) else skipNode ev fuel depth (pos + 1)

end Events

/-- A field of a record: its key, and how its value is read into the record so far. -/
structure RecordField (σ : Type) where
  name : String
  read : Events → Path → Nat → σ → Except DecodeError (σ × Nat)

namespace Events

/-- Reads the key of a mapping entry: a scalar's text, or the text of the scalar an alias
names. Returns the key and whether it was written as a scalar. -/
def entryKey (ev : Events) (path : Path) (pos : Nat) :
    Except DecodeError (String × Bool × Nat) := do
  let (e, m) ← ev.get pos
  match e with
  | .scalar k _ _ => pure (k, true, pos + 1)
  | .alias t =>
    let (k, _) ← ev.string "field identifier" (.alias path) 2 t
    pure (k, false, pos + 1)
  | e => .error ((invalidType "field identifier" e).placed m path)

/-- Reads the entries of a mapping into a record, up to the end of the mapping. -/
def entries {σ : Type} (ev : Events) (fields : List (RecordField σ)) (path : Path) :
    Nat → Nat → σ → List String → Except DecodeError (σ × Nat)
  | 0, pos, st, _ => pure (st, pos)
  | fuel + 1, pos, st, seen => do
    let (e, _) ← ev.get pos
    if let .mappingEnd := e then return (st, pos + 1)
    let (k, isScalar, pos) ← ev.entryKey path pos
    let valuePath := if isScalar then Path.key path k else Path.unknownKey path
    match fields.find? (·.name == k) with
    | some f =>
      if seen.contains k then .error (.custom ("duplicate field `" ++ k ++ "`") none)
      else
        let (st, pos) ← f.read ev valuePath pos st
        entries ev fields path fuel pos st (k :: seen)
    | none =>
      let pos ← ev.skipNode ev.items.size 0 pos
      entries ev fields path fuel pos st seen

/-- Reads a record named `title` from the top node: a mapping, or nothing at all (an
empty document) for the record's defaults. -/
def record {σ : Type} (ev : Events) (title : String) (fields : List (RecordField σ))
    (defaults : σ) : Except DecodeError σ := do
  let (e, m) ← ev.get 0
  let expected := "struct " ++ title
  match e with
  | .mappingStart =>
    match ev.entries fields .root (ev.items.size + 1) 1 defaults [] with
    | .ok (st, _) => pure st
    | .error err => .error (err.placed m .root)
  | .void => pure defaults
  | .scalar v .plain _ =>
    if v.isEmpty then pure defaults else .error ((invalidType expected e).placed m .root)
  | e => .error ((invalidType expected e).placed m .root)

end Events

/-- Decodes the first document of a text; a syntax error after a decoded value, or a
second document, is still an error. -/
def decodeText {α : Type} (text : String) (read : Events → Except DecodeError α) :
    Except DecodeError α :=
  let d := Document.ofText text
  match read ⟨d.events.toArray, d.error⟩ with
  | .error e => .error e
  | .ok v =>
    match d.error with
    | some e => .error (.malformed e)
    | none => if d.moreDocuments then .error .moreDocuments else .ok v

end Yaml
end QirGen
