import QirGen.Json.Number

/-!
# Reading JSON text

Strings, literals, ignored values and whole documents, with the positions and causes of
errors fixed by `Json.Cursor`:

* a string ends at the next unescaped `"`; a control character below U+0020 inside it, an
  unknown escape, a `\u` escape with fewer than four hexadecimal digits, and an unpaired
  surrogate escape are errors;
* `readValue` reads any value (at most 127 levels of nesting), and `skipValue` checks the
  shape of a value it throws away (numbers unevaluated, so no range errors there);
* a trailing comma in an array or object is an error.
-/

namespace QirGen
namespace Json

/-- Whether a character may stand unescaped inside a string. -/
def isPlainInString (c : Char) : Bool := c != '"' && c != '\\' && c.toNat ≥ 32

/-- The value of a hexadecimal digit. -/
def hexValue? (c : Char) : Option Nat :=
  if c.isDigit then some (c.toNat - 48)
  else if 'a' ≤ c ∧ c ≤ 'f' then some (c.toNat - 87)
  else if 'A' ≤ c ∧ c ≤ 'F' then some (c.toNat - 55)
  else none

/-- The value of four hexadecimal digits. -/
def hex4? : List Char → Option Nat
  | [a, b, c, d] => do
      return (← hexValue? a) * 4096 + (← hexValue? b) * 256 + (← hexValue? c) * 16 +
        (← hexValue? d)
  | _ => none

/-- The place reached after `n` more bytes (stopping at the end of the text). -/
def Cursor.afterBytes (c : Cursor) : Nat → Nat × Nat
  | 0 => c.here
  | n + 1 =>
      match c.rest with
      | [] => c.here
      | ch :: _ =>
          if ch.utf8Size ≤ n + 1 then (c.advance).afterBytes (n + 1 - ch.utf8Size)
          else (c.line, c.column + n + 1)
termination_by n => n
decreasing_by
  all_goals
    have h := ch.utf8Size_pos
    omega

/-- The number of bytes in a list of characters. -/
def byteCount (cs : List Char) : Nat := cs.foldl (fun n c => n + c.utf8Size) 0

namespace Reader

/-- Consumes a run of characters that contains no line break. -/
def eatPlain (cs : List Char) : Reader Unit :=
  modify fun c => { c with rest := c.rest.drop cs.length, column := c.column + byteCount cs }

/-- Reads the four hexadecimal digits of a `\u` escape. -/
def hexEscape : Reader Nat := do
  let c ← get
  if byteCount (c.rest.take 4) < 4 then
    let rec toEnd (fuel : Nat) (c : Cursor) : Cursor :=
      match fuel with
      | 0 => c
      | fuel + 1 => if c.rest.isEmpty then c else toEnd fuel c.advance
    set (toEnd c.rest.length c)
    fail .eofWhileParsingString
  else
    match hex4? (c.rest.take 4) with
    | some v => do eatN 4; pure v
    | none => throw { code := .invalidEscape, position := some (c.afterBytes 4) }

/-- Reads the rest of a `\u` escape: one character, from a surrogate pair if need be. -/
def unicodeEscape : Reader Char := do
  let n ← hexEscape
  if 0xDC00 ≤ n ∧ n ≤ 0xDFFF then fail .loneLeadingSurrogateInHexEscape
  else if n < 0xD800 ∨ n > 0xDBFF then return Char.ofNat n
  else
    match ← peek with
    | none => fail .eofWhileParsingString
    | some '\\' => eat
    | some _ => failAhead .unexpectedEndOfHexEscape
    match ← peek with
    | none => fail .eofWhileParsingString
    | some 'u' => eat
    | some _ => failAhead .unexpectedEndOfHexEscape
    let n2 ← hexEscape
    if n2 < 0xDC00 ∨ n2 > 0xDFFF then fail .loneLeadingSurrogateInHexEscape
    else return Char.ofNat ((n - 0xD800) * 1024 + (n2 - 0xDC00) + 0x10000)

/-- Reads the character an escape stands for (the backslash was consumed). -/
def escape : Reader Char := do
  match ← next with
  | none => fail .eofWhileParsingString
  | some '"' => pure '"'
  | some '\\' => pure '\\'
  | some '/' => pure '/'
  | some 'b' => pure '\x08'
  | some 'f' => pure '\x0c'
  | some 'n' => pure '\n'
  | some 'r' => pure '\r'
  | some 't' => pure '\t'
  | some 'u' => unicodeEscape
  | some _ => fail .invalidEscape

/-- Reads the rest of a string whose opening quote was consumed. -/
def stringBody : Reader String := do
  let rec loop (fuel : Nat) (acc : String) : Reader String := do
    let plain := (← get).rest.takeWhile isPlainInString
    eatPlain plain
    let acc := acc ++ String.ofList plain
    match ← peek with
    | none => fail .eofWhileParsingString
    | some '"' => do eat; pure acc
    | some '\\' =>
      eat
      let ch ← escape
      match fuel with
      | 0 => pure (acc.push ch)
      | fuel + 1 => loop fuel (acc.push ch)
    | some _ => do eat; fail .controlCharacterWhileParsingString
  loop ((← get).rest.length) ""

/-- Skips the rest of a string whose opening quote was consumed, checking its escapes. -/
def skipStringBody : Reader Unit := do
  let rec loop (fuel : Nat) : Reader Unit := do
    eatPlain ((← get).rest.takeWhile isPlainInString)
    match ← peek with
    | none => fail .eofWhileParsingString
    | some '"' => eat
    | some '\\' =>
      eat
      match ← next with
      | none => fail .eofWhileParsingString
      | some 'u' => discard hexEscape
      | some c =>
        if "\"\\/bfnrt".contains c then pure () else fail .invalidEscape
      match fuel with
      | 0 => pure ()
      | fuel + 1 => loop fuel
    | some _ => fail .controlCharacterWhileParsingString
  loop ((← get).rest.length)

/-- Reads the rest of a literal whose first letter was consumed. -/
def literalRest (expected : List Char) : Reader Unit :=
  match expected with
  | [] => pure ()
  | e :: es => do
    match ← next with
    | none => fail .eofWhileParsingValue
    | some c => if c == e then literalRest es else fail .expectedSomeIdent

/-- Skips one value that is not an array or object, whose first character is `c`. -/
def skipScalar (c : Char) : Reader Unit := do
  match c with
  | 'n' => do eat; literalRest ['u', 'l', 'l']
  | 't' => do eat; literalRest ['r', 'u', 'e']
  | 'f' => do eat; literalRest ['a', 'l', 's', 'e']
  | '-' => do eat; skipNumber
  | '"' => do eat; skipStringBody
  | c => if c.isDigit then skipNumber else failAhead .expectedSomeValue

/-- Where `skipValue` stands: before a value, or inside an enclosing array or object after
its opening bracket (`afterItem = false`) or after an item. -/
inductive SkipState where
  | value
  | inside (bracket : Char) (afterItem : Bool)

/-- Skips a value, checking its shape; `enclosing` holds the enclosing brackets. -/
def skipLoop : Nat → List Char → SkipState → Reader Unit
  | 0, _, _ => pure ()
  | fuel + 1, enclosing, .value => do
    match ← skipBlanks with
    | none => failAhead .eofWhileParsingValue
    | some c =>
      if c == '[' || c == '{' then do eat; skipLoop fuel enclosing (.inside c false)
      else
        skipScalar c
        match enclosing with
        | [] => pure ()
        | b :: rest => skipLoop fuel rest (.inside b true)
  | fuel + 1, enclosing, .inside bracket afterItem => do
    let closer := if bracket == '[' then ']' else '}'
    let toItem : Reader Unit := do
      if bracket == '{' then
        match ← skipBlanks with
        | some '"' => do eat; skipStringBody
        | some _ => failAhead .keyMustBeAString
        | none => failAhead .eofWhileParsingObject
        match ← skipBlanks with
        | some ':' => eat
        | some _ => failAhead .expectedColon
        | none => failAhead .eofWhileParsingObject
      skipLoop fuel (bracket :: enclosing) .value
    match ← skipBlanks with
    | none =>
      failAhead (if bracket == '[' then .eofWhileParsingList else .eofWhileParsingObject)
    | some c =>
      if c == ',' && afterItem then do eat; toItem
      else if c == closer then do
        eat
        match enclosing with
        | [] => pure ()
        | b :: rest => skipLoop fuel rest (.inside b true)
      else if afterItem then
        failAhead (if bracket == '[' then .expectedListCommaOrEnd else .expectedObjectCommaOrEnd)
      else toItem

/-- Skips one value, checking that it is well formed. -/
def skipValue : Reader Unit := do
  skipLoop (2 * (← get).rest.length + 2) [] .value

/-- The end of an array: a closing bracket. -/
def endArray : Reader Unit := do
  match ← skipBlanks with
  | some ']' => eat
  | some ',' =>
    eat
    match ← skipBlanks with
    | some ']' => failAhead .trailingComma
    | _ => failAhead .trailingCharacters
  | some _ => failAhead .trailingCharacters
  | none => failAhead .eofWhileParsingList

/-- The end of an object: a closing brace. -/
def endObject : Reader Unit := do
  match ← skipBlanks with
  | some '}' => eat
  | some ',' => failAhead .trailingComma
  | some _ => failAhead .trailingCharacters
  | none => failAhead .eofWhileParsingObject

/-- Reads a bracketed body: enters a level, reads, leaves it, then reads the end; the
body's error comes before the end's. -/
def bracketed {α : Type} (body : Reader α) (close : Reader Unit) : Reader α := do
  descend
  eat
  let r ← attempt body
  ascend
  let e ← attempt close
  match r, e with
  | .ok v, .ok () => pure v
  | .error err, _ => throw err
  | .ok _, .error err => throw err

/-- Moves to the next array item: `none` at the closing bracket. -/
def nextItem (first : Bool) : Reader (Option Unit) := do
  let p ← match ← skipBlanks with
    | some ']' => return none
    | some b =>
      if b == ',' && !first then do eat; skipBlanks
      else if first then pure (some b) else failAhead .expectedListCommaOrEnd
    | none => failAhead .eofWhileParsingList
  match p with
  | some ']' => failAhead .trailingComma
  | some _ => return some ()
  | none => failAhead .eofWhileParsingValue

/-- Moves to the next object key and reads it: `none` at the closing brace. -/
def nextKey (first : Bool) : Reader (Option String) := do
  let p ← match ← skipBlanks with
    | some '}' => return none
    | some b =>
      if b == ',' && !first then do eat; skipBlanks
      else if first then pure (some b) else failAhead .expectedObjectCommaOrEnd
    | none => failAhead .eofWhileParsingObject
  match p with
  | some '"' => do eat; return some (← stringBody)
  | some '}' => failAhead .trailingComma
  | some _ => failAhead .keyMustBeAString
  | none => failAhead .eofWhileParsingValue

/-- The colon between a key and its value. -/
def colon : Reader Unit := do
  match ← skipBlanks with
  | some ':' => eat
  | some _ => failAhead .expectedColon
  | none => failAhead .eofWhileParsingObject

/-- Reads array items with `item` until the closing bracket (not consumed). -/
def items {α : Type} (item : Reader α) : Reader (List α) := do
  let rec loop (fuel : Nat) (first : Bool) (acc : List α) : Reader (List α) := do
    match ← nextItem first with
    | none => pure acc.reverse
    | some () =>
      let v ← item
      match fuel with
      | 0 => pure (v :: acc).reverse
      | fuel + 1 => loop fuel false (v :: acc)
  loop ((← get).rest.length) true []

mutual
/-- Reads any value; `fuel` bounds the nesting. -/
def readValue : Nat → Reader Value
  | 0 => fail .recursionLimitExceeded
  | fuel + 1 => fixPosition do
    match ← skipBlanks with
    | none => failAhead .eofWhileParsingValue
    | some 'n' => do eat; literalRest ['u', 'l', 'l']; pure .null
    | some 't' => do eat; literalRest ['r', 'u', 'e']; pure (.bool true)
    | some 'f' => do eat; literalRest ['a', 'l', 's', 'e']; pure (.bool false)
    | some '-' => do eat; return .number (← readNumber false)
    | some '"' => do eat; return .string (← stringBody)
    | some '[' => return .array (← bracketed (items (readValue fuel)) endArray)
    | some '{' => return .object (← bracketed (readMembers fuel) endObject)
    | some c =>
      if c.isDigit then return .number (← readNumber true) else failAhead .expectedSomeValue

/-- Reads object members until the closing brace (not consumed). -/
def readMembers (fuel : Nat) : Reader (List (String × Value)) := do
  let rec loop (n : Nat) (first : Bool) (acc : List (String × Value)) :
      Reader (List (String × Value)) := do
    match ← nextKey first with
    | none => pure acc.reverse
    | some k =>
      colon
      let v ← readValue fuel
      match n with
      | 0 => pure ((k, v) :: acc).reverse
      | n + 1 => loop n false ((k, v) :: acc)
  loop ((← get).rest.length) true []
end

/-- Runs a reader on a whole text: after it only blanks may follow. -/
def run {α : Type} (r : Reader α) (s : String) : Except Error α :=
  let whole : Reader α := do
    let v ← r
    match ← skipBlanks with
    | some _ => failAhead .trailingCharacters
    | none => pure v
  ((ExceptT.run whole).run (Cursor.ofString s)).1

end Reader

/-- Parses a JSON document. -/
def parse (s : String) : Except Error Value := Reader.run (Reader.readValue 200) s

end Json
end QirGen
