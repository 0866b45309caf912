import QirGen.Json.Value

/-!
# Reading JSON text: positions, errors and the reader monad

A `Cursor` is the text not read yet, with the line (from 1) and the column reached so
far; the column counts bytes since the last line break. A `Reader` runs against a cursor
and may fail with an `Error`; on failure the cursor stays where the failure happened, so
an error raised without a position (a message from a decoder, such as a missing field)
takes the position the cursor has when `fixPosition` meets it.

Two positions are in use: `here` is the place after the last character read, and
`ahead` the place after the next character (the end of the text if there is none).
-/

namespace QirGen
namespace Json

/-- The causes of a failed read. -/
inductive ErrorCode where
  | message (text : String)
  | eofWhileParsingList
  | eofWhileParsingObject
  | eofWhileParsingString
  | eofWhileParsingValue
  | expectedColon
  | expectedListCommaOrEnd
  | expectedObjectCommaOrEnd
  | expectedSomeIdent
  | expectedSomeValue
  | invalidEscape
  | invalidNumber
  | numberOutOfRange
  | controlCharacterWhileParsingString
  | keyMustBeAString
  | loneLeadingSurrogateInHexEscape
  | trailingComma
  | trailingCharacters
  | unexpectedEndOfHexEscape
  | recursionLimitExceeded
  deriving DecidableEq, Inhabited

/-- The text of a cause. -/
def ErrorCode.text : ErrorCode → String
  | .message t => t
  | .eofWhileParsingList => "EOF while parsing a list"
  | .eofWhileParsingObject => "EOF while parsing an object"
  | .eofWhileParsingString => "EOF while parsing a string"
  | .eofWhileParsingValue => "EOF while parsing a value"
  | .expectedColon => "expected `:`"
  | .expectedListCommaOrEnd => "expected `,` or `]`"
  | .expectedObjectCommaOrEnd => "expected `,` or `\x7d`"
  | .expectedSomeIdent => "expected ident"
  | .expectedSomeValue => "expected value"
  | .invalidEscape => "invalid escape"
  | .invalidNumber => "invalid number"
  | .numberOutOfRange => "number out of range"
  | .controlCharacterWhileParsingString =>
      "control character (\\u0000-\\u001F) found while parsing a string"
  | .keyMustBeAString => "key must be a string"
  | .loneLeadingSurrogateInHexEscape => "lone leading surrogate in hex escape"
  | .trailingComma => "trailing comma"
  | .trailingCharacters => "trailing characters"
  | .unexpectedEndOfHexEscape => "unexpected end of hex escape"
  | .recursionLimitExceeded => "recursion limit exceeded"

/-- A failed read: its cause and, once known, its line and column. -/
structure Error where
  code : ErrorCode
  position : Option (Nat × Nat) := none
  deriving DecidableEq, Inhabited

/-- The text of an error: the cause, then `at line L column C` when positioned. -/
def Error.message (e : Error) : String :=
  match e.position with
  | some (l, c) => e.code.text ++ " at line " ++ toString l ++ " column " ++ toString c
  | none => e.code.text

/-- The unread text with the line and byte column reached, and the nesting depth still
allowed. -/
structure Cursor where
  rest : List Char
  line : Nat := 1
  column : Nat := 0
  depth : Nat := 128

/-- A cursor at the start of a text. -/
def Cursor.ofString (s : String) : Cursor := { rest := s.toList }

/-- The cursor after reading one character. -/
def Cursor.advance (c : Cursor) : Cursor :=
  match c.rest with
  | [] => c
  | '\n' :: r => { c with rest := r, line := c.line + 1, column := 0 }
  | ch :: r => { c with rest := r, column := c.column + ch.utf8Size }

/-- The place after the last character read. -/
def Cursor.here (c : Cursor) : Nat × Nat := (c.line, c.column)

/-- The place one byte further on: after the next character's first byte. -/
def Cursor.ahead (c : Cursor) : Nat × Nat :=
  match c.rest with
  | [] => (c.line, c.column)
  | '\n' :: _ => (c.line + 1, 0)
  | _ :: _ => (c.line, c.column + 1)

/-- A computation that reads JSON text. -/
abbrev Reader := ExceptT Error (StateM Cursor)

namespace Reader

/-- The next character, not consumed. -/
def peek : Reader (Option Char) := do return (← get).rest.head?

/-- Consumes the next character. -/
def eat : Reader Unit := modify Cursor.advance

/-- Consumes and returns the next character. -/
def next : Reader (Option Char) := do
  let c ← peek
  eat
  return c

/-- Fails with a cause positioned after the last character read. -/
def fail {α : Type} (code : ErrorCode) : Reader α := do
  throw { code, position := some (← get).here }

/-- Fails with a cause positioned after the next character. -/
def failAhead {α : Type} (code : ErrorCode) : Reader α := do
  throw { code, position := some (← get).ahead }

/-- Fails with a message that takes its position later. -/
def failMessage {α : Type} (text : String) : Reader α :=
  throw { code := .message text }

/-- Gives an error without a position the place the cursor has now. -/
def fixPosition {α : Type} (r : Reader α) : Reader α :=
  tryCatch r fun e => do
    match e.position with
    | some _ => throw e
    | none => throw { e with position := some (← get).here }

/-- Runs a reader and returns its outcome, keeping the cursor it leaves either way. -/
def attempt {α : Type} (r : Reader α) : Reader (Except Error α) :=
  ExceptT.lift r.run

/-- Skips blanks (space, tab, line feed, carriage return) and returns the next character. -/
def skipBlanks : Reader (Option Char) := do
  let c ← get
  let rest := c.rest.dropWhile fun ch => ch == ' ' || ch == '\n' || ch == '\t' || ch == '\r'
  let skipped := c.rest.take (c.rest.length - rest.length)
  let lines := skipped.count '\n'
  let column :=
    if lines = 0 then c.column + skipped.length
    else (skipped.reverse.takeWhile (· != '\n')).length
  set { c with rest, line := c.line + lines, column }
  return rest.head?

/-- Enters one level of nesting, failing past the depth limit. -/
def descend : Reader Unit := do
  let c ← get
  if c.depth ≤ 1 then failAhead .recursionLimitExceeded
  else set { c with depth := c.depth - 1 }

/-- Leaves one level of nesting. -/
def ascend : Reader Unit := modify fun c => { c with depth := c.depth + 1 }

end Reader
end Json
end QirGen
