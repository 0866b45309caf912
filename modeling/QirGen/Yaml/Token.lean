import QirGen.Yaml.Event

/-!
# YAML tokens and the scanner's state

The scanner cuts a YAML text into tokens: indicators, scalars, anchors, tags and the
block structure that indentation implies (`blockSequenceStart`, `blockMappingStart`,
`blockEnd`). A mapping key written without `?` is only known to be a key when its `:`
is met, so the scanner keeps, per flow level, the place where such a simple key may
have started, and inserts the `key` token there afterwards.
-/

namespace QirGen
namespace Yaml

/-- The kinds of token. -/
inductive TokenKind where
  | streamStart
  | streamEnd
  | versionDirective (major minor : Nat)
  | tagDirective (handle tagPrefix : String)
  | documentStart
  | documentEnd
  | blockSequenceStart
  | blockMappingStart
  | blockEnd
  | flowSequenceStart
  | flowSequenceEnd
  | flowMappingStart
  | flowMappingEnd
  | blockEntry
  | flowEntry
  | key
  | value
  | alias (name : String)
  | anchor (name : String)
  | tag (handle suffix : String)
  | scalar (text : String) (style : ScalarStyle)
  deriving Inhabited, BEq

/-- A token with the marks where it starts and ends. -/
structure Token where
  kind : TokenKind
  start : Mark
  stop : Mark
  deriving Inhabited

/-- A place where a simple key may have started. -/
structure SimpleKey where
  possible : Bool := false
  required : Bool := false
  tokenNumber : Nat := 0
  mark : Mark := {}
  deriving Inhabited

/-- The scanner's state: the unread text, the indentation and flow levels, the possible
simple keys (innermost flow level first) and the queue of tokens not yet taken. -/
structure Scanner where
  rest : List Char
  mark : Mark := {}
  started : Bool := false
  flowLevel : Nat := 0
  indent : Int := -1
  indents : List Int := []
  simpleKeyAllowed : Bool := false
  simpleKeys : List SimpleKey := []
  tokens : List Token := []
  tokensParsed : Nat := 0
  tokenAvailable : Bool := false
  deriving Inhabited

/-- Scanning may stop with a syntax error. -/
abbrev Scan := ExceptT Error (StateM Scanner)

/-- Line breaks: line feed, carriage return, next line, line and paragraph separators. -/
def isBreak (c : Char) : Bool :=
  c == '\n' || c == '\r' || c == '\x85' || c == '\u2028' || c == '\u2029'

/-- Blanks: space and tab. -/
def isBlank (c : Char) : Bool := c == ' ' || c == '\t'

/-- Characters of anchors, directive names and tag handles. -/
def isWordChar (c : Char) : Bool := c.isAlphanum || c == '_' || c == '-'

/-- A break, or the end of the text. -/
def breakOrEnd : Option Char → Bool
  | none => true
  | some c => isBreak c

/-- A blank, a break, or the end of the text. -/
def blankOrEnd : Option Char → Bool
  | none => true
  | some c => isBlank c || isBreak c

/-- Whether an optional character is the given one. -/
def isChar (c : Char) : Option Char → Bool
  | some d => d == c
  | none => false

/-- The value of a hexadecimal digit. -/
def hexDigitValue? (c : Char) : Option Nat :=
  if c.isDigit then some (c.toNat - '0'.toNat)
  else if 'a' ≤ c && c ≤ 'f' then some (c.toNat - 'a'.toNat + 10)
  else if 'A' ≤ c && c ≤ 'F' then some (c.toNat - 'A'.toNat + 10)
  else none

/-- Whether a character may stand in a YAML text: tab, breaks, printable ASCII, next
line, and the printable planes of Unicode. -/
def isAllowedChar (c : Char) : Bool :=
  let v := c.toNat
  v == 0x09 || v == 0x0A || v == 0x0D || (0x20 ≤ v && v ≤ 0x7E) || v == 0x85 ||
    (0xA0 ≤ v && v ≤ 0xD7FF) || (0xE000 ≤ v && v ≤ 0xFFFD) || (0x10000 ≤ v && v ≤ 0x10FFFF)

namespace Scan

/-- The character `k` places ahead. -/
def peekAt (k : Nat) : Scan (Option Char) := return (← get).rest[k]?

/-- The next character. -/
def peek : Scan (Option Char) := peekAt 0

/-- The current mark. -/
def mark : Scan Mark := return (← get).mark

/-- Whether the next three characters are a document marker (`---` or `...`) at the
start of a line, followed by a blank, a break or the end. -/
def atDocumentMarker : Scan Bool := do
  let s ← get
  if s.mark.column != 0 then return false
  match s.rest with
  | a :: b :: c :: more =>
    return ((a == '-' && b == '-' && c == '-') || (a == '.' && b == '.' && c == '.')) &&
      blankOrEnd more.head?
  | _ => return false

/-- Passes over one character that is not a break: the column grows by one, the index by
the character's width in bytes. -/
def skip : Scan Unit := modify fun s =>
  match s.rest with
  | [] => s
  | c :: r =>
    { s with rest := r,
             mark := Mark.mk (s.mark.index + c.utf8Size) s.mark.line (s.mark.column + 1) }

/-- Passes over one character that is not a break, and returns it. -/
def read : Scan String := do
  match ← peek with
  | some c => skip; pure (String.singleton c)
  | none => pure ""

/-- Passes over one line break (a carriage return and line feed count as one), and
returns what it stands for in a scalar: a line feed, or a line or paragraph separator. -/
def readLine : Scan String := do
  let s ← get
  match s.rest with
  | '\r' :: '\n' :: r =>
    set { s with rest := r, mark := Mark.mk (s.mark.index + 2) (s.mark.line + 1) 0 }
    pure "\n"
  | c :: r =>
    if isBreak c then
      set { s with rest := r, mark := Mark.mk (s.mark.index + c.utf8Size) (s.mark.line + 1) 0 }
      pure (if c == '\u2028' || c == '\u2029' then String.singleton c else "\n")
    else pure ""
  | [] => pure ""

/-- Passes over one line break. -/
def skipLine : Scan Unit := do let _ ← readLine

/-- Fails at the current mark, naming what was being scanned and where it began. -/
def failIn {α : Type} (context : String) (contextMark : Mark) (problem : String) :
    Scan α := do
  let m ← mark
  throw { problem := problem, problemMark := m, context := some context,
          contextMark := contextMark }

/-- Fails at the current mark without a context. -/
def fail {α : Type} (problem : String) : Scan α := do
  throw { problem := problem, problemMark := (← mark) }

/-- Passes over blanks, as many as there are. -/
def skipBlanks : Scan Unit := do
  let n := ((← get).rest.takeWhile isBlank).length
  for _ in [0:n] do skip

/-- Passes over the rest of a line up to its break. -/
def skipToBreak : Scan Unit := do
  let n := ((← get).rest.takeWhile (fun c => !isBreak c)).length
  for _ in [0:n] do skip

end Scan

end Yaml
end QirGen
