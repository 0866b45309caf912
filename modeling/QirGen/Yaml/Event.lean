/-!
# YAML events

A YAML document is read as a stream of events: scalars, the starts and ends of sequences
and mappings, or a single `void` event for a stream with no document. Each event carries
the mark where it starts: a byte offset, and a line and column (in characters) counted
from zero.

A syntax error names the problem and, when known, what was being read (the context),
each with its mark. In messages a mark is written `line L column C` counted from one, and
left out when it is the very start of the text.
-/

namespace QirGen
namespace Yaml

/-- A place in the text: byte offset, line and column, all from zero. -/
structure Mark where
  index : Nat := 0
  line : Nat := 0
  column : Nat := 0
  deriving DecidableEq, Inhabited

/-- How a scalar was written. -/
inductive ScalarStyle where
  | plain
  | singleQuoted
  | doubleQuoted
  | literal
  | folded
  deriving DecidableEq, Inhabited

/-- An event of a YAML document. An alias is given as the index of the event that starts
the node it names. -/
inductive Event where
  | scalar (value : String) (style : ScalarStyle) (tag : Option String)
  | alias (target : Nat)
  | sequenceStart
  | sequenceEnd
  | mappingStart
  | mappingEnd
  /-- The stream has no document. -/
  | void
  deriving DecidableEq, Inhabited

/-- Whether a mark is the very start of the text, where messages leave it out. -/
def Mark.isStart (m : Mark) : Bool := m.line == 0 && m.column == 0

/-- A mark as `line L column C`, counted from one. -/
def Mark.text (m : Mark) : String :=
  "line " ++ toString (m.line + 1) ++ " column " ++ toString (m.column + 1)

/-- A syntax error: the problem with its mark, and what was being read with its mark. -/
structure Error where
  problem : String
  problemMark : Mark
  context : Option String := none
  contextMark : Mark := {}
  /-- For a character the reader refuses: its offset in bytes. -/
  problemOffset : Nat := 0
  deriving DecidableEq, Inhabited

/-- The text of a syntax error. -/
def Error.message (e : Error) : String :=
  let place :=
    if !e.problemMark.isStart then " at " ++ e.problemMark.text
    else if e.problemOffset != 0 then " at position " ++ toString e.problemOffset
    else ""
  let head := e.problem ++ place
  match e.context with
  | none => head
  | some c =>
    let sameMark := e.contextMark.line == e.problemMark.line &&
      e.contextMark.column == e.problemMark.column
    head ++ ", " ++ c ++
      (if e.contextMark.isStart || sameMark then "" else " at " ++ e.contextMark.text)

/-- The events of the first document, up to a syntax error if one stopped the reading, and
whether a second document follows. -/
structure Document where
  events : List (Event × Mark)
  error : Option Error := none
  moreDocuments : Bool := false
  deriving Inhabited

end Yaml
end QirGen
