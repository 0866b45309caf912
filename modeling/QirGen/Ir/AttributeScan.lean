import QirGen.Ir.Basic
import QirGen.Text.Blank

/-!
# Reading entry attributes back from module text

`entryAttributes` finds the attributes of the entry point in the text of a module. Lines
are trimmed of blanks. A line `attributes #<id> = { … }` defines group `<id>` (the text
before the first `=`, trimmed; a later definition replaces an earlier one). A line
`define …` refers to the group named by the first word after its last `#`. The answer is
the first referred group, in the order of the `define` lines, that has the key
`EntryPoint`, and the empty map if there is none.

A group body is a sequence of attributes separated by blanks: a key, quoted (up to the
next quote) or bare (up to a blank or `=`), then optionally `=` and a value, quoted or
not, which runs up to the next quote. For a repeated key the last value wins.
-/

namespace QirGen
namespace Ir
namespace AttributeScan

open Text

/-- Reads up to the next quote, which is consumed: the text before it and the rest. -/
def untilQuote : List Char → List Char × List Char
  | [] => ([], [])
  | '"' :: rest => ([], rest)
  | c :: rest => let (s, r) := untilQuote rest; (c :: s, r)

/-- Reads a bare key, up to a blank or `=` (not consumed). -/
def bareKey (cs : List Char) : List Char × List Char :=
  (cs.takeWhile (fun c => !isBlank c && c != '='), cs.dropWhile (fun c => !isBlank c && c != '='))

/-- Reads one attribute at the start of the text (which starts with no blank). -/
def readAttribute (cs : List Char) : (String × Option String) × List Char :=
  let (key, rest) := match cs with
    | '"' :: r => untilQuote r
    | _ => bareKey cs
  match rest with
  | '=' :: r =>
    let r := match r with
      | '"' :: r' => r'
      | _ => r
    let (v, r) := untilQuote r
    ((String.ofList key, some (String.ofList v)), r)
  | _ => ((String.ofList key, none), rest)

/-- The attributes of a group body, as a map sorted by key. -/
def parseGroup (body : List Char) : List (String × Option String) :=
  let rec go (fuel : Nat) (cs : List Char) (acc : List (String × Option String)) :
      List (String × Option String) :=
    match fuel, cs.dropWhile isBlank with
    | 0, _ => acc
    | _, [] => acc
    | fuel + 1, cs =>
      let (a, rest) := readAttribute cs
      go fuel rest (insertSorted a.1 a.2 acc)
  go (body.length + 1) body []

/-- Whether `p` is a prefix of `cs`, and the rest after it. -/
def afterPrefix (p cs : List Char) : Option (List Char) :=
  if p.isPrefixOf cs then some (cs.drop p.length) else none

/-- The text after the last `#` of a line, if it has one. -/
def afterLastHash (cs : List Char) : Option (List Char) :=
  match (cs.reverse.takeWhile (· != '#')).length with
  | n => if n = cs.length then none else some (cs.drop (cs.length - n))

/-- What the scan has found so far: groups by id, and the referred ids in order. -/
structure Found where
  groups : List (String × List (String × Option String)) := []
  referred : List String := []

/-- Takes one trimmed line into account. -/
def scanLine (f : Found) (line : List Char) : Found :=
  match afterPrefix "attributes #".toList line with
  | some rest =>
    match rest.idxOf? '=' with
    | some i =>
      let id := String.ofList (trimBlanks (rest.take i))
      let body := trimBlanks (rest.drop (i + 1))
      let body := (body.dropWhile (· == '{')).reverse.dropWhile (· == '}') |>.reverse
      { f with groups := insertSorted id (parseGroup body) f.groups }
    | none => f
  | none =>
    if "define ".toList.isPrefixOf line then
      match (afterLastHash line).bind firstWord with
      | some w => { f with referred := f.referred ++ [String.ofList w] }
      | none => f
    else f

/-- The attributes of the entry point named in module text (see the module comment). -/
def entryAttributes (text : String) : List (String × Option String) :=
  let lines := (text.toList.splitOn '\n').map trimBlanks
  let f := lines.foldl scanLine {}
  let groupOf (id : String) := (f.groups.find? (·.1 == id)).map (·.2)
  let entry := f.referred.findSome? fun id =>
    match groupOf id with
    | some g => if g.any (·.1 == entryPointKey) then some g else none
    | none => none
  entry.getD []

end AttributeScan
end Ir
end QirGen
