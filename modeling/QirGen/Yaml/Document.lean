import QirGen.Yaml.Token.Scan

/-!
# From tokens to the events of a document

The parser is a state machine over the token stream with a stack of states to return
to: each `Parse.step` yields one event. A value left out (an entry `-` or a key with
nothing after it) is an empty plain scalar at the mark where it would have stood.

`Document.ofText` keeps the events of the first document and resolves aliases to the
event that starts the anchored node. A syntax error ends the events where it is met, and
the document then carries it; the events before it still count.
-/

namespace QirGen
namespace Yaml

/-- The events of the YAML grammar, with anchors and tags as written. -/
inductive Step where
  | streamStart
  | streamEnd
  | documentStart
  | documentEnd
  | alias (name : String)
  | scalar (anchor tag : Option String) (value : String) (style : ScalarStyle)
  | sequenceStart (anchor tag : Option String)
  | sequenceEnd
  | mappingStart (anchor tag : Option String)
  | mappingEnd
  deriving Inhabited

/-- What the parser expects next. -/
inductive ParseState where
  | streamStart
  | implicitDocumentStart
  | documentStart
  | documentContent
  | documentEnd
  | blockNode
  | blockNodeOrIndentlessSequence
  | flowNode
  | blockSequenceFirstEntry
  | blockSequenceEntry
  | indentlessSequenceEntry
  | blockMappingFirstKey
  | blockMappingKey
  | blockMappingValue
  | flowSequenceFirstEntry
  | flowSequenceEntry
  | flowSequenceEntryMappingKey
  | flowSequenceEntryMappingValue
  | flowSequenceEntryMappingEnd
  | flowMappingFirstKey
  | flowMappingKey
  | flowMappingValue
  | flowMappingEmptyValue
  | finished
  deriving Inhabited, DecidableEq

/-- The parser's state: the scanner, the current and pending states, the marks of the
open collections, and the tag handles of the current document. -/
structure Parser where
  scanner : Scanner
  state : ParseState := .streamStart
  states : List ParseState := []
  marks : List Mark := []
  tagHandles : List (String × String) := []
  deriving Inhabited

/-- Parsing may stop with a syntax error. -/
abbrev Parse := ExceptT Error (StateM Parser)

/-- The kinds of token that end a document's directives or content. -/
def TokenKind.isDocumentBoundary : TokenKind → Bool
  | .versionDirective .. | .tagDirective .. | .documentStart | .documentEnd | .streamEnd => true
  | _ => false

/-- The kinds of token before which the first document is not implicit: directives,
`---` and the end of the stream. A `...` is not among them, so a first document may
start at one, and then its content is missing. -/
def TokenKind.endsImplicitStart : TokenKind → Bool
  | .versionDirective .. | .tagDirective .. | .documentStart | .streamEnd => true
  | _ => false

/-- The tag handles every document knows. -/
def defaultTagHandles : List (String × String) :=
  [("!", "!"), ("!!", "tag:yaml.org,2002:")]

namespace Parse

/-- Runs a scanning step on the parser's scanner. -/
def scan {α : Type} (m : Scan α) : Parse α := do
  let p ← get
  let (r, sc) := (ExceptT.run m).run p.scanner
  set { p with scanner := sc }
  match r with
  | .ok a => pure a
  | .error e => throw e

/-- The next token. -/
def peekToken : Parse Token := scan Scan.peekToken

/-- Hands the next token over. -/
def skipToken : Parse Unit := scan Scan.skipToken

/-- Goes to a state. -/
def goto (st : ParseState) : Parse Unit := modify fun p => { p with state := st }

/-- Remembers a state to return to. -/
def push (st : ParseState) : Parse Unit := modify fun p => { p with states := st :: p.states }

/-- Returns to the last remembered state. -/
def back : Parse Unit := modify fun p =>
  { p with state := p.states.headD .finished, states := p.states.tail }

/-- Remembers where a collection starts. -/
def pushMark (m : Mark) : Parse Unit := modify fun p => { p with marks := m :: p.marks }

/-- Forgets where the innermost collection starts, and returns it. -/
def popMark : Parse Mark := do
  let p ← get
  set { p with marks := p.marks.tail }
  pure (p.marks.headD {})

/-- Fails at a token, naming what was being parsed and where it began. -/
def failIn {α : Type} (context : String) (contextMark : Mark) (problem : String)
    (problemMark : Mark) : Parse α :=
  throw { problem := problem, problemMark := problemMark, context := some context,
          contextMark := contextMark }

/-- Fails at a token. -/
def fail {α : Type} (problem : String) (problemMark : Mark) : Parse α :=
  throw { problem := problem, problemMark := problemMark }

/-- An empty plain scalar at a mark. -/
def emptyScalar (m : Mark) : Parse (Step × Mark) := pure (.scalar none none "" .plain, m)

/-- Reads the directives before a document and adds the default tag handles. -/
def directives : Parse Unit := do
  let mut seenVersion := false
  for _ in [0:(← get).scanner.rest.length + 1] do
    let t ← peekToken
    match t.kind with
    | .versionDirective major minor =>
      if seenVersion then fail "found duplicate %YAML directive" t.start
      if major != 1 || (minor != 1 && minor != 2) then
        fail "found incompatible YAML document" t.start
      seenVersion := true
      skipToken
    | .tagDirective handle pfx =>
      if ((← get).tagHandles.lookup handle).isSome then
        fail "found duplicate %TAG directive" t.start
      modify fun p => { p with tagHandles := p.tagHandles ++ [(handle, pfx)] }
      skipToken
    | _ => break
  for (h, v) in defaultTagHandles do
    if ((← get).tagHandles.lookup h).isNone then
      modify fun p => { p with tagHandles := p.tagHandles ++ [(h, v)] }

/-- Parses a node: an alias, or a scalar or collection with its anchor and tag. -/
def node (block indentless : Bool) : Parse (Step × Mark) := do
  let t ← peekToken
  if let .alias name := t.kind then
    back
    skipToken
    return (.alias name, t.start)
  let mut anchor : Option String := none
  let mut written : Option (String × String) := none
  let mut tagMark := t.start
  let start := t.start
  let mut t := t
  match t.kind with
  | .anchor name =>
    anchor := some name
    skipToken
    t ← peekToken
    if let .tag h s := t.kind then
      written := some (h, s)
      tagMark := t.start
      skipToken
      t ← peekToken
  | .tag h s =>
    written := some (h, s)
    skipToken
    t ← peekToken
    if let .anchor name := t.kind then
      anchor := some name
      skipToken
      t ← peekToken
  | _ => pure ()
  let tag ← match written with
    | none => pure none
    | some (h, s) =>
      if h.isEmpty then pure (some s)
      else match (← get).tagHandles.lookup h with
        | some pfx => pure (some (pfx ++ s))
        | none => failIn "while parsing a node" start "found undefined tag handle" tagMark
  if indentless && t.kind == .blockEntry then
    goto .indentlessSequenceEntry
    return (.sequenceStart anchor tag, start)
  match t.kind with
  | .scalar v style =>
    back
    skipToken
    pure (.scalar anchor tag v style, start)
  | .flowSequenceStart =>
    goto .flowSequenceFirstEntry
    pure (.sequenceStart anchor tag, start)
  | .flowMappingStart =>
    goto .flowMappingFirstKey
    pure (.mappingStart anchor tag, start)
  | .blockSequenceStart =>
    if block then
      goto .blockSequenceFirstEntry
      pure (.sequenceStart anchor tag, start)
    else failIn "while parsing a flow node" start "did not find expected node content" t.start
  | .blockMappingStart =>
    if block then
      goto .blockMappingFirstKey
      pure (.mappingStart anchor tag, start)
    else failIn "while parsing a flow node" start "did not find expected node content" t.start
  | _ =>
    if anchor.isSome || tag.isSome then
      back
      pure (.scalar anchor tag "" .plain, start)
    else
      failIn (if block then "while parsing a block node" else "while parsing a flow node") start
        "did not find expected node content" t.start

/-- The start of the stream. -/
def streamStart : Parse (Step × Mark) := do
  let t ← peekToken
  if t.kind != .streamStart then fail "did not find expected <stream-start>" t.start
  goto .implicitDocumentStart
  skipToken
  pure (.streamStart, t.start)

/-- The start of a document, or the end of the stream. -/
def documentStart (implicit : Bool) : Parse (Step × Mark) := do
  let mut t ← peekToken
  if !implicit then
    for _ in [0:(← get).scanner.rest.length + 1] do
      if t.kind == .documentEnd then
        skipToken
        t ← peekToken
      else break
  if implicit && !t.kind.endsImplicitStart then
    directives
    push .documentEnd
    goto .blockNode
    pure (.documentStart, t.start)
  else if t.kind != .streamEnd then
    let start := t.start
    directives
    let d ← peekToken
    if d.kind != .documentStart then fail "did not find expected <document start>" d.start
    push .documentEnd
    goto .documentContent
    skipToken
    pure (.documentStart, start)
  else
    goto .finished
    skipToken
    pure (.streamEnd, t.start)

/-- The content of an explicit document, which may be left out. -/
def documentContent : Parse (Step × Mark) := do
  let t ← peekToken
  if t.kind.isDocumentBoundary then
    back
    emptyScalar t.start
  else node true false

/-- The end of a document, with or without `...`. -/
def documentEnd : Parse (Step × Mark) := do
  let t ← peekToken
  if t.kind == .documentEnd then skipToken
  modify fun p => { p with tagHandles := [] }
  goto .documentStart
  pure (.documentEnd, t.start)

/-- An entry of a block sequence, or its end. -/
def blockSequenceEntry (first : Bool) : Parse (Step × Mark) := do
  if first then
    pushMark (← peekToken).start
    skipToken
  let t ← peekToken
  match t.kind with
  | .blockEntry =>
    skipToken
    let n ← peekToken
    if n.kind != .blockEntry && n.kind != .blockEnd then
      push .blockSequenceEntry
      node true false
    else
      goto .blockSequenceEntry
      emptyScalar t.stop
  | .blockEnd =>
    back
    let _ ← popMark
    skipToken
    pure (.sequenceEnd, t.start)
  | _ =>
    failIn "while parsing a block collection" (← popMark) "did not find expected '-' indicator"
      t.start

/-- An entry of a sequence written at its mapping's indentation, or its end. -/
def indentlessSequenceEntry : Parse (Step × Mark) := do
  let t ← peekToken
  if t.kind == .blockEntry then
    skipToken
    let n ← peekToken
    if n.kind != .blockEntry && n.kind != .key && n.kind != .value && n.kind != .blockEnd then
      push .indentlessSequenceEntry
      node true false
    else
      goto .indentlessSequenceEntry
      emptyScalar t.stop
  else
    back
    pure (.sequenceEnd, t.start)

/-- A key of a block mapping, or its end. -/
def blockMappingKey (first : Bool) : Parse (Step × Mark) := do
  if first then
    pushMark (← peekToken).start
    skipToken
  let t ← peekToken
  match t.kind with
  | .key =>
    skipToken
    let n ← peekToken
    if n.kind != .key && n.kind != .value && n.kind != .blockEnd then
      push .blockMappingValue
      node true true
    else
      goto .blockMappingValue
      emptyScalar t.stop
  | .blockEnd =>
    back
    let _ ← popMark
    skipToken
    pure (.mappingEnd, t.start)
  | _ =>
    failIn "while parsing a block mapping" (← popMark) "did not find expected key" t.start

/-- A value of a block mapping, which may be left out. -/
def blockMappingValue : Parse (Step × Mark) := do
  let t ← peekToken
  if t.kind == .value then
    skipToken
    let n ← peekToken
    if n.kind != .key && n.kind != .value && n.kind != .blockEnd then
      push .blockMappingKey
      node true true
    else
      goto .blockMappingKey
      emptyScalar t.stop
  else
    goto .blockMappingKey
    emptyScalar t.start

/-- An entry of a flow sequence, or its end. -/
def flowSequenceEntry (first : Bool) : Parse (Step × Mark) := do
  if first then
    pushMark (← peekToken).start
    skipToken
  let mut t ← peekToken
  if t.kind != .flowSequenceEnd then
    if !first then
      if t.kind == .flowEntry then
        skipToken
        t ← peekToken
      else
        failIn "while parsing a flow sequence" (← popMark) "did not find expected ',' or ']'"
          t.start
    if t.kind == .key then
      goto .flowSequenceEntryMappingKey
      skipToken
      return (.mappingStart none none, t.start)
    else if t.kind != .flowSequenceEnd then
      push .flowSequenceEntry
      return ← node false false
  back
  let _ ← popMark
  skipToken
  pure (.sequenceEnd, t.start)

/-- The key of a single-pair mapping inside a flow sequence. A key left out is empty, at
the end of the token that follows `?`; that token (`:`, `,` or `]`) is taken with it, so
the value and the rest of the sequence are read from the token after it. -/
def flowSequenceEntryMappingKey : Parse (Step × Mark) := do
  let t ← peekToken
  if t.kind != .value && t.kind != .flowEntry && t.kind != .flowSequenceEnd then
    push .flowSequenceEntryMappingValue
    node false false
  else
    skipToken
    goto .flowSequenceEntryMappingValue
    emptyScalar t.stop

/-- The value of a single-pair mapping inside a flow sequence. -/
def flowSequenceEntryMappingValue : Parse (Step × Mark) := do
  let mut t ← peekToken
  if t.kind == .value then
    skipToken
    t ← peekToken
    if t.kind != .flowEntry && t.kind != .flowSequenceEnd then
      push .flowSequenceEntryMappingEnd
      return ← node false false
  goto .flowSequenceEntryMappingEnd
  emptyScalar t.start

/-- The end of a single-pair mapping inside a flow sequence. -/
def flowSequenceEntryMappingEnd : Parse (Step × Mark) := do
  goto .flowSequenceEntry
  pure (.mappingEnd, (← peekToken).start)

/-- A key of a flow mapping, or its end. -/
def flowMappingKey (first : Bool) : Parse (Step × Mark) := do
  if first then
    pushMark (← peekToken).start
    skipToken
  let mut t ← peekToken
  if t.kind != .flowMappingEnd then
    if !first then
      if t.kind == .flowEntry then
        skipToken
        t ← peekToken
      else
        failIn "while parsing a flow mapping" (← popMark)
          "did not find expected ',' or '\x7d'" t.start
    if t.kind == .key then
      skipToken
      let n ← peekToken
      if n.kind != .value && n.kind != .flowEntry && n.kind != .flowMappingEnd then
        push .flowMappingValue
        return ← node false false
      else
        goto .flowMappingValue
        return ← emptyScalar n.start
    else if t.kind != .flowMappingEnd then
      push .flowMappingEmptyValue
      return ← node false false
  back
  let _ ← popMark
  skipToken
  pure (.mappingEnd, t.start)

/-- A value of a flow mapping, which may be left out. -/
def flowMappingValue (empty : Bool) : Parse (Step × Mark) := do
  let mut t ← peekToken
  if empty then
    goto .flowMappingKey
    return ← emptyScalar t.start
  if t.kind == .value then
    skipToken
    t ← peekToken
    if t.kind != .flowEntry && t.kind != .flowMappingEnd then
      push .flowMappingKey
      return ← node false false
  goto .flowMappingKey
  emptyScalar t.start

/-- The next event. -/
def step : Parse (Step × Mark) := do
  match (← get).state with
  | .streamStart => streamStart
  | .implicitDocumentStart => documentStart true
  | .documentStart => documentStart false
  | .documentContent => documentContent
  | .documentEnd => documentEnd
  | .blockNode => node true false
  | .blockNodeOrIndentlessSequence => node true true
  | .flowNode => node false false
  | .blockSequenceFirstEntry => blockSequenceEntry true
  | .blockSequenceEntry => blockSequenceEntry false
  | .indentlessSequenceEntry => indentlessSequenceEntry
  | .blockMappingFirstKey => blockMappingKey true
  | .blockMappingKey => blockMappingKey false
  | .blockMappingValue => blockMappingValue
  | .flowSequenceFirstEntry => flowSequenceEntry true
  | .flowSequenceEntry => flowSequenceEntry false
  | .flowSequenceEntryMappingKey => flowSequenceEntryMappingKey
  | .flowSequenceEntryMappingValue => flowSequenceEntryMappingValue
  | .flowSequenceEntryMappingEnd => flowSequenceEntryMappingEnd
  | .flowMappingFirstKey => flowMappingKey true
  | .flowMappingKey => flowMappingKey false
  | .flowMappingValue => flowMappingValue false
  | .flowMappingEmptyValue => flowMappingValue true
  | .finished => pure (.streamEnd, (← get).scanner.mark)

end Parse

/-- Runs one parsing step. -/
def Parser.next (p : Parser) : Except Error (Step × Mark) × Parser :=
  (ExceptT.run Parse.step).run p

/-- The byte offset of the first character a YAML text may not hold, if any. -/
def firstRefused (text : String) : Option Nat :=
  let rec go : List Char → Nat → Option Nat
    | [], _ => none
    | c :: cs, offset => if isAllowedChar c then go cs (offset + c.utf8Size) else some offset
  go text.toList 0

/-- Records an anchor for the event about to be added. -/
def noteAnchor (anchor : Option String) (index : Nat) (anchors : List (String × Nat)) :
    List (String × Nat) :=
  match anchor with
  | some name => (name, index) :: anchors
  | none => anchors

/-- Whether anything but the end of the stream follows the first document. -/
def Parser.hasMore (p : Parser) : Bool :=
  match p.next.1 with
  | .ok (.streamEnd, _) => false
  | _ => true

/-- Collects the events of the first document. -/
def collectEvents : Nat → Parser → Array (Event × Mark) → List (String × Nat) → Document
  | 0, _, events, _ => { events := events.toList }
  | fuel + 1, p, events, anchors =>
    match p.next with
    | (.error e, _) => { events := events.toList, error := some e }
    | (.ok (ev, m), p) =>
      match ev with
      | .streamStart | .documentStart => collectEvents fuel p events anchors
      | .streamEnd => { events := if events.isEmpty then [(.void, m)] else events.toList }
      | .documentEnd => { events := events.toList, moreDocuments := p.hasMore }
      | .alias name =>
        match anchors.lookup name with
        | some i => collectEvents fuel p (events.push (.alias i, m)) anchors
        | none => { events := events.toList, error := some { problem := "unknown anchor",
                                                               problemMark := m } }
      | .scalar a tag v style =>
        collectEvents fuel p (events.push (.scalar v style tag, m))
          (noteAnchor a events.size anchors)
      | .sequenceStart a _ =>
        collectEvents fuel p (events.push (.sequenceStart, m)) (noteAnchor a events.size anchors)
      | .mappingStart a _ =>
        collectEvents fuel p (events.push (.mappingStart, m)) (noteAnchor a events.size anchors)
      | .sequenceEnd => collectEvents fuel p (events.push (.sequenceEnd, m)) anchors
      | .mappingEnd => collectEvents fuel p (events.push (.mappingEnd, m)) anchors

/-- Reads the first document of a YAML text as events. A character the reader refuses is
an error before any event. The text is taken as UTF-8 as it stands: a byte order mark is
an ordinary character, which the scanner passes over only at the start of a line. -/
def Document.ofText (text : String) : Document :=
  match firstRefused text with
  | some offset =>
    { events := [], error := some { problem := "control characters are not allowed",
                                    problemMark := {}, problemOffset := offset } }
  | none =>
    let chars := text.toList
    collectEvents (8 * (chars.length + 8)) { scanner := { rest := chars } } #[] []

end Yaml
end QirGen
