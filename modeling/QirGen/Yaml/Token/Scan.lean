import QirGen.Yaml.Token.Scalar

/-!
# Cutting a YAML text into tokens

`Scan.fetchNext` reads the next token after blanks, comments and breaks. Before that it
closes the block collections whose indentation the new line has left (`blockEnd`) and
drops the simple keys that can no longer be completed: a possible key must have its `:`
on its own line within 1024 characters, and a key at the indentation of a block mapping
is required, so losing it is an error.

When a `:` completes a simple key, `key` (and, for a new block mapping,
`blockMappingStart`) is inserted into the queue before the key's first token, which is
why tokens are only handed out once no possible key can still claim their place.
-/

namespace QirGen
namespace Yaml
namespace Scan

/-- Adds a token at the end of the queue. -/
def enqueue (t : Token) : Scan Unit := modify fun s => { s with tokens := s.tokens ++ [t] }

/-- Inserts a token into the queue at a given place. -/
def insertAt (k : Nat) (t : Token) : Scan Unit :=
  modify fun s => { s with tokens := s.tokens.take k ++ t :: s.tokens.drop k }

/-- The possible simple key of the innermost flow level. -/
def topKey : Scan SimpleKey := return (← get).simpleKeys.headD {}

/-- Replaces the possible simple key of the innermost flow level. -/
def setTopKey (k : SimpleKey) : Scan Unit := modify fun s =>
  { s with simpleKeys := match s.simpleKeys with
                         | [] => [k]
                         | _ :: r => k :: r }

/-- Drops every possible simple key that can no longer be completed here; losing a
required one is an error. -/
def staleKeys : Scan Unit := do
  let s ← get
  let stale (k : SimpleKey) : Bool :=
    k.possible && (k.mark.line < s.mark.line || k.mark.index + 1024 < s.mark.index)
  for k in s.simpleKeys.reverse do
    if stale k && k.required then
      failIn "while scanning a simple key" k.mark "could not find expected ':'"
  set { s with simpleKeys := s.simpleKeys.map fun k =>
                 if stale k then { k with possible := false } else k }

/-- Forgets the possible simple key of the innermost flow level; a required one is an
error. -/
def removeKey : Scan Unit := do
  let k ← topKey
  if k.possible && k.required then
    failIn "while scanning a simple key" k.mark "could not find expected ':'"
  setTopKey { k with possible := false }

/-- Notes that a simple key may start at the current token, if one may start here. -/
def saveKey : Scan Unit := do
  let s ← get
  if s.simpleKeyAllowed then
    let k : SimpleKey :=
      { possible := true, required := s.flowLevel == 0 && s.indent == (s.mark.column : Int),
        tokenNumber := s.tokensParsed + s.tokens.length, mark := s.mark }
    removeKey
    setTopKey k

/-- Enters a flow collection. -/
def increaseFlow : Scan Unit :=
  modify fun s => { s with simpleKeys := {} :: s.simpleKeys, flowLevel := s.flowLevel + 1 }

/-- Leaves a flow collection. -/
def decreaseFlow : Scan Unit := modify fun s =>
  if s.flowLevel > 0 then { s with flowLevel := s.flowLevel - 1, simpleKeys := s.simpleKeys.tail }
  else s

/-- Opens a block collection at a deeper column, with its start token either at the end
of the queue or at the place of a simple key's first token. -/
def rollIndent (column : Int) (place : Option Nat) (kind : TokenKind) (m : Mark) :
    Scan Unit := do
  let s ← get
  if s.flowLevel == 0 && s.indent < column then
    set { s with indents := s.indent :: s.indents, indent := column }
    match place with
    | none => enqueue ⟨kind, m, m⟩
    | some n => insertAt (n - s.tokensParsed) ⟨kind, m, m⟩

/-- Closes the block collections indented deeper than a column. -/
def unrollIndent (column : Int) : Scan Unit := do
  for _ in [0:(← get).indents.length] do
    let s ← get
    if s.flowLevel == 0 && s.indent > column then
      enqueue ⟨.blockEnd, s.mark, s.mark⟩
      modify fun s => { s with indent := s.indents.headD (-1), indents := s.indents.tail }

/-- Passes over blanks, comments and line breaks up to the next token. A tab is passed
over only inside brackets or where no simple key may start; a byte order mark only at
the start of a line, where it still takes up a column. -/
def toNextToken : Scan Unit := do
  for _ in [0:(← remaining)] do
    if (← mark).column == 0 && isChar '\uFEFF' (← peek) then skip
    for _ in [0:(← remaining)] do
      let s ← get
      let c ← peek
      if isChar ' ' c || ((s.flowLevel > 0 || !s.simpleKeyAllowed) && isChar '\t' c) then skip
      else break
    if isChar '#' (← peek) then skipToBreak
    if ((← peek).map isBreak).getD false then
      skipLine
      if (← get).flowLevel == 0 then allowSimpleKey true
    else break

/-- Produces the token that starts the stream. -/
def streamStart : Scan Unit := do
  modify fun s => { s with indent := -1, simpleKeys := [{}], simpleKeyAllowed := true,
                           started := true }
  let m ← mark
  enqueue ⟨.streamStart, m, m⟩

/-- Produces the token that ends the stream, on a line of its own. -/
def streamEnd : Scan Unit := do
  modify fun s =>
    if s.mark.column != 0 then { s with mark := Mark.mk s.mark.index (s.mark.line + 1) 0 }
    else s
  unrollIndent (-1)
  removeKey
  allowSimpleKey false
  let m ← mark
  enqueue ⟨.streamEnd, m, m⟩

/-- Consumes `n` characters as one token of the given kind. -/
def indicator (kind : TokenKind) (n : Nat) : Scan Unit := do
  let start ← mark
  for _ in [0:n] do skip
  enqueue ⟨kind, start, ← mark⟩

/-- Reads the number of a `%YAML` directive. -/
def versionNumber (start : Mark) : Scan Nat := do
  let digits := (← get).rest.takeWhile Char.isDigit
  if digits.length > 9 then
    for _ in [0:9] do skip
    failIn "while scanning a %YAML directive" start "found extremely long version number"
  if digits.isEmpty then
    failIn "while scanning a %YAML directive" start "did not find expected version number"
  for _ in digits do skip
  pure (digits.foldl (fun n c => n * 10 + (c.toNat - '0'.toNat)) 0)

/-- Scans a `%YAML` or `%TAG` directive line. -/
def directive : Scan Unit := do
  unrollIndent (-1)
  removeKey
  allowSimpleKey false
  let start ← mark
  skip
  let name := String.ofList ((← get).rest.takeWhile isWordChar)
  for _ in [0:name.length] do skip
  if name.isEmpty then
    failIn "while scanning a directive" start "could not find expected directive name"
  if !blankOrEnd (← peek) then
    failIn "while scanning a directive" start "found unexpected non-alphabetical character"
  let kind ←
    if name == "YAML" then
      skipBlanks
      let major ← versionNumber start
      if !isChar '.' (← peek) then
        failIn "while scanning a %YAML directive" start
          "did not find expected digit or '.' character"
      skip
      let minor ← versionNumber start
      pure (TokenKind.versionDirective major minor)
    else if name == "TAG" then
      skipBlanks
      let handle ← tagHandle true start
      if !((← peek).map isBlank).getD false then
        failIn "while scanning a %TAG directive" start "did not find expected whitespace"
      skipBlanks
      let pfx ← tagUri true true "" start
      if !blankOrEnd (← peek) then
        failIn "while scanning a %TAG directive" start
          "did not find expected whitespace or line break"
      pure (TokenKind.tagDirective handle pfx)
    else failIn "while scanning a directive" start "found unknown directive name"
  let stop ← mark
  skipBlanks
  if isChar '#' (← peek) then skipToBreak
  if !breakOrEnd (← peek) then
    failIn "while scanning a directive" start "did not find expected comment or line break"
  skipLine
  enqueue ⟨kind, start, stop⟩

/-- Scans `---` or `...`, which also closes every block collection. -/
def documentIndicator (kind : TokenKind) : Scan Unit := do
  unrollIndent (-1)
  removeKey
  allowSimpleKey false
  indicator kind 3

/-- Scans `[` or `{`, which may start a simple key. -/
def flowCollectionStart (kind : TokenKind) : Scan Unit := do
  saveKey
  increaseFlow
  allowSimpleKey true
  indicator kind 1

/-- Scans `]` or `}`. -/
def flowCollectionEnd (kind : TokenKind) : Scan Unit := do
  removeKey
  decreaseFlow
  allowSimpleKey false
  indicator kind 1

/-- Scans `,` inside brackets. -/
def flowEntry : Scan Unit := do
  removeKey
  allowSimpleKey true
  indicator .flowEntry 1

/-- Scans `-` before an entry of a block sequence. -/
def blockEntry : Scan Unit := do
  let s ← get
  if s.flowLevel == 0 then
    if !s.simpleKeyAllowed then fail "block sequence entries are not allowed in this context"
    rollIndent s.mark.column none .blockSequenceStart s.mark
  removeKey
  allowSimpleKey true
  indicator .blockEntry 1

/-- Scans `?` before an explicit key. -/
def explicitKey : Scan Unit := do
  let s ← get
  if s.flowLevel == 0 then
    if !s.simpleKeyAllowed then fail "mapping keys are not allowed in this context"
    rollIndent s.mark.column none .blockMappingStart s.mark
  removeKey
  allowSimpleKey (s.flowLevel == 0)
  indicator .key 1

/-- Scans `:`. After a simple key it inserts `key` before the key's first token (and
opens a block mapping there if needed); otherwise it follows an explicit key. -/
def value : Scan Unit := do
  let k ← topKey
  if k.possible then
    insertAt (k.tokenNumber - (← get).tokensParsed) ⟨.key, k.mark, k.mark⟩
    rollIndent k.mark.column (some k.tokenNumber) .blockMappingStart k.mark
    setTopKey { k with possible := false }
    allowSimpleKey false
  else
    let s ← get
    if s.flowLevel == 0 then
      if !s.simpleKeyAllowed then fail "mapping values are not allowed in this context"
      rollIndent s.mark.column none .blockMappingStart s.mark
    allowSimpleKey (s.flowLevel == 0)
  indicator .value 1

/-- Whether a plain scalar may start at the next character. -/
def plainMayStart : Scan Bool := do
  let c ← peek
  let next ← peekAt 1
  let flow := (← get).flowLevel > 0
  match c with
  | none => pure false
  | some c =>
    let indicators := "-?:,[]\x7b\x7d#&*!|>'\"%@`".toList
    pure (!(isBlank c || isBreak c || indicators.contains c) ||
      (c == '-' && !(next.map isBlank).getD false) ||
      (!flow && (c == '?' || c == ':') && !blankOrEnd next))

/-- Reads the next token (or tokens, with the block ends before it) into the queue. -/
def fetchNext : Scan Unit := do
  if !(← get).started then
    streamStart
    return
  toNextToken
  staleKeys
  unrollIndent (← mark).column
  let c ← peek
  let next ← peekAt 1
  let col := (← mark).column
  let flow := (← get).flowLevel > 0
  match c with
  | none => streamEnd
  | some c =>
    if col == 0 && c == '%' then directive
    else if ← atDocumentMarker then
      documentIndicator (if c == '-' then .documentStart else .documentEnd)
    else if c == '[' then flowCollectionStart .flowSequenceStart
    else if c == '\x7b' then flowCollectionStart .flowMappingStart
    else if c == ']' then flowCollectionEnd .flowSequenceEnd
    else if c == '\x7d' then flowCollectionEnd .flowMappingEnd
    else if c == ',' then flowEntry
    else if c == '-' && blankOrEnd next then blockEntry
    else if c == '?' && (flow || blankOrEnd next) then explicitKey
    else if c == ':' && (flow || blankOrEnd next) then value
    else if c == '*' || c == '&' then
      saveKey
      allowSimpleKey false
      enqueue (← anchorOrAlias (c == '*'))
    else if c == '!' then
      saveKey
      allowSimpleKey false
      enqueue (← tag)
    else if (c == '|' || c == '>') && !flow then
      removeKey
      allowSimpleKey true
      enqueue (← blockScalar (c == '|'))
    else if c == '\'' || c == '"' then
      saveKey
      allowSimpleKey false
      enqueue (← quotedScalar (c == '\''))
    else if ← plainMayStart then
      saveKey
      allowSimpleKey false
      enqueue (← plainScalar)
    else
      let m ← mark
      failIn "while scanning for the next token" m "found character that cannot start any token"

/-- Fills the queue until its first token can be handed out: the queue is not empty and
no possible simple key may still claim its place. -/
def fetchMore : Nat → Scan Unit
  | 0 => modify fun s => { s with tokenAvailable := true }
  | fuel + 1 => do
    let s ← get
    let need ←
      if s.tokens.isEmpty then pure true
      else
        staleKeys
        let s ← get
        pure (s.simpleKeys.any fun k => k.possible && k.tokenNumber == s.tokensParsed)
    if need then
      fetchNext
      fetchMore fuel
    else modify fun s => { s with tokenAvailable := true }

/-- The next token, read if it is not yet in the queue. -/
def peekToken : Scan Token := do
  if !(← get).tokenAvailable then fetchMore ((← remaining) * 2 + (← get).indents.length + 4)
  let s ← get
  match s.tokens with
  | t :: _ => pure t
  | [] => pure ⟨.streamEnd, s.mark, s.mark⟩

/-- Hands out the next token. -/
def skipToken : Scan Unit := modify fun s =>
  { s with tokenAvailable := false, tokensParsed := s.tokensParsed + 1, tokens := s.tokens.tail }

end Scan
end Yaml
end QirGen
