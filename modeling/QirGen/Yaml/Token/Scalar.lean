import QirGen.Yaml.Token

/-!
# Scanning scalars, anchors and tags

A plain scalar runs to a `:` before a blank, a `#` after a blank, or (inside brackets) a
flow indicator, and goes on over line breaks while the next line is indented past the
enclosing block. Quoted scalars go on to their closing quote. In both, a single line
break between two parts folds into a space, and each further break is kept; blanks
around a break are dropped.

A block scalar (`|` literal, `>` folded) takes its indentation from an explicit
indicator or from its first non-empty line, and its chomping indicator decides what
happens to the final breaks.
-/

namespace QirGen
namespace Yaml

/-- What line folding has gathered inside a scalar: the text so far, blanks not yet
known to be inner ones, the first break of a run of breaks and the breaks after it. -/
structure Folding where
  text : String := ""
  whitespaces : String := ""
  leadingBreak : String := ""
  trailingBreaks : String := ""
  leadingBlanks : Bool := false
  deriving Inhabited

/-- Folds a run of breaks into the text: a single line feed becomes a space, each
further break is kept, and a run starting with a line or paragraph separator keeps all
its breaks. -/
def Folding.fold (f : Folding) : Folding :=
  if f.leadingBreak.startsWith "\n" then
    if f.trailingBreaks.isEmpty then { f with text := f.text.push ' ', leadingBreak := "" }
    else { f with text := f.text ++ f.trailingBreaks, leadingBreak := "", trailingBreaks := "" }
  else
    { f with text := f.text ++ f.leadingBreak ++ f.trailingBreaks, leadingBreak := "",
             trailingBreaks := "" }

/-- Joins what stands between two parts of a scalar: folded breaks, or the blanks. -/
def Folding.join (f : Folding) : Folding :=
  if f.leadingBlanks then { f.fold with leadingBlanks := false }
  else { f with text := f.text ++ f.whitespaces, whitespaces := "" }

/-- Whether a character is a flow indicator. -/
def isFlowIndicator (c : Char) : Bool :=
  c == ',' || c == '[' || c == ']' || c == '\x7b' || c == '\x7d'

namespace Scan

/-- The number of characters left, a bound for every loop over them. -/
def remaining : Scan Nat := return (← get).rest.length + 1

/-- Sets whether a simple key may start here. -/
def allowSimpleKey (b : Bool) : Scan Unit :=
  modify fun s => { s with simpleKeyAllowed := b }

/-- Reads the non-blank run of a plain scalar. Inside brackets a `:` directly followed by
`?` or a flow indicator is refused. -/
def plainRun (flow : Bool) (start : Mark) : Nat → Folding → Mark → Scan (Folding × Mark)
  | 0, f, e => pure (f, e)
  | fuel + 1, f, e => do
    let c ← peek
    if blankOrEnd c then return (f, e)
    let next ← peekAt 1
    if flow && isChar ':' c &&
        (next.map (fun d => d == '?' || isFlowIndicator d)).getD false then
      failIn "while scanning a plain scalar" start "found unexpected ':'"
    if (isChar ':' c && blankOrEnd next) || (flow && (c.map isFlowIndicator).getD false) then
      return (f, e)
    let f := if f.leadingBlanks || !f.whitespaces.isEmpty then f.join else f
    let ch ← read
    plainRun flow start fuel { f with text := f.text ++ ch } (← mark)

/-- Passes over the blanks and breaks after a run of a plain scalar; a tab among the
indentation of a following line is refused. -/
def plainGap (indent : Int) (start : Mark) : Nat → Folding → Scan Folding
  | 0, f => pure f
  | fuel + 1, f => do
    match ← peek with
    | none => pure f
    | some c =>
      if isBlank c then
        if f.leadingBlanks && ((← mark).column : Int) < indent && c == '\t' then
          failIn "while scanning a plain scalar" start
            "found a tab character that violates indentation"
        else if f.leadingBlanks then
          skip
          plainGap indent start fuel f
        else
          let w ← read
          plainGap indent start fuel { f with whitespaces := f.whitespaces ++ w }
      else if isBreak c then
        let b ← readLine
        if f.leadingBlanks then
          plainGap indent start fuel { f with trailingBreaks := f.trailingBreaks ++ b }
        else
          plainGap indent start fuel
            { f with whitespaces := "", leadingBreak := b, leadingBlanks := true }
      else pure f

/-- Reads the lines of a plain scalar. -/
def plainLines (indent : Int) (flow : Bool) (start : Mark) :
    Nat → Folding → Mark → Scan (Folding × Mark)
  | 0, f, e => pure (f, e)
  | fuel + 1, f, e => do
    if ← atDocumentMarker then return (f, e)
    if isChar '#' (← peek) then return (f, e)
    let (f, e) ← plainRun flow start (← remaining) f e
    if !((← peek).map (fun c => isBlank c || isBreak c)).getD false then return (f, e)
    let f ← plainGap indent start (← remaining) f
    if !flow && ((← mark).column : Int) < indent then return (f, e)
    plainLines indent flow start fuel f e

/-- Scans a plain scalar. A scalar that ends on a later line lets a simple key follow. -/
def plainScalar : Scan Token := do
  let s ← get
  let start := s.mark
  let (f, e) ← plainLines (s.indent + 1) (s.flowLevel > 0) start (← remaining) {} start
  if f.leadingBlanks then allowSimpleKey true
  pure ⟨.scalar f.text .plain, start, e⟩

/-- The text of the escape `\c` in a double-quoted scalar, or the number of hexadecimal
digits that follow it. -/
def escapeText : Char → Option (Sum String Nat)
  | '0' => some (.inl "\x00")
  | 'a' => some (.inl "\x07")
  | 'b' => some (.inl "\x08")
  | 't' => some (.inl "\t")
  | '\t' => some (.inl "\t")
  | 'n' => some (.inl "\n")
  | 'v' => some (.inl "\x0B")
  | 'f' => some (.inl "\x0C")
  | 'r' => some (.inl "\r")
  | 'e' => some (.inl "\x1B")
  | ' ' => some (.inl " ")
  | '"' => some (.inl "\"")
  | '/' => some (.inl "/")
  | '\\' => some (.inl "\\")
  | 'N' => some (.inl "\x85")
  | '_' => some (.inl "\xA0")
  | 'L' => some (.inl "\u2028")
  | 'P' => some (.inl "\u2029")
  | 'x' => some (.inr 2)
  | 'u' => some (.inr 4)
  | 'U' => some (.inr 8)
  | _ => none

/-- Reads `n` hexadecimal digits ahead as one number, if they are all digits. -/
def hexAhead (n : Nat) : Scan (Option Nat) := do
  let digits := ((← get).rest.take n).map hexDigitValue?
  if digits.length < n then return none
  return digits.foldl (fun acc d => acc.bind fun a => d.map fun v => a * 16 + v) (some 0)

/-- Reads an escape sequence of a double-quoted scalar. -/
def escape (start : Mark) (e : Char) : Scan String := do
  match escapeText e with
  | none => failIn "while parsing a quoted scalar" start "found unknown escape character"
  | some (.inl t) =>
    skip
    skip
    pure t
  | some (.inr n) =>
    skip
    skip
    match ← hexAhead n with
    | none =>
      failIn "while parsing a quoted scalar" start "did not find expected hexadecimal number"
    | some v =>
      if (0xD800 ≤ v && v ≤ 0xDFFF) || v > 0x10FFFF then
        failIn "while parsing a quoted scalar" start
          "found invalid Unicode character escape code"
      else
        for _ in [0:n] do skip
        pure (String.singleton (Char.ofNat v))

/-- Reads the non-blank run of a quoted scalar, up to a blank, a break, the end or the
closing quote. An escaped line break ends the run as a break that joins without a
space. -/
def quotedRun (single : Bool) (start : Mark) : Nat → Folding → Scan Folding
  | 0, f => pure f
  | fuel + 1, f => do
    let c ← peek
    if blankOrEnd c then return f
    let next ← peekAt 1
    if single && isChar '\'' c && isChar '\'' next then
      skip
      skip
      quotedRun single start fuel { f with text := f.text.push '\'' }
    else if isChar (if single then '\'' else '"') c then return f
    else if !single && isChar '\\' c && (next.map isBreak).getD false then
      skip
      skipLine
      return { f with leadingBlanks := true }
    else if !single && isChar '\\' c then
      let t ← escape start (next.getD ' ')
      quotedRun single start fuel { f with text := f.text ++ t }
    else
      let t ← read
      quotedRun single start fuel { f with text := f.text ++ t }

/-- Passes over the blanks and breaks inside a quoted scalar. -/
def quotedGap : Nat → Folding → Scan Folding
  | 0, f => pure f
  | fuel + 1, f => do
    match ← peek with
    | none => pure f
    | some c =>
      if isBlank c then
        if f.leadingBlanks then
          skip
          quotedGap fuel f
        else
          let w ← read
          quotedGap fuel { f with whitespaces := f.whitespaces ++ w }
      else if isBreak c then
        let b ← readLine
        if f.leadingBlanks then quotedGap fuel { f with trailingBreaks := f.trailingBreaks ++ b }
        else quotedGap fuel { f with whitespaces := "", leadingBreak := b, leadingBlanks := true }
      else pure f

/-- Reads the lines of a quoted scalar up to its closing quote. -/
def quotedLines (single : Bool) (start : Mark) : Nat → Folding → Scan Folding
  | 0, f => pure f
  | fuel + 1, f => do
    if ← atDocumentMarker then
      failIn "while scanning a quoted scalar" start "found unexpected document indicator"
    if (← peek).isNone then
      failIn "while scanning a quoted scalar" start "found unexpected end of stream"
    let f ← quotedRun single start (← remaining) { f with leadingBlanks := false }
    if isChar (if single then '\'' else '"') (← peek) then return f
    let f ← quotedGap (← remaining) f
    quotedLines single start fuel f.join

/-- Scans a single- or double-quoted scalar. -/
def quotedScalar (single : Bool) : Scan Token := do
  let start ← mark
  skip
  let f ← quotedLines single start (← remaining) {}
  skip
  pure ⟨.scalar f.text (if single then .singleQuoted else .doubleQuoted), start, ← mark⟩

/-- Passes over the indentation and empty lines of a block scalar, gathering the breaks;
when the indentation is not yet known, it becomes the deepest indentation seen, and at
least one more than the enclosing block's. -/
def blockBreaks (start : Mark) (indent : Nat) :
    Nat → String → Nat → Mark → Scan (Nat × String × Mark)
  | 0, b, _, e => pure (indent, b, e)
  | fuel + 1, b, deepest, e => do
    let open? (col : Nat) : Bool := indent == 0 || col < indent
    for _ in [0:(← remaining)] do
      if open? (← mark).column && isChar ' ' (← peek) then skip
    let col := (← mark).column
    let deepest := max deepest col
    if open? col && isChar '\t' (← peek) then
      failIn "while scanning a block scalar" start
        "found a tab character where an indentation space is expected"
    if !((← peek).map isBreak).getD false then
      if indent != 0 then return (indent, b, e)
      let outer := (← get).indent + 1
      let chosen := max (max (deepest : Int) outer) 1
      return (chosen.toNat, b, e)
    let br ← readLine
    blockBreaks start indent fuel (b ++ br) deepest (← mark)

/-- Reads the lines of a block scalar's content. -/
def blockLines (literal : Bool) (start : Mark) :
    Nat → Nat → Folding → Bool → Mark → Scan (Folding × Mark)
  | 0, _, f, _, e => pure (f, e)
  | fuel + 1, indent, f, leadingBlank, e => do
    if (← mark).column != indent || (← peek).isNone then return (f, e)
    let trailingBlank := ((← peek).map isBlank).getD false
    let f :=
      if !literal && f.leadingBreak.startsWith "\n" && !leadingBlank && !trailingBlank then
        if f.trailingBreaks.isEmpty then { f with text := f.text.push ' ', leadingBreak := "" }
        else { f with leadingBreak := "" }
      else { f with text := f.text ++ f.leadingBreak, leadingBreak := "" }
    let f := { f with text := f.text ++ f.trailingBreaks, trailingBreaks := "" }
    let leadingBlank := ((← peek).map isBlank).getD false
    let line := ((← get).rest.takeWhile (fun c => !isBreak c))
    for _ in line do skip
    let br ← readLine
    let (indent, breaks, e) ← blockBreaks start indent (← remaining) "" 0 e
    blockLines literal start fuel indent
      { f with text := f.text ++ String.ofList line, leadingBreak := br,
               trailingBreaks := breaks } leadingBlank e

/-- Scans a literal (`|`) or folded (`>`) block scalar with its indicators. -/
def blockScalar (literal : Bool) : Scan Token := do
  let start ← mark
  skip
  let zeroIndent : Scan Unit :=
    failIn "while scanning a block scalar" start "found an indentation indicator equal to 0"
  let mut chomping : Int := 0
  let mut increment : Nat := 0
  match ← peek with
  | some '+' | some '-' =>
    chomping := if isChar '+' (← peek) then 1 else -1
    skip
    if let some c ← peek then
      if c.isDigit then
        if c == '0' then zeroIndent
        increment := c.toNat - '0'.toNat
        skip
  | some c =>
    if c.isDigit then
      if c == '0' then zeroIndent
      increment := c.toNat - '0'.toNat
      skip
      if isChar '+' (← peek) || isChar '-' (← peek) then
        chomping := if isChar '+' (← peek) then 1 else -1
        skip
  | none => pure ()
  skipBlanks
  if isChar '#' (← peek) then skipToBreak
  if !breakOrEnd (← peek) then
    failIn "while scanning a block scalar" start "did not find expected comment or line break"
  skipLine
  let outer := (← get).indent
  let indent : Nat :=
    if increment == 0 then 0 else if outer ≥ 0 then (outer + increment).toNat else increment
  let (indent, breaks, e) ← blockBreaks start indent (← remaining) "" 0 (← mark)
  let (f, e) ← blockLines literal start (← remaining) indent { trailingBreaks := breaks } false e
  let text := if chomping != -1 then f.text ++ f.leadingBreak else f.text
  let text := if chomping == 1 then text ++ f.trailingBreaks else text
  allowSimpleKey true
  pure ⟨.scalar text (if literal then .literal else .folded), start, e⟩

/-- Scans an anchor (`&name`) or an alias (`*name`). -/
def anchorOrAlias (isAlias : Bool) : Scan Token := do
  let start ← mark
  skip
  let name := String.ofList ((← get).rest.takeWhile isWordChar)
  for _ in [0:name.length] do skip
  let c ← peek
  let ends := blankOrEnd c ||
    (c.map (fun d => "?:,]\x7d%@`".toList.contains d)).getD false
  if name.isEmpty || !ends then
    failIn (if isAlias then "while scanning an alias" else "while scanning an anchor") start
      "did not find expected alphabetic or numeric character"
  pure ⟨if isAlias then .alias name else .anchor name, start, ← mark⟩

/-- Characters that may stand in a tag: letters, digits and the marks of a URI. -/
def isUriChar (verbatim : Bool) (c : Char) : Bool :=
  isWordChar c || ";/?:@&=+$.%!~*'()".toList.contains c ||
    (verbatim && (c == ',' || c == '[' || c == ']'))

/-- The characters of a UTF-8 byte sequence, or the replacement character. -/
def decodeBytes (bytes : List UInt8) : String :=
  (String.fromUTF8? (ByteArray.mk bytes.toArray)).getD "\uFFFD"

/-- Reads a run of `%XX` escapes that encodes one UTF-8 character. -/
def uriEscapes (context : String) (start : Mark) : Nat → List UInt8 → Nat → Scan String
  | 0, bytes, _ => pure (decodeBytes bytes)
  | fuel + 1, bytes, width => do
    let bad : Scan String := failIn context start "did not find URI escaped octet"
    if !isChar '%' (← peek) then bad
    else
      let hi := (← peekAt 1).bind hexDigitValue?
      let lo := (← peekAt 2).bind hexDigitValue?
      match hi, lo with
      | some h, some l =>
        let octet := h * 16 + l
        let width ←
          if width == 0 then
            let w := if octet < 0x80 then 1 else if octet / 32 == 6 then 2
              else if octet / 16 == 14 then 3 else if octet / 8 == 30 then 4 else 0
            if w == 0 then failIn context start "found an incorrect leading UTF-8 octet"
            pure w
          else
            if octet / 64 != 2 then failIn context start "found an incorrect trailing UTF-8 octet"
            pure width
        skip
        skip
        skip
        let bytes := bytes ++ [octet.toUInt8]
        if bytes.length ≥ width then pure (decodeBytes bytes)
        else uriEscapes context start fuel bytes width
      | _, _ => bad

/-- Reads the characters of a tag after its handle. -/
def tagUri (verbatim directive : Bool) (head : String) (start : Mark) : Scan String := do
  let context := if directive then "while parsing a %TAG directive" else "while parsing a tag"
  let mut text := head.drop 1 |>.toString
  let mut count := head.length
  for _ in [0:(← remaining)] do
    match ← peek with
    | some c =>
      if !isUriChar verbatim c then break
      if c == '%' then text := text ++ (← uriEscapes context start 4 [] 0)
      else text := text ++ (← read)
      count := count + 1
    | none => break
  if count == 0 then failIn context start "did not find expected tag URI"
  pure text

/-- Reads a tag handle: `!`, `!!` or `!word!`, or the start of a tag with no handle. -/
def tagHandle (directive : Bool) (start : Mark) : Scan String := do
  if !isChar '!' (← peek) then
    failIn (if directive then "while scanning a tag directive" else "while scanning a tag") start
      "did not find expected '!'"
  let mut text ← read
  let word := (← get).rest.takeWhile isWordChar
  for _ in word do skip
  text := text ++ String.ofList word
  if isChar '!' (← peek) then
    text := text ++ (← read)
  else if directive && text != "!" then
    failIn "while parsing a tag directive" start "did not find expected '!'"
  pure text

/-- Scans a tag: verbatim `!<uri>`, `!handle!suffix`, `!suffix` or the bare `!`. -/
def tag : Scan Token := do
  let start ← mark
  let (handle, suffix) ←
    if isChar '<' (← peekAt 1) then
      skip
      skip
      let suffix ← tagUri true false "" start
      if !isChar '>' (← peek) then
        failIn "while scanning a tag" start "did not find the expected '>'"
      skip
      pure ("", suffix)
    else
      let handle ← tagHandle false start
      if handle.length > 1 && handle.startsWith "!" && handle.endsWith "!" then
        pure (handle, ← tagUri false false "" start)
      else
        let suffix ← tagUri false false handle start
        if suffix.isEmpty then pure (suffix, "!") else pure ("!", suffix)
  let c ← peek
  if !blankOrEnd c && !((← get).flowLevel > 0 && isChar ',' c) then
    failIn "while scanning a tag" start "did not find expected whitespace or line break"
  pure ⟨.tag handle suffix, start, ← mark⟩

end Scan

end Yaml
end QirGen
