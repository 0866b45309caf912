import QirGen.Text.Printable

/-!
# Quoted text in messages

Messages quote a piece of text between double quotes. Quotes and backslashes get a
backslash, and `\0`, `\t`, `\r` and `\n` stand for their characters. Every other
character that is not printable, or that would join the character before it (a
combining mark, a variation selector), is written as `\u{hex}` with lower-case digits;
the rest stand as themselves.
-/

namespace QirGen
namespace Text

/-- Whether a character is written as `\u{hex}` in quoted text: it is not printable, or
it is outside ASCII and extends the grapheme cluster before it. -/
def needsCodeEscape (c : Char) : Bool :=
  (0x80 ≤ c.toNat && isGraphemeExtend c) || !isPrintable c

/-- How one character is written in quoted text. -/
def quotedChar (c : Char) : String :=
  match c with
  | '"' => "\\\""
  | '\\' => "\\\\"
  | '\n' => "\\n"
  | '\r' => "\\r"
  | '\t' => "\\t"
  | '\x00' => "\\0"
  | c =>
      if needsCodeEscape c then "\\u\x7b" ++ String.ofList (Nat.toDigits 16 c.toNat) ++ "\x7d"
      else String.singleton c

/-- The text of a string as a quoted literal (see the module comment). -/
def quoted (s : String) : String :=
  "\"" ++ String.join (s.toList.map quotedChar) ++ "\""

end Text
end QirGen
