import QirGen.Decimal.Text

/-!
# JSON values and their text

`Json.Value` is a JSON document: numbers keep the kind they were read as (an unsigned
64-bit integer, a negative 64-bit integer, or a binary64 value), and objects keep their
members in the order written. `Value.write` is the compact text of a value: no blanks,
strings escaped as `\"`, `\\`, `\b`, `\f`, `\n`, `\r`, `\t` and `\u00XX` for the other
control characters below U+0020, every other character written as itself.

Floating-point numbers are written with the shortest digits that read back, positionally
when `0.D × 10^k` has `-5 < k ≤ 16` and scientifically otherwise; NaN and the infinities
are written `null`.
-/

namespace QirGen
namespace Json

/-- A JSON number, tagged by how it is held. -/
inductive Number where
  | nat (n : Nat)
  | negInt (i : Int)
  | float (x : Binary64)
  deriving DecidableEq, Inhabited

/-- A JSON document. -/
inductive Value where
  | null
  | bool (b : Bool)
  | number (n : Number)
  | string (s : String)
  | array (items : List Value)
  | object (members : List (String × Value))
  deriving Inhabited

namespace Value

/-- The value of the last member named `key`, if the value is an object that has one. -/
def get? (v : Value) (key : String) : Option Value :=
  match v with
  | .object members => (members.reverse.find? (·.1 == key)).map (·.2)
  | _ => none

/-- A natural number as a JSON number. -/
def nat (n : Nat) : Value := .number (.nat n)

/-- An integer as a JSON number. -/
def int (i : Int) : Value :=
  match i with
  | .ofNat n => .number (.nat n)
  | .negSucc _ => .number (.negInt i)

/-- An optional value, `null` when absent. -/
def opt {α : Type} (f : α → Value) : Option α → Value
  | some a => f a
  | none => .null

end Value

/-- Floating-point numbers in JSON text: positional for `-5 < k ≤ 16`. -/
def floatNotation : Decimal.Notation := ⟨some (-5), some 16⟩

/-- The JSON text of a binary64 value: `null` for NaN and the infinities. -/
def floatText (x : Binary64) : String :=
  if x.isFinite then floatNotation.write x else "null"

/-- A lower-case hexadecimal digit. -/
def hexDigit (v : Nat) : Char :=
  if v < 10 then Char.ofNat (48 + v) else Char.ofNat (87 + v)

/-- The escaped form of one character inside a JSON string. -/
def escapeChar (c : Char) : String :=
  match c with
  | '"' => "\\\""
  | '\\' => "\\\\"
  | '\n' => "\\n"
  | '\r' => "\\r"
  | '\t' => "\\t"
  | '\x08' => "\\b"
  | '\x0c' => "\\f"
  | c =>
      if c.toNat < 32 then
        "\\u00" ++ String.ofList [hexDigit (c.toNat / 16), hexDigit (c.toNat % 16)]
      else String.singleton c

/-- A string as a quoted JSON string. -/
def quote (s : String) : String :=
  "\"" ++ String.join (s.toList.map escapeChar) ++ "\""

/-- The text of a number. -/
def Number.write : Number → String
  | .nat n => Decimal.digitString n
  | .negInt i => "-" ++ Decimal.digitString i.natAbs
  | .float x => floatText x

mutual
/-- The compact text of a value. -/
def Value.write : Value → String
  | .null => "null"
  | .bool b => if b then "true" else "false"
  | .number n => n.write
  | .string s => quote s
  | .array items => "[" ++ writeItems items ++ "]"
  | .object members => "\x7b" ++ writeMembers members ++ "\x7d"

/-- Array items separated by commas. -/
def writeItems : List Value → String
  | [] => ""
  | [v] => v.write
  | v :: rest => v.write ++ "," ++ writeItems rest

/-- Object members separated by commas. -/
def writeMembers : List (String × Value) → String
  | [] => ""
  | [(k, v)] => quote k ++ ":" ++ v.write
  | (k, v) :: rest => quote k ++ ":" ++ v.write ++ "," ++ writeMembers rest
end

end Json
end QirGen
