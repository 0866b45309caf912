import QirGen.Ir.Basic
import QirGen.Decimal.Significant

/-!
# The text form of modules

`Module.render` writes a module in the typed-pointer dialect of LLVM assembly that QIR
consumers read: a header naming the module, the opaque `%Qubit` and `%Result` types,
each function (blocks separated by a blank line), the declarations, one attribute group
per function that has attributes (numbered `#0, #1, …` in function order), and the
module flags.

Double constants are written in scientific notation with seven significant digits
(`1.500000e+00`, exponent with a sign and at least two digits) when that text reads back
as exactly the same value, and as the sixteen hexadecimal digits of the bit pattern
(`0x400921FB54442D18`) otherwise, which is always the case for NaN and the infinities.
-/

namespace QirGen

/-- Seven significant digits in the form `d.dddddde±XX`, for a nonzero decimal with
exactly seven digits. -/
def Decimal.sevenDigitText (d : Decimal) : String :=
  let s := Decimal.digitString d.digits
  let e := d.exponent + 6
  let mag := Decimal.digitString e.natAbs
  String.ofList (s.toList.take 1) ++ "." ++ String.ofList (s.toList.drop 1) ++ "e" ++
    (if e < 0 then "-" else "+") ++ (if mag.length < 2 then "0" ++ mag else mag)

/-- The text of a double constant in IR: seven significant digits when they read back,
otherwise `0x` and the hexadecimal bit pattern. -/
def Binary64.irText (x : Binary64) : String :=
  let hex := "0x" ++ x.hexDigits
  if !x.isFinite then hex
  else
    let sign := if x.negative then "-" else ""
    if x.isZero then sign ++ "0.000000e+00"
    else
      let d := Decimal.ofRatioSignificant 7 x.magnitude.1 x.magnitude.2
      if Binary64.readsBackAs x.negative d.digits d.exponent x then
        sign ++ d.sevenDigitText
      else hex

namespace Ir

/-- The IR spelling of a type. -/
def Ty.text : Ty → String
  | .void => "void"
  | .bool => "i1"
  | .int => "i64"
  | .double => "double"
  | .qubit => "%Qubit*"
  | .result => "%Result*"

/-- The IR spelling of a typed operand. -/
def Value.text : Value → String
  | .null t => t.text ++ " null"
  | .intToPtr t n => t.text ++ " inttoptr (i64 " ++ toString n ++ " to " ++ t.text ++ ")"
  | .named t n => t.text ++ " %" ++ n
  | .double x => "double " ++ x.irText
  | .int i => "i64 " ++ toString i
  | .bool b => "i1 " ++ toString b

/-- One instruction line, indented by two spaces. -/
def Instr.text : Instr → String
  | .call c rt args result =>
      let rhs := "call " ++ rt.text ++ " @" ++ c ++ "(" ++ String.intercalate ", " (args.map Value.text) ++ ")"
      match result with
      | some n => "  %" ++ n ++ " = " ++ rhs
      | none => "  " ++ rhs
  | .br t => "  br label %" ++ t
  | .condBr c t e => "  br " ++ c.text ++ ", label %" ++ t ++ ", label %" ++ e
  | .ret => "  ret void"

/-- A block: its label line, then one line per instruction. -/
def Block.text (b : Block) : String :=
  b.label ++ ":\n" ++ String.join (b.instrs.map fun i => i.text ++ "\n")

/-- A declaration line, without the line break. -/
def Callee.text (c : Callee) : String :=
  "declare " ++ c.ret.text ++ " @" ++ c.name ++ "(" ++ String.intercalate ", " (c.params.map Ty.text) ++ ")"

/-- An attribute: the quoted key, then `=` and the quoted value if it has one. -/
def Attribute.text (a : Attribute) : String :=
  match a.value with
  | some v => "\"" ++ a.key ++ "\"=\"" ++ v ++ "\""
  | none => "\"" ++ a.key ++ "\""

/-- A module flag as metadata. -/
def Flag.text (f : Flag) : String :=
  let v := match f.value with
    | .int i => "i32 " ++ toString i
    | .bool b => "i1 " ++ toString b
  "!\x7bi32 " ++ toString f.behavior ++ ", !\"" ++ f.key ++ "\", " ++ v ++ "\x7d"

/-- A function definition referring to its attribute group, if it has one. -/
def Function.text (f : Function) (group : Option Nat) : String :=
  let head := match group with
    | some g => "define void @" ++ f.name ++ "() #" ++ toString g ++ " \x7b\n"
    | none => "define void @" ++ f.name ++ "() \x7b\n"
  head ++ String.intercalate "\n" (f.blocks.map Block.text) ++ "\x7d\n"

/-- The attribute group number of each function: functions with attributes are numbered
from zero in order, the others have none. -/
def groupNumbers : Nat → List Function → List (Option Nat)
  | _, [] => []
  | n, f :: rest =>
      if f.attributes.isEmpty then none :: groupNumbers n rest
      else some n :: groupNumbers (n + 1) rest

/-- The full text of a module. -/
def Module.render (m : Module) : String :=
  let header := "; ModuleID = '" ++ m.name ++ "'\nsource_filename = \"" ++ m.name ++
    "\"\n\n%Qubit = type opaque\n%Result = type opaque\n"
  let groups := groupNumbers 0 m.functions
  let functions := String.join ((m.functions.zip groups).map fun (f, g) => "\n" ++ f.text g)
  let declarations :=
    if m.declarations.isEmpty then ""
    else "\n" ++ String.join (m.declarations.map fun c => c.text ++ "\n")
  let withAttrs := m.functions.filter fun f => !f.attributes.isEmpty
  let attributeGroups := String.join ((List.range withAttrs.length).zip withAttrs |>.map
    fun (i, f) =>
      "\nattributes #" ++ toString i ++ " = \x7b " ++
        String.intercalate " " (f.attributes.map Attribute.text) ++ " \x7d\n")
  let flags :=
    if m.flags.isEmpty then ""
    else
      "\n!llvm.module.flags = !\x7b" ++
        String.intercalate ", " ((List.range m.flags.length).map fun i => "!" ++ toString i) ++ "\x7d\n" ++
        String.join ((List.range m.flags.length).zip m.flags |>.map
          fun (i, f) => "!" ++ toString i ++ " = " ++ f.text ++ "\n")
  header ++ functions ++ declarations ++ attributeGroups ++ flags

end Ir
end QirGen
