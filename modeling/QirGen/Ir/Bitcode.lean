import QirGen.Lower.Error

/-!
# Bitcode

The text of a module is handed to LLVM, which parses it, verifies the module and writes it out
as bitcode; a text LLVM refuses is an `invalidIr` error. LLVM itself is not modelled: `Llvm`
holds the three operations the generator calls, and a proof assumes of them only what it states.
`redefines` tells the texts that define and declare one name, which LLVM's parser refuses.
-/

namespace QirGen
namespace Ir

/-- LLVM as the generator reaches it: parsing textual IR under a buffer name, verifying the
parsed module, and writing it as bitcode. -/
structure Llvm where
  /-- The modules LLVM holds once it has parsed a text. -/
  Parsed : Type
  parse : String → String → Except String Parsed
  verify : Parsed → Except String Unit
  writeBitcode : Parsed → ByteArray

/-- Parses textual IR with LLVM, verifies it and writes it as bitcode. -/
def irToBitcode (llvm : Llvm) (ir name : String) : Except TranslateError ByteArray := do
  let m ← match llvm.parse ir name with
    | .ok m => pure m
    | .error e => throw (.invalidIr ("failed to parse IR: " ++ e))
  match llvm.verify m with
  | .ok () => pure (llvm.writeBitcode m)
  | .error e => throw (.invalidIr ("verification failed: " ++ e))

/-- The name a line opens with `keyword`: what stands between its first `@` and the next `(`. -/
def symbolAfter (keyword : String) (line : List Char) : Option (List Char) :=
  if keyword.toList.isPrefixOf line then
    some (((line.dropWhile (· != '@')).drop 1).takeWhile (· != '('))
  else none

/-- Whether a text of IR defines a function and also declares one of the same name. -/
def redefines (ir : String) : Bool :=
  let lines := ir.toList.splitOn '\n'
  (lines.filterMap (symbolAfter "define ")).any fun n =>
    (lines.filterMap (symbolAfter "declare ")).contains n

end Ir
end QirGen
