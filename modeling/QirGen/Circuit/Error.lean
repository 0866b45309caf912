/-!
# Errors of building and reading circuits

An operand out of range or repeated, a position past the last instruction, or JSON that
does not describe a program. The gate name, when known, is added to the message.
-/

namespace QirGen
namespace Circuit

/-- Why a circuit operation failed. -/
inductive BuildError where
  | qubitNotFound (qubit : Nat) (gate : Option String)
  | clbitNotFound (clbit : Nat) (gate : Option String)
  | duplicateQubit (qubit : Nat) (gate : Option String)
  | instructionOutOfRange (index count : Nat)
  | json (message : String)
  deriving DecidableEq, Inhabited

namespace BuildError

/-- ` (gate: <name>)` for a known gate name. -/
def gateContext : Option String → String
  | some n => " (gate: " ++ n ++ ")"
  | none => ""

/-- The text of an error. -/
def message : BuildError → String
  | .qubitNotFound q g => "Qubit q" ++ toString q ++ " not found in program" ++ gateContext g
  | .clbitNotFound c g =>
      "Classical bit c" ++ toString c ++ " not found in program" ++ gateContext g
  | .duplicateQubit q g => "Duplicate qubit q" ++ toString q ++ " in operation" ++ gateContext g
  | .instructionOutOfRange i n =>
      "Instruction " ++ toString i ++ " out of range for program with " ++ toString n ++
        " instructions"
  | .json m => "Invalid program JSON: " ++ m

end BuildError
end Circuit
end QirGen
