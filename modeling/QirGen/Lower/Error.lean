import QirGen.Circuit.Error
import QirGen.Target.Profile

/-!
# Errors of translation

Why a program does not become a module: an unsupported operation, an unknown profile name, an
index beyond a declared count, a bit with no recorded result, malformed operands, a capability
the profile lacks, text that LLVM refuses, invalid options, or a fault of the program itself.
-/

namespace QirGen

/-- The resources that are counted: qubits and measurement results. -/
inductive ResourceKind where
  | qubit
  | result
  deriving DecidableEq, Inhabited

/-- The lower-case name of a resource. -/
def ResourceKind.name : ResourceKind → String
  | .qubit => "qubit"
  | .result => "result"

/-- Why translation failed. -/
inductive TranslateError where
  | unsupportedInstruction (name : String) (index : Nat)
  | invalidProfile (name : String)
  | resourceMismatch (kind : ResourceKind) (index declared : Nat)
  | recordingOmission (clbit : Nat)
  | invalidOperands (name : String) (index : Nat) (reason : String)
  | capabilityUnavailable (profile : Profile) (capability : String)
  | invalidIr (message : String)
  | config (message : String)
  | program (e : Circuit.BuildError)
  deriving DecidableEq, Inhabited

/-- The text of a translation error. -/
def TranslateError.message : TranslateError → String
  | .unsupportedInstruction n i =>
      "Unsupported instruction '" ++ n ++ "' at position " ++ toString i
  | .invalidProfile n => "Invalid profile: '" ++ n ++ "' (expected Base or AdaptiveProfileExecution)"
  | .resourceMismatch k i d =>
      k.name ++ " index " ++ toString i ++ " exceeds declared " ++ k.name ++ " count " ++ toString d
  | .recordingOmission c => "Classical bit c" ++ toString c ++ " has no recorded result"
  | .invalidOperands n i r =>
      "Invalid operands for '" ++ n ++ "' at position " ++ toString i ++ ": " ++ r
  | .capabilityUnavailable p c => "Profile " ++ p.name ++ " does not allow " ++ c
  | .invalidIr m => "Invalid IR: " ++ m
  | .config m => "Configuration error: " ++ m
  | .program e => "Program error: " ++ e.message

/-- The error for a call that was to bind a value and bound none. -/
def missingBinding (callee : String) : TranslateError :=
  .invalidOperands callee 0 "call produced no value"

/-- The profile a name stands for, or the error that names it. -/
def Profile.parse (name : String) : Except TranslateError Profile :=
  match Profile.ofName? name with
  | some p => .ok p
  | none => .error (.invalidProfile name)

end QirGen
