/-!
# Execution profiles

A profile says what the target machine can do. The base profile has static qubit and
result addressing, no branching on measurement results and no qubit reuse after
measurement; the adaptive profile allocates qubits and results at run time, branches on
results and reuses qubits, and does not fix register sizes.
-/

namespace QirGen

/-- The execution profiles. -/
inductive Profile where
  | base
  | adaptive
  deriving DecidableEq, Inhabited, Repr

/-- What a profile allows. -/
structure Capabilities where
  dynamicAllocation : Bool
  branchOnResult : Bool
  qubitReuse : Bool
  staticRegisterSizes : Bool
  deriving DecidableEq, Inhabited

/-- How qubit and result handles are produced. -/
inductive Addressing where
  /-- Handles are constants made from the index. -/
  | static
  /-- Handles are returned by allocation and measurement calls. -/
  | dynamic
  deriving DecidableEq, Inhabited, Repr

namespace Profile

/-- The profile a name stands for: `Base`, `base`, `base_profile`, or
`AdaptiveProfileExecution`, `adaptive`, `adaptive_profile`, exactly. -/
def ofName? : String → Option Profile
  | "Base" | "base" | "base_profile" => some .base
  | "AdaptiveProfileExecution" | "adaptive" | "adaptive_profile" => some .adaptive
  | _ => none

/-- The display name of a profile. -/
def name : Profile → String
  | .base => "Base"
  | .adaptive => "AdaptiveProfileExecution"

/-- The profile name recorded in the entry point's attributes. -/
def qirName : Profile → String
  | .base => "base_profile"
  | .adaptive => "adaptive_profile"

/-- What a profile allows. -/
def capabilities : Profile → Capabilities
  | .base => ⟨false, false, false, true⟩
  | .adaptive => ⟨true, true, true, false⟩

/-- Dynamic addressing exactly when the profile allocates at run time. -/
def addressing (p : Profile) : Addressing :=
  if p.capabilities.dynamicAllocation then .dynamic else .static

end Profile
end QirGen
