import QirGen.Lower.Handles
import QirGen.Lower.Options
import QirGen.Target.Gate
import QirGen.Circuit.Source
import QirGen.Ir.Render
import QirGen.Ir.Bitcode

/-!
# Lowering programs to modules

`generate` reads a program source once, in order, and lowers each instruction into the entry
function; then it records every declared classical bit, releases the allocated qubits, returns,
and writes the entry point's attributes and the module flags. `translate` hands the module's
text to LLVM for bitcode.

The checks of one instruction come in a fixed order, and the first that fails is the error:
the operation name, its shape, its condition, then each qubit in turn. A guarded instruction
becomes a chain of tests, one block per compared bit, ending in its body (`then<r>`) and the
join block `continue<r>`.
-/

namespace QirGen

open Ir Circuit

/-- The state of one lowering. -/
structure Lowering where
  profile : Profile
  builder : Builder
  handles : Handles
  /-- Qubits measured so far. -/
  measuredQubits : List Nat := []
  /-- The number of conditional regions so far. -/
  regions : Nat := 0
  deriving Inhabited

/-- The first element equal to an earlier one. -/
def firstRepeat : List Nat → List Nat → Option Nat
  | _, [] => none
  | seen, q :: rest => if q ∈ seen then some q else firstRepeat (seen ++ [q]) rest

/-- `n` parameter(s), or `min to max` parameter(s), as a requirement. -/
def paramRequirement (lo hi : Nat) : String :=
  if lo = hi then toString lo else toString lo ++ " to " ++ toString hi

/-- Checks the operands of an instruction against its kind: the reason it is malformed. -/
def checkShape (caps : Capabilities) (declaredResults : Nat) (kind : GateKind)
    (i : Instruction) : Option String :=
  let q := i.qubits.length
  let c := i.clbits.length
  let dup : Option String := (firstRepeat [] i.qubits).map fun d =>
    "duplicate qubit operand q" ++ toString d
  let arityFault : Option String := match kind.arity with
    | .exact n =>
      if q ≠ n then some ("expected " ++ toString n ++ " qubit(s), got " ++ toString q) else dup
    | .paired =>
      if q = 0 ∨ q ≠ c then
        some ("expected matching qubit and classical bit operands, got " ++ toString q ++
          " and " ++ toString c)
      else dup
    | .any => none
  let (lo, hi) := kind.paramRange
  let p := i.params.length
  match arityFault with
  | some r => some r
  | none =>
    if kind.arity ≠ .paired ∧ c ≠ 0 then
      some ("unexpected classical bit operands (" ++ toString c ++ ")")
    else if p < lo ∨ p > hi then
      some ("expected " ++ paramRequirement lo hi ++ " parameter(s), got " ++ toString p)
    else if caps.staticRegisterSizes then none
    else (i.clbits.find? (declaredResults ≤ ·)).map fun b =>
      "classical bit c" ++ toString b ++ " is not declared"

namespace Lowering

/-- A fresh lowering into a builder, with handles for the declared counts. -/
def new (profile : Profile) (builder : Builder) (qubits clbits : Nat) : Lowering :=
  { profile, builder,
    handles := (Handles.new profile.addressing qubits clbits).withBounds
      profile.capabilities.staticRegisterSizes }

/-- The error for a capability the profile lacks. -/
def unavailable (s : Lowering) (capability : String) : TranslateError :=
  .capabilityUnavailable s.profile capability

/-- Resolves the qubit operands in order, refusing a measured qubit where qubits cannot be
reused. -/
def resolveQubits (s : Lowering) (kind : GateKind) : List Nat → Except TranslateError (Lowering × List Value)
  | [] => .ok (s, [])
  | q :: rest => do
    if kind.actsOnQubits && !s.profile.capabilities.qubitReuse && s.measuredQubits.contains q then
      throw (s.unavailable "qubit use after measurement")
    let (h, b, v) ← s.handles.qubit s.builder q
    let (s', vs) ← resolveQubits { s with handles := h, builder := b } kind rest
    return (s', v :: vs)

/-- Measures each qubit into its classical bit, in operand order. -/
def measurePairs (s : Lowering) : List ((Nat × Value) × Nat) → Except TranslateError Lowering
  | [] => .ok s
  | ((q, v), c) :: rest => do
    let (h, b) ← s.handles.measure s.builder v c
    measurePairs { s with handles := h, builder := b, measuredQubits := s.measuredQubits ++ [q] } rest

/-- Emits the body of an instruction whose qubits resolved to `qubits`. -/
def emit (s : Lowering) (kind : GateKind) (i : Instruction) (qubits : List Value) :
    Except TranslateError Lowering :=
  match kind with
  | .measure => s.measurePairs ((i.qubits.zip qubits).zip i.clbits)
  | .barrier => .ok { s with builder := s.builder.callUnit Runtime.barrier [] }
  | .id | .delay => .ok s
  | _ =>
    match kind.callee? with
    | some c => .ok { s with builder := s.builder.callUnit c (i.params.map .double ++ qubits) }
    | none => .ok s

/-- Emits the tests of a conditional region: test `k` reads its result and branches to
its target on a match and to the join block otherwise, then continues in the target. -/
def emitTests (region join : Nat) : Builder → Nat → List ((Value × Bool) × Nat) → Builder
  | b, _, [] => b
  | b, k, ((result, expected), target) :: rest =>
    let (b, bit) := b.call Runtime.readResult [result]
      (some ("c" ++ toString region ++ "." ++ toString k))
    let bit := bit.getD (.bool false)
    let b := if expected then b.condBr bit target join else b.condBr bit join target
    emitTests region join (b.positionAtEnd target) (k + 1) rest

/-- Appends blocks with the given labels, returning their references. -/
def appendBlocks : Builder → List String → Builder × List Nat
  | b, [] => (b, [])
  | b, l :: rest =>
    let (b, r) := b.appendBlock l
    let (b, rs) := appendBlocks b rest
    (b, r :: rs)

/-- Lowers a guarded instruction as a chain of tests ending in its body. -/
def emitConditional (s : Lowering) (kind : GateKind) (index : Nat) (i : Instruction)
    (cond : Condition) (qubits : List Value) : Except TranslateError Lowering := do
  let invalid := fun reason => TranslateError.invalidOperands i.name index reason
  if cond.bits.isEmpty then throw (invalid "condition compares no classical bits")
  if !cond.fits then
    throw (invalid ("condition value " ++ toString cond.value ++ " does not fit in " ++
      toString cond.bits.length ++ " bit(s)"))
  let tests ← cond.expectations.mapM fun (bit, expected) =>
    match s.handles.measured bit with
    | some r => .ok (r, expected)
    | none => .error (invalid ("condition bit c" ++ toString bit ++ " was never measured"))
  let r := s.regions
  let labels := (List.range (tests.length - 1)).map fun k =>
    "cond" ++ toString r ++ "." ++ toString (k + 1)
  let (b, tests') := appendBlocks s.builder labels
  let (b, body) := b.appendBlock ("then" ++ toString r)
  let (b, join) := b.appendBlock ("continue" ++ toString r)
  let b := emitTests r join b 0 (tests.zip (tests' ++ [body]))
  let s' ← emit { s with builder := b, regions := r + 1 } kind i qubits
  return { s' with builder := (s'.builder.br join).positionAtEnd join }

/-- Lowers the instruction at position `index`. -/
def lower (s : Lowering) (index : Nat) (i : Instruction) : Except TranslateError Lowering := do
  let some kind := GateKind.ofName? i.name
    | throw (.unsupportedInstruction i.name index)
  if let some reason := checkShape s.profile.capabilities s.handles.declaredResults kind i then
    throw (.invalidOperands i.name index reason)
  if i.condition.isSome then
    if kind = .measure then throw (s.unavailable "conditional measurement")
    if !s.profile.capabilities.branchOnResult then
      throw (s.unavailable "branch on measurement result")
  let (s, qubits) ← s.resolveQubits kind i.qubits
  match i.condition with
  | none => s.emit kind i qubits
  | some c => s.emitConditional kind index i c qubits

/-- Records every declared classical bit, in order, between the array markers; bits
without a result record the zero result, fetched once before the markers. -/
def recordOutputs (s : Lowering) : Except TranslateError Lowering := do
  let bits := List.range s.handles.declaredResults
  let recorded ← bits.mapM s.handles.recorded
  let (b, zero) :=
    if recorded.any Option.isNone then
      s.builder.call Runtime.resultGetZero [] (some "zero")
    else (s.builder, none)
  let b := b.callUnit Runtime.arrayStartRecord []
  let b ← (bits.zip recorded).foldlM (fun b (c, r) =>
    match r.orElse fun _ => zero with
    | some v => .ok (b.callUnit Runtime.resultRecord [v])
    | none => .error (.recordingOmission c)) b
  return { s with builder := b.callUnit Runtime.arrayEndRecord [] }

/-- Releases the qubits, returns, and writes the entry point's attributes and the flags. -/
def finish (s : Lowering) (emitFlags : Bool) : Module :=
  let h := s.handles
  let dynamic := h.mode == .dynamic
  let b := (h.releaseAll s.builder).ret
  let b := b.setAttribute entryPointKey none
  let b := b.setAttribute requiredQubitsKey (some (toString h.requiredQubits))
  let b := b.setAttribute requiredResultsKey (some (toString h.requiredResults))
  let b := b.setAttribute profilesKey (some s.profile.qirName)
  let b := if emitFlags then
      (((b.addFlag ⟨1, "qir_major_version", .int 1⟩).addFlag ⟨7, "qir_minor_version", .int 0⟩).addFlag
        ⟨1, "dynamic_qubit_management", .bool dynamic⟩).addFlag
        ⟨1, "dynamic_result_management", .bool dynamic⟩
    else b
  b.module

end Lowering

/-- The outcome of translating a program: the module, its text, its bitcode, and the profile. -/
structure Generated where
  module : Module
  text : String
  bytes : ByteArray
  profile : Profile
  deriving Inhabited

/-- Renders a module and has LLVM turn its text into bitcode. -/
def Generated.new (llvm : Llvm) (m : Module) (profile : Profile) : Except TranslateError Generated := do
  let text := m.render
  let bytes ← irToBitcode llvm text m.name
  return ⟨m, text, bytes, profile⟩

namespace Generated

/-- An attribute of the entry point read as a number, zero when absent. -/
def entryNat (g : Generated) (key : String) : Nat :=
  ((g.module.entryPoint?).bind (·.natAttribute? key)).getD 0

/-- The number of qubits the entry point declares it needs. -/
def requiredQubits (g : Generated) : Nat := g.entryNat requiredQubitsKey

/-- The number of result slots the entry point declares it needs. -/
def requiredResults (g : Generated) : Nat := g.entryNat requiredResultsKey

/-- The entry point's attributes, sorted by key. -/
def entryAttributes (g : Generated) : List (String × Option String) := g.module.entryAttributes

end Generated

/-- Lowers positions `index` to `index + remaining - 1` of a source. -/
def lowerFrom (src : Source) : Nat → Nat → Lowering → Except TranslateError Lowering
  | _, 0, s => .ok s
  | index, remaining + 1, s =>
    match src.instructionAt? index with
    | none => .error (.program (.instructionOutOfRange index src.count))
    | some i => do lowerFrom src (index + 1) remaining (← s.lower index i)

/-- Lowers a program source into a module with the given options: all that translation does
before LLVM reads the module. -/
def generate (o : Options) (src : Source) : Except TranslateError Module := do
  o.validate
  let name := sanitizeModuleName (o.moduleName.getD src.name)
  let s := Lowering.new o.profile (Builder.new name o.entryPoint) src.qubitCount src.bitCount
  let s ← lowerFrom src 0 src.count s
  let s ← s.recordOutputs
  return s.finish o.emitModuleFlags

/-- Translates a program source with the given options, through LLVM. -/
def translate (llvm : Llvm) (o : Options) (src : Source) : Except TranslateError Generated := do
  Generated.new llvm (← generate o src) o.profile

end QirGen
