import QirGen.Proofs.Lower.Emission
import QirGen.Circuit.Build

/-!
# Lowering under the base profile

Under the base profile every handle is a constant (`null` for index zero, `inttoptr`
otherwise), nothing is allocated and nothing branches. A program that lowers therefore
gives an entry function of one block: each instruction, in program order, becomes its calls
(`Instruction.baseCalls`), then every declared bit is recorded in ascending order between
the array markers, and the function returns. Its attributes are the entry marker, the
declared counts and the profile name.

The proof is a run invariant: `BaseState` says what a lowering under the base profile has
written so far, `BaseState.lower` is the step, and `BaseState.lowerList` the run.
Main statement: `entryPoint?_translate_base`.
-/

namespace QirGen

open Ir Circuit Lowering

namespace GateKind

/-- What a kind of instruction becomes under the base profile: one `mz` per measured pair,
one argument-less barrier call, and for a gate or reset one call of its instruction-set
function with the parameters as doubles followed by the qubits' constant handles. Identities
and delays become nothing. -/
def baseCalls (kind : GateKind) (i : Instruction) : List Instr :=
  match kind, kind.callee? with
  | .measure, _ => (i.qubits.zip i.clbits).map fun p =>
      .call Runtime.mz.name .void [.staticQubit p.1, .staticResult p.2] none
  | .barrier, _ => [.call Runtime.barrier.name .void [] none]
  | _, some c => [.call c.name .void (i.params.map .double ++ i.qubits.map .staticQubit) none]
  | _, none => []

end GateKind

/-- What an instruction becomes under the base profile. -/
def Circuit.Instruction.baseCalls (i : Instruction) : List Instr :=
  ((GateKind.ofName? i.name).map (·.baseCalls i)).getD []

/-- The end of the base entry block: every declared slot recorded in ascending order between
the array markers, then the return. -/
def baseEpilogue (R : Nat) : List Instr :=
  .call Runtime.arrayStartRecord.name .void [] none ::
    (List.range R).map (fun c => .call Runtime.resultRecord.name .void [.staticResult c] none) ++
    [.call Runtime.arrayEndRecord.name .void [] none, .ret]

/-- The entry attributes under the base profile: the entry marker, the declared counts and
the profile name. -/
def baseAttributes (Q R : Nat) : List Attribute :=
  [⟨entryPointKey, none⟩, ⟨requiredQubitsKey, some (toString Q)⟩,
    ⟨requiredResultsKey, some (toString R)⟩, ⟨profilesKey, some "base_profile"⟩]

/-- A lowering under the base profile, with handles for `Q` qubits and `R` results, whose one
function `name` holds the entry block with the instructions `acc`. -/
structure BaseState (s : Lowering) (name : String) (Q R : Nat) (acc : List Instr) : Prop where
  profile_eq : s.profile = .base
  handles : StaticHandles s.handles Q R
  at_entry : s.builder.At name [] { label := "entry", instrs := acc } []

variable {s s' : Lowering} {name : String} {Q R : Nat} {acc : List Instr}

theorem baseState_new (moduleName : String) :
    BaseState (Lowering.new .base (Builder.new moduleName name) Q R) name Q R [] :=
  ⟨rfl, staticHandles_new Q R, Builder.at_new moduleName name⟩

/-- Emitting an instruction whose qubits resolved to their constant handles writes its base
calls. -/
theorem BaseState.emit (hs : BaseState s name Q R acc) {kind : GateKind} {i : Instruction}
    (h : s.emit kind i (i.qubits.map Value.staticQubit) = .ok s') :
    BaseState s' name Q R (acc ++ kind.baseCalls i) := by
  have hb := hs.at_entry
  cases kind
  case measure =>
    obtain ⟨hh, hp, hb'⟩ := measurePairs_static _ hs.handles hb h
    refine ⟨hp.trans hs.profile_eq, hh, ?_⟩
    simpa [Block.pushAll, zip_map_self_zip, GateKind.baseCalls, Builder.callInstr, Runtime.mz,
      Runtime.ret_gate, Function.comp_def] using hb'
  case barrier =>
    simp only [Lowering.emit, Except.ok.injEq] at h
    subst h
    refine ⟨hs.profile_eq, hs.handles, ?_⟩
    simpa [Block.push, GateKind.baseCalls, Builder.callInstr, Runtime.barrier, Runtime.ret_gate] using
      hb.callUnit Runtime.barrier []
  case id | delay =>
    simp only [Lowering.emit, Except.ok.injEq] at h
    subst h
    simpa [GateKind.baseCalls, GateKind.callee?] using hs
  all_goals
    simp only [Lowering.emit, GateKind.callee?, Except.ok.injEq] at h
    subst h
    refine ⟨hs.profile_eq, hs.handles, ?_⟩
    simpa [Block.push, GateKind.baseCalls, GateKind.callee?, Builder.callInstr, Runtime.ret_gate,
      Runtime.h, Runtime.x, Runtime.y, Runtime.z, Runtime.s, Runtime.sAdj, Runtime.t, Runtime.tAdj,
      Runtime.rx, Runtime.ry, Runtime.rz, Runtime.cnot, Runtime.cz, Runtime.swap, Runtime.ccx,
      Runtime.reset] using hb.callUnit (Runtime.gate _ _) _

/-- One lowering step under the base profile writes the instruction's base calls. -/
theorem BaseState.lower (hs : BaseState s name Q R acc) {index : Nat} {i : Instruction}
    (h : s.lower index i = .ok s') :
    BaseState s' name Q R (acc ++ i.baseCalls) := by
  obtain ⟨kind, hk, -, hcond, r, qs, hres, hemit⟩ := lower_eq_ok h
  obtain ⟨rfl, rfl⟩ := resolveQubits_static hs.handles hres
  cases hc : i.condition with
  | some c =>
    -- the base profile cannot branch on results, so no guarded instruction lowers
    have := (hcond (by simp [hc])).2
    simp [hs.profile_eq, Profile.capabilities] at this
  | none =>
    rw [hc] at hemit
    simpa [Instruction.baseCalls, hk] using hs.emit hemit

/-- A run under the base profile writes the base calls of every instruction, in order. -/
theorem BaseState.lowerList :
    ∀ {is : List Instruction} {index : Nat} {s s' : Lowering} {acc : List Instr},
      BaseState s name Q R acc → Lowering.lowerList index is s = .ok s' →
      BaseState s' name Q R (acc ++ is.flatMap Instruction.baseCalls)
  | [], _, _, _, _, hs, h => by
    simp only [Lowering.lowerList, Except.ok.injEq] at h
    subst h
    simpa using hs
  | i :: is, index, s, s', acc, hs, h => by
    obtain ⟨s₁, h₁, h⟩ := lowerList_cons_eq_ok h
    simpa using BaseState.lowerList (hs.lower h₁) h

/-- A program that lowers under the base profile gives an entry function of one block named
`entry`, holding the base calls of its instructions in program order, then the recording of
every declared slot and the return; its attributes are the entry marker, the declared counts
and `base_profile`. -/
theorem entryPoint?_base {o : Options} {src : Source} {m : Module}
    (hbase : o.profile = .base) (h : generate o src = .ok m) :
    m.entryPoint? = some
      { name := o.entryPoint,
        attributes := baseAttributes src.qubitCount src.bitCount,
        blocks := [{ label := "entry",
                     instrs := src.instructions.flatMap Instruction.baseCalls ++
                       baseEpilogue src.bitCount }] } := by
  obtain ⟨s₁, s₂, h₁, h₂, hg⟩ := generate_eq_ok h
  rw [hbase] at h₁
  have hs₁ := (baseState_new _).lowerList h₁
  obtain ⟨s₂', hrec, hh, hp, hb⟩ := recordOutputs_static hs₁.handles hs₁.at_entry
  obtain rfl : s₂ = s₂' := by rw [hrec] at h₂; exact (Except.ok.inj h₂).symm
  have hstatic : StaticHandles s₂.handles src.qubitCount src.bitCount := hh ▸ hs₁.handles
  have hentry := entryPoint?_finish hb o.emitModuleFlags
  have hattr : s₂.entryAttributes = baseAttributes src.qubitCount src.bitCount := by
    simp [entryAttributes, baseAttributes, hstatic.requiredQubits_eq, hstatic.requiredResults_eq,
      hp, hs₁.profile_eq, Profile.qirName]
  rw [← hg, hattr] at hentry
  rw [hentry]
  simp [hstatic.allocated_eq, releaseCalls, recordingCalls, baseEpilogue, Builder.callInstr,
    Runtime.arrayStartRecord, Runtime.resultRecord, Runtime.arrayEndRecord, Block.pushAll,
    Function.comp_def]

/-- **Base lowering.** A program that lowers under the base profile gives an entry function
of one block named `entry`, holding the base calls of its instructions in program order, then
the recording of every declared slot and the return; its attributes are the entry marker, the
declared counts and `base_profile`, and the counts read back as declared. -/
theorem entryPoint?_translate_base {llvm : Llvm} {o : Options} {src : Source} {g : Generated}
    (hbase : o.profile = .base) (h : translate llvm o src = .ok g) :
    g.module.entryPoint? = some
      { name := o.entryPoint,
        attributes := baseAttributes src.qubitCount src.bitCount,
        blocks := [{ label := "entry",
                     instrs := src.instructions.flatMap Instruction.baseCalls ++
                       baseEpilogue src.bitCount }] } ∧
      (src.qubitCount < Word.size → g.requiredQubits = src.qubitCount) ∧
      (src.bitCount < Word.size → g.requiredResults = src.bitCount) := by
  have hentry := entryPoint?_base hbase (translate_eq_ok h).1
  exact ⟨hentry, required_eq hentry rfl⟩

/-- The Bell pair lowers under the base profile to its one-block entry function. -/
theorem entryPoint?_translate_base_bell : (Options.ofProfile .base).profile = .base ∧
    ∃ g, translate Llvm.acceptingAll (Options.ofProfile .base) (Program.bell).toSource = .ok g ∧
      g.module.entryPoint? = some
        { name := (Options.ofProfile .base).entryPoint,
          attributes := baseAttributes (Program.bell).toSource.qubitCount (Program.bell).toSource.bitCount,
          blocks := [{ label := "entry",
                       instrs := (Program.bell).toSource.instructions.flatMap Instruction.baseCalls ++
                         baseEpilogue (Program.bell).toSource.bitCount }] } ∧
        ((Program.bell).toSource.qubitCount < Word.size →
          g.requiredQubits = (Program.bell).toSource.qubitCount) ∧
        ((Program.bell).toSource.bitCount < Word.size →
          g.requiredResults = (Program.bell).toSource.bitCount) :=
  ⟨rfl, _, rfl, @entryPoint?_translate_base Llvm.acceptingAll _ _ _ rfl rfl⟩

end QirGen
