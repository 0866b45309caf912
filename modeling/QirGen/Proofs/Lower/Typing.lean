import QirGen.Proofs.Lower.Declarations
import QirGen.Proofs.Lower.Recording
import QirGen.Proofs.Circuit.Checked

/-!
# Emitted calls are well typed

Every call lowering writes is of a runtime function (`Runtime.callees`), with arguments of the
function's parameter types in order, and binds a name exactly when the function returns a
value (`Instr.Typed`); every conditional branch branches on a bit that a read of a result bound
before it (`CondsRead`). Both are read off the instructions each profile writes: the shape check
fixes how many parameters and qubits a gate takes, qubit handles are qubit pointers under either
addressing, and a guard is only lowered when each bit it compares was measured, so each test
reads a result.

With the declarations of `declarations_generate`, the declaration of each called name is the
runtime function itself, so the calls agree with the declarations. Main statement:
`calls_well_typed`.
-/

namespace QirGen

open Ir Circuit Lowering

namespace Ir.Instr

/-- A call is of a runtime function, with arguments of its parameter types in order, and binds a
name exactly when the function returns a value; other instructions are not calls. -/
def Typed (x : Instr) : Prop :=
  ∀ n ret args r, x = .call n ret args r → ∃ c ∈ Runtime.callees, c.name = n ∧ c.ret = ret ∧
    args.map Value.ty = c.params ∧ (r.isSome ↔ ret ≠ .void)

theorem typed_call {c : Callee} (hc : c ∈ Runtime.callees) {args : List Value}
    {r : Option String} (hargs : args.map Value.ty = c.params) (hr : r.isSome ↔ c.ret ≠ .void) :
    (Instr.call c.name c.ret args r).Typed := by
  intro n ret args' r' h
  simp only [Instr.call.injEq] at h
  obtain ⟨rfl, rfl, rfl, rfl⟩ := h
  exact ⟨c, hc, rfl, rfl, hargs, hr⟩

/-- The call a builder writes names a result only when the callee returns one. -/
theorem typed_callInstr {c : Callee} (hc : c ∈ Runtime.callees) {args : List Value}
    {r : Option String} (hargs : args.map Value.ty = c.params) (hr : c.ret ≠ .void → r.isSome) :
    (Builder.callInstr c args r).Typed := by
  refine typed_call hc hargs ?_
  by_cases hv : c.ret = .void <;> simp [hv, hr]

theorem typed_of_callee?_eq_none {x : Instr} (hx : x.callee? = none) : x.Typed := by
  intro n ret args r h
  subst h
  cases hx

end Ir.Instr

/-- Every conditional branch of `is` branches on a bit, bound before it by a read of a
result. -/
def CondsRead (is : List Instr) : Prop :=
  ∀ pre v t e post, is = pre ++ .condBr v t e :: post →
    ∃ n args, v = .named .bool n ∧ .call Runtime.readResult.name .bool args (some n) ∈ pre

namespace CondsRead

theorem of_not_mem {is : List Instr} (h : ∀ v t e, Instr.condBr v t e ∉ is) : CondsRead is := by
  intro pre v t e post heq
  exact absurd (heq ▸ List.mem_append_right pre List.mem_cons_self) (h v t e)

theorem of_isCall {is : List Instr} (h : ∀ x ∈ is, x.isCall = true) : CondsRead is :=
  of_not_mem fun v t e hmem => by simpa [Instr.isCall] using h _ hmem

theorem append {A B : List Instr} (hA : CondsRead A) (hB : CondsRead B) : CondsRead (A ++ B) := by
  intro pre v t e post h
  rcases List.append_eq_append_iff.1 h with ⟨as, rfl, hB'⟩ | ⟨bs, hA', hpost⟩
  · obtain ⟨n, args, hv, hmem⟩ := hB as v t e post hB'
    exact ⟨n, args, hv, List.mem_append_right _ hmem⟩
  · -- the branch stands in `A`, or it starts `B`, which cannot be
    cases bs with
    | nil =>
      obtain ⟨n, args, -, hmem⟩ := hB [] v t e post (by simpa using hpost.symm)
      exact absurd hmem List.not_mem_nil
    | cons y bs =>
      simp only [List.cons_append, List.cons.injEq] at hpost
      obtain ⟨rfl, rfl⟩ := hpost
      exact hA pre v t e bs hA'

/-- A read of a result, then a branch on the bit it binds. -/
theorem read_condBr {rest : List Instr} (h : CondsRead rest) (args : List Value) (n t e : String) :
    CondsRead (.call Runtime.readResult.name .bool args (some n) :: .condBr (.named .bool n) t e ::
      rest) := by
  have hpair : CondsRead [.call Runtime.readResult.name .bool args (some n),
      .condBr (.named .bool n) t e] := by
    intro pre v t' e' post heq
    rcases pre with _ | ⟨p, _ | ⟨q, pre⟩⟩ <;> simp at heq
    obtain ⟨rfl, ⟨rfl, -, -⟩, -⟩ := heq
    exact ⟨n, args, rfl, List.mem_singleton_self _⟩
  exact hpair.append h

end CondsRead

/-! ### Gate calls -/

/-- The instruction-set function of a gate kind returns nothing and takes its parameters as
doubles, then its qubits. -/
theorem GateKind.callee?_signature {kind : GateKind} {c : Callee} (h : kind.callee? = some c) :
    c.ret = .void ∧ kind.paramRange.1 = kind.paramRange.2 ∧ ∃ n, kind.arity = .exact n ∧
      c.params = List.replicate kind.paramRange.1 .double ++ List.replicate n .qubit := by
  cases kind <;> simp only [callee?, Option.some.injEq, reduceCtorEq] at h <;> subst h <;>
    exact ⟨rfl, rfl, _, rfl, rfl⟩

/-- The shape check passing, a kind admits the operands. -/
theorem GateKind.admits_of_checkShape {caps : Capabilities} {R : Nat} {kind : GateKind}
    {i : Instruction} (h : checkShape caps R kind i = none) : kind.Admits i := by
  have hfit := Arity.fits_of_checkShape h
  unfold checkShape at h
  dsimp only at h
  split at h
  · cases h
  split at h
  · cases h
  rename_i hcl
  split at h
  · cases h
  rename_i hparams
  refine ⟨hfit, fun ha => ?_, by omega, by omega⟩
  simpa [ha] using hcl

/-- A gate's call, its parameters as doubles and then its qubits' handles, has the types of
its instruction-set function. -/
theorem GateKind.gateCall_typed {kind : GateKind} {c : Callee} (hc : kind.callee? = some c)
    {i : Instruction} (ha : kind.Admits i) {handle : Nat → Value}
    (hh : ∀ q, (handle q).ty = .qubit) :
    (Instr.call c.name .void (i.params.map .double ++ i.qubits.map handle) none).Typed := by
  obtain ⟨hret, hlohi, n, har, hparams⟩ := callee?_signature hc
  have hp : i.params.length = kind.paramRange.1 := by
    have := ha.params_ge
    have := ha.params_le
    omega
  have hq : i.qubits.length = n := by
    have hfit := ha.fits
    rw [har] at hfit
    exact hfit.1
  have hargs : (i.params.map Value.double ++ i.qubits.map handle).map Value.ty = c.params := by
    rw [hparams, List.map_append, List.map_map, List.map_map]
    congr 1
    · simp [List.eq_replicate_iff, hp, Value.ty]
    · simp [List.eq_replicate_iff, hq, hh]
  have := Instr.typed_call (callee?_mem hc) hargs (r := none) (by simp [hret])
  rwa [hret] at this

theorem barrierCall_typed : (Instr.call Runtime.barrier.name .void [] none).Typed :=
  Instr.typed_call (c := Runtime.barrier) (by simp [Runtime.callees]) rfl
    (by simp [Runtime.barrier, Runtime.ret_gate])

theorem GateKind.baseCalls_typed {kind : GateKind} {i : Instruction} (ha : kind.Admits i) :
    ∀ x ∈ kind.baseCalls i, x.Typed := by
  unfold baseCalls
  split
  · intro x hx
    obtain ⟨p, -, rfl⟩ := List.mem_map.1 hx
    exact Instr.typed_call (c := Runtime.mz) (by simp [Runtime.callees])
      (by simp [Runtime.mz, Runtime.params_gate, Value.staticQubit, Value.staticResult])
      (by simp [Runtime.mz, Runtime.ret_gate])
  · intro x hx
    rw [List.mem_singleton.1 hx]
    exact barrierCall_typed
  · rename_i c _ _ hc
    intro x hx
    rw [List.mem_singleton.1 hx]
    exact gateCall_typed hc ha fun q => by simp [Value.staticQubit]
  · simp

theorem GateKind.adaptiveCalls_typed {kind : GateKind} {i : Instruction} (ha : kind.Admits i)
    (n : Nat) : ∀ x ∈ kind.adaptiveCalls n i, x.Typed := by
  unfold adaptiveCalls
  split
  · intro x hx
    obtain ⟨p, -, rfl⟩ := List.mem_map.1 hx
    exact Instr.typed_call (c := Runtime.m) (by simp [Runtime.callees]) rfl (by simp [Runtime.m])
  · intro x hx
    rw [List.mem_singleton.1 hx]
    exact barrierCall_typed
  · rename_i c _ _ hc
    intro x hx
    rw [List.mem_singleton.1 hx]
    exact gateCall_typed hc ha fun q => rfl
  · simp

/-- An instruction whose name names a kind that admits its operands. -/
def Circuit.Instruction.Admitted (i : Instruction) : Prop :=
  ∃ kind, GateKind.ofName? i.name = some kind ∧ kind.Admits i

theorem Circuit.Instruction.baseCalls_typed {i : Instruction} (h : i.Admitted) :
    ∀ x ∈ i.baseCalls, x.Typed := by
  obtain ⟨kind, hk, ha⟩ := h
  simpa [Instruction.baseCalls, hk] using kind.baseCalls_typed ha

theorem Circuit.Instruction.adaptiveCalls_typed {i : Instruction} (h : i.Admitted) (n : Nat) :
    ∀ x ∈ i.adaptiveCalls n, x.Typed := by
  obtain ⟨kind, hk, ha⟩ := h
  simpa [Instruction.adaptiveCalls, hk] using kind.adaptiveCalls_typed ha n

/-- Every instruction a run lowered names a kind that admits its operands. -/
theorem lowerList_admitted : ∀ {index : Nat} {is : List Instruction} {s s' : Lowering},
    lowerList index is s = .ok s' → ∀ i ∈ is, i.Admitted
  | _, [], _, _, _ => by simp
  | index, i :: is, s, s', h => by
    obtain ⟨s₁, h₁, h⟩ := lowerList_cons_eq_ok h
    obtain ⟨kind, hk, hshape, -⟩ := lower_eq_ok h₁
    intro j hj
    rcases List.mem_cons.1 hj with rfl | hj
    · exact ⟨kind, hk, GateKind.admits_of_checkShape hshape⟩
    · exact lowerList_admitted h j hj

/-! ### Under the base profile -/

theorem baseEpilogue_typed (R : Nat) : ∀ x ∈ baseEpilogue R, x.Typed := by
  intro x hx
  simp only [baseEpilogue, List.mem_cons, List.mem_append, List.mem_map, List.mem_range,
    List.not_mem_nil, or_false] at hx
  rcases hx with (rfl | ⟨c, -, rfl⟩) | rfl | rfl
  · exact Instr.typed_call (c := Runtime.arrayStartRecord) (by simp [Runtime.callees]) rfl
      (by simp [Runtime.arrayStartRecord])
  · exact Instr.typed_call (c := Runtime.resultRecord) (by simp [Runtime.callees])
      (by simp [Runtime.resultRecord, Value.staticResult]) (by simp [Runtime.resultRecord])
  · exact Instr.typed_call (c := Runtime.arrayEndRecord) (by simp [Runtime.callees]) rfl
      (by simp [Runtime.arrayEndRecord])
  · exact Instr.typed_of_callee?_eq_none rfl

/-- The one block the base profile writes: typed calls on constants, and no branch. -/
theorem base_typed {P : List Instruction} (hP : ∀ i ∈ P, i.Admitted) (R : Nat) :
    (∀ x ∈ P.flatMap Instruction.baseCalls ++ baseEpilogue R, x.Typed) ∧
      CondsRead (P.flatMap Instruction.baseCalls ++ baseEpilogue R) := by
  refine ⟨fun x hx => ?_, CondsRead.of_not_mem fun v t e hx => ?_⟩
  · rcases List.mem_append.1 hx with hx | hx
    · obtain ⟨i, hi, hx⟩ := List.mem_flatMap.1 hx
      exact Instruction.baseCalls_typed (hP i hi) x hx
    · exact baseEpilogue_typed R x hx
  · rcases List.mem_append.1 hx with hx | hx
    · obtain ⟨i, -, hx⟩ := List.mem_flatMap.1 hx
      simpa [Instr.isCall] using (i.baseCalls_static _ hx).1
    · simp [baseEpilogue] at hx

/-! ### Under the adaptive profile -/

/-- A test reads the latest result of its bit, which a guard that passed its checks has. -/
theorem latestResult_ty {ms : List Nat} {c : Nat} (h : (lastIndex ms c).isSome) :
    (latestResult ms c).ty = .result := by
  obtain ⟨k, hk⟩ := Option.isSome_iff_exists.1 h
  simp [latestResult, hk, resultHandle, Value.ty]

theorem recordedResult_ty (ms : List Nat) (c : Nat) : (recordedResult ms c).ty = .result := by
  unfold recordedResult
  cases lastIndex ms c <;> rfl

theorem testLines_typed (r : Nat) (join : String) :
    ∀ (k : Nat) (xs : List ((Value × Bool) × String)), (∀ x ∈ xs, x.1.1.ty = .result) →
      (∀ y ∈ (testLines r join k xs).filterMap Line.instr?, y.Typed) ∧
        CondsRead ((testLines r join k xs).filterMap Line.instr?)
  | _, [], _ => ⟨by simp [testLines], CondsRead.of_not_mem (by simp [testLines])⟩
  | k, x :: xs, hx => by
    obtain ⟨ih₁, ih₂⟩ := testLines_typed r join (k + 1) xs fun y hy =>
      hx y (List.mem_cons_of_mem _ hy)
    rw [testLines_cons, List.filterMap_append, filterMap_instr?_map, List.filterMap_cons_none rfl]
    simp only [testInstrs, List.cons_append, List.nil_append]
    refine ⟨fun y hy => ?_, CondsRead.read_condBr ih₂ _ _ _ _⟩
    rcases List.mem_cons.1 hy with rfl | hy
    · exact Instr.typed_call (c := Runtime.readResult) (by simp [Runtime.callees])
        (by simp [Runtime.readResult, hx x List.mem_cons_self]) (by simp [Runtime.readResult])
    rcases List.mem_cons.1 hy with rfl | hy
    · exact Instr.typed_of_callee?_eq_none rfl
    · exact ih₁ y hy

/-- A region: its tests, reading results, then its body of calls and the branch to the join
block. -/
theorem regionLines_typed {r : Nat} {tests : List (Value × Bool)} {body : List Instr}
    (ht : ∀ x ∈ tests, x.1.ty = .result) (hb : ∀ x ∈ body, x.Typed)
    (hcall : ∀ x ∈ body, x.isCall = true) :
    (∀ y ∈ (regionLines r tests body).filterMap Line.instr?, y.Typed) ∧
      CondsRead ((regionLines r tests body).filterMap Line.instr?) := by
  obtain ⟨h₁, h₂⟩ := testLines_typed r (continueLabel r) 0 (tests.zip (testTargets r tests.length))
    fun x hx => ht x.1 (List.of_mem_zip hx).1
  have hend : [Line.instr (.br (continueLabel r)), .label (continueLabel r)].filterMap Line.instr? =
      [.br (continueLabel r)] := rfl
  simp only [regionLines, List.filterMap_append, filterMap_instr?_map, hend, List.append_assoc]
  refine ⟨fun y hy => ?_, h₂.append (CondsRead.of_not_mem fun v t e hm => ?_)⟩
  · rcases List.mem_append.1 hy with hy | hy
    · exact h₁ y hy
    rcases List.mem_append.1 hy with hy | hy
    · exact hb y hy
    · rw [List.mem_singleton.1 hy]
      exact Instr.typed_of_callee?_eq_none rfl
  · rcases List.mem_append.1 hm with hm | hm
    · simpa [Instr.isCall] using hcall _ hm
    · simp at hm

theorem allocCall_typed (q : Nat) : (allocCall q).Typed :=
  Instr.typed_call (c := Runtime.qubitAllocate) (by simp [Runtime.callees]) rfl
    (by simp [Runtime.qubitAllocate])

/-- What lowering one instruction writes under the adaptive profile. -/
theorem adaptiveSegment_typed {P : List Instruction} {i : Instruction} (hg : GuardChecked P i)
    (ha : i.Admitted) :
    (∀ y ∈ (adaptiveSegment P i).filterMap Line.instr?, y.Typed) ∧
      CondsRead ((adaptiveSegment P i).filterMap Line.instr?) := by
  have hmap : ((newQubits (firstUses P) i.qubits).map fun q => Line.instr (allocCall q)) =
      ((newQubits (firstUses P) i.qubits).map allocCall).map Line.instr := by
    simp [Function.comp_def]
  have hallocs : ∀ y ∈ (newQubits (firstUses P) i.qubits).map allocCall, y.Typed := by
    rintro y hy
    obtain ⟨q, -, rfl⟩ := List.mem_map.1 hy
    exact allocCall_typed q
  have hallocs' := CondsRead.of_isCall (allocCalls_isCall (newQubits (firstUses P) i.qubits))
  cases hc : i.condition with
  | none =>
    simp only [adaptiveSegment, hc, List.filterMap_append]
    rw [hmap, filterMap_instr?_map, filterMap_instr?_map]
    refine ⟨fun y hy => ?_, hallocs'.append (CondsRead.of_isCall (i.adaptiveCalls_isCall _))⟩
    rcases List.mem_append.1 hy with hy | hy
    · exact hallocs y hy
    · exact i.adaptiveCalls_typed ha _ y hy
  | some c =>
    obtain ⟨-, -, hmeasured⟩ := hg c hc
    -- each test reads the latest result of a compared bit, which was measured
    have htests : ∀ x ∈ guardTests (measuredBits P) c, x.1.ty = .result := by
      intro x hx
      obtain ⟨p, hp, rfl⟩ := List.mem_map.1 hx
      have hbit : p.1 ∈ c.bits := by
        rw [← Condition.expectations_map_fst]
        exact List.mem_map_of_mem hp
      exact latestResult_ty (hmeasured p.1 hbit)
    obtain ⟨h₁, h₂⟩ := regionLines_typed (r := guardedCount P) htests
      (i.adaptiveCalls_typed ha (measuredBits P).length) (i.adaptiveCalls_isCall _)
    rw [adaptiveSegment_guarded hc, List.filterMap_append, hmap, filterMap_instr?_map]
    exact ⟨fun y hy => (List.mem_append.1 hy).elim (hallocs y) (h₁ y), hallocs'.append h₂⟩

theorem adaptiveLines_typed : ∀ (P is : List Instruction), GuardsChecked P is →
    (∀ i ∈ is, i.Admitted) →
      (∀ y ∈ (adaptiveLines P is).filterMap Line.instr?, y.Typed) ∧
        CondsRead ((adaptiveLines P is).filterMap Line.instr?)
  | _, [], _, _ => ⟨by simp [adaptiveLines], CondsRead.of_not_mem (by simp [adaptiveLines])⟩
  | P, i :: is, hg, ha => by
    obtain ⟨h₁, h₂⟩ := adaptiveSegment_typed hg.1 (ha i List.mem_cons_self)
    obtain ⟨h₃, h₄⟩ := adaptiveLines_typed (P ++ [i]) is hg.2 fun j hj =>
      ha j (List.mem_cons_of_mem _ hj)
    rw [adaptiveLines_cons, List.filterMap_append]
    exact ⟨fun y hy => (List.mem_append.1 hy).elim (h₁ y) (h₃ y), h₂.append h₄⟩

theorem adaptiveEpilogue_typed (R : Nat) (P : List Instruction) :
    (∀ x ∈ adaptiveEpilogue R P, x.Typed) ∧ CondsRead (adaptiveEpilogue R P) := by
  refine ⟨fun x hx => ?_, ?_⟩
  · simp only [adaptiveEpilogue, zeroCalls, recordingCalls, releaseCalls, List.mem_append,
      List.mem_cons, List.mem_map, List.not_mem_nil, or_false] at hx
    rcases hx with ((hz | ((rfl | ⟨v, ⟨c, -, rfl⟩, rfl⟩) | rfl)) | hrel) | rfl
    · split at hz
      · rw [List.mem_singleton.1 hz]
        exact Instr.typed_call (c := Runtime.resultGetZero) (by simp [Runtime.callees]) rfl
          (by simp [Runtime.resultGetZero])
      · simp at hz
    · exact Instr.typed_callInstr (by simp [Runtime.callees]) rfl (by simp [Runtime.arrayStartRecord])
    · exact Instr.typed_callInstr (by simp [Runtime.callees])
        (by simp [Runtime.resultRecord, recordedResult_ty]) (by simp [Runtime.resultRecord])
    · exact Instr.typed_callInstr (by simp [Runtime.callees]) rfl (by simp [Runtime.arrayEndRecord])
    · obtain ⟨p, ⟨q, -, rfl⟩, rfl⟩ := hrel
      exact Instr.typed_callInstr (by simp [Runtime.callees]) rfl (by simp [Runtime.qubitRelease])
    · exact Instr.typed_of_callee?_eq_none rfl
  · obtain ⟨calls, hcalls, heq⟩ := adaptiveEpilogue_calls R P
    rw [heq]
    exact (CondsRead.of_isCall hcalls).append (CondsRead.of_not_mem (by simp))

/-- The entry function of a generated module holds typed calls, and each of its conditional
branches branches on a bit read from a result before it. -/
theorem entry_typed {o : Options} {src : Source} {m : Module} (h : generate o src = .ok m) :
    ∃ f, m.entryPoint? = some f ∧ (∀ x ∈ f.instrs, x.Typed) ∧ CondsRead f.instrs := by
  obtain ⟨s₁, -, h₁, -⟩ := generate_eq_ok h
  have hadmitted := lowerList_admitted h₁
  cases hp : o.profile with
  | base =>
    refine ⟨_, entryPoint?_base hp h, ?_⟩
    simpa [Function.instrs] using base_typed hadmitted src.bitCount
  | adaptive =>
    obtain ⟨f, hf, -, -, hlines, hguards⟩ := entryPoint?_generate_adaptive hp h
    refine ⟨f, hf, ?_⟩
    rw [Function.instrs_eq_of_lines hlines]
    obtain ⟨h₁, h₂⟩ := adaptiveLines_typed [] src.instructions hguards hadmitted
    obtain ⟨h₃, h₄⟩ := adaptiveEpilogue_typed src.bitCount src.instructions
    exact ⟨fun x hx => (List.mem_append.1 hx).elim (h₁ x) (h₃ x), h₂.append h₄⟩

/-- In a generated module the declarations are the functions the entry function calls, one per
name, and every call agrees with the declaration of its name. -/
theorem calls_typed_generate {o : Options} {src : Source} {m : Module} (h : generate o src = .ok m) :
    ∃ f, m.entryPoint? = some f ∧
      m.declarations.map (·.name) = (f.instrs.filterMap Instr.callee?).eraseDups ∧
      (∀ n ret args r, Instr.call n ret args r ∈ f.instrs →
        ∃ c ∈ m.declarations, c.name = n ∧ c.ret = ret ∧ args.map Value.ty = c.params ∧
          (r.isSome ↔ ret ≠ .void)) ∧
      CondsRead f.instrs := by
  obtain ⟨f, hf, htyped, hconds⟩ := entry_typed h
  obtain ⟨hnames, hruntime⟩ := declarations_generate h hf
  refine ⟨f, hf, hnames, fun n ret args r hx => ?_, hconds⟩
  obtain ⟨c, hc, rfl, rfl, hargs, hr⟩ := htyped _ hx n ret args r rfl
  -- the name is declared by a runtime function, which can only be the callee itself
  obtain ⟨d, hd, hdn⟩ : ∃ d ∈ m.declarations, d.name = c.name := by
    have hmem : c.name ∈ m.declarations.map (·.name) := by
      rw [hnames, List.mem_eraseDups]
      exact List.mem_filterMap.2 ⟨_, hx, rfl⟩
    simpa using hmem
  obtain rfl := Runtime.eq_of_name_eq (hruntime d hd) hc hdn
  exact ⟨d, hd, rfl, rfl, hargs, hr⟩

/-- **Typed calls.** In a translated module, under either profile, the declarations are the
functions the entry function calls, one per name, in order of first call read block after
block; every call agrees with the declaration of its name: arguments of the parameter types in
order, the same return type, and a bound name exactly when that type is not void; and every
conditional branch branches on a bit that a read of a result bound before it. -/
theorem calls_well_typed {llvm : Llvm} {o : Options} {src : Source} {g : Generated}
    (h : translate llvm o src = .ok g) :
    ∃ f, g.module.entryPoint? = some f ∧
      g.module.declarations.map (·.name) = (f.instrs.filterMap Instr.callee?).eraseDups ∧
      (∀ n ret args r, Instr.call n ret args r ∈ f.instrs →
        ∃ c ∈ g.module.declarations, c.name = n ∧ c.ret = ret ∧ args.map Value.ty = c.params ∧
          (r.isSome ↔ ret ≠ .void)) ∧
      CondsRead f.instrs :=
  calls_typed_generate (translate_eq_ok h).1

theorem calls_well_typed_feedForward :
    ∃ g, translate Llvm.acceptingAll (Options.ofProfile .adaptive) (Program.feedForward).toSource =
        .ok g ∧
      ∃ f, g.module.entryPoint? = some f ∧
        g.module.declarations.map (·.name) = (f.instrs.filterMap Instr.callee?).eraseDups ∧
        (∀ n ret args r, Instr.call n ret args r ∈ f.instrs →
          ∃ c ∈ g.module.declarations, c.name = n ∧ c.ret = ret ∧ args.map Value.ty = c.params ∧
            (r.isSome ↔ ret ≠ .void)) ∧
        CondsRead f.instrs :=
  ⟨_, rfl, @calls_well_typed Llvm.acceptingAll (Options.ofProfile .adaptive)
    (Program.feedForward).toSource _ rfl⟩

end QirGen
