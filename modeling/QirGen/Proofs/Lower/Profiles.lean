import QirGen.Proofs.Lower.Built
import QirGen.Proofs.Lower.Typing
import QirGen.Proofs.Lower.Causality
import QirGen.Proofs.Lower.Stable

/-!
# The base and the adaptive lowering agree

Both profiles lower a program in one pass with the same checks, save three: the base profile
bounds qubits and bits by the declared counts when it resolves them, refuses a measured qubit
as an operand and refuses every guard; the adaptive profile bounds only the bits, in the shape
check. A program that lowers under the base profile is therefore unguarded, its bits are
declared, and it lowers under the adaptive profile too (`generate_adaptive_ok_of_base`).

The two entry functions then make the same calls in the same order, once the adaptive one's
bookkeeping is set aside (qubit allocation and release, the zero result) and the recording is
cut off (`Function.programCalls`): a gate, reset or barrier is called with the same doubles and
with the allocated handle `%q<i>` in place of the constant handle of qubit `i`, and the `k`-th
measurement `mz(q, c)` becomes `%r<k> = m(%q<q>)` (`CallsCorrespond`). The correspondence is
proved per instruction (`Instruction.calls_correspond`) and carried along the program by
induction (`adaptiveLines_correspond`).

LLVM may still refuse the adaptive module where it took the base one: the adaptive module
declares runtime functions the base one does not call, and an entry point named like one of them
is then both defined and declared (`translate_adaptive_refused`).

Main statement: `translate_adaptive_of_base`.
-/

namespace QirGen

open Ir Circuit Lowering

/-! ### The calls a program makes -/

/-- The runtime functions that manage resources rather than act on qubits: qubit allocation and
release, and the zero result. -/
def Runtime.bookkeeping : List String :=
  [Runtime.qubitAllocate.name, Runtime.qubitRelease.name, Runtime.resultGetZero.name]

/-- Whether an instruction calls a bookkeeping function. -/
def Ir.Instr.isBookkeeping (x : Instr) : Bool := x.callee?.any (· ∈ Runtime.bookkeeping)

/-- The calls of a function that act on the program: its instructions without the bookkeeping
calls, up to the start of the output recording. -/
def Ir.Function.programCalls (f : Function) : List Instr :=
  (f.instrs.filter fun x => !x.isBookkeeping).takeWhile
    fun x => x.callee? != some Runtime.arrayStartRecord.name

/-- The name of a function that a gate, a reset or a barrier calls. -/
def Runtime.IsGateName (c : String) : Prop :=
  c = Runtime.barrier.name ∨ ∃ (kind : GateKind) (callee : Callee), kind.callee? = some callee ∧ callee.name = c

/-- An argument of a base call against one of an adaptive call: the same double, or the constant
handle of qubit `q` against the handle its allocation binds. -/
inductive ArgCorresponds : Value → Value → Prop
  | double (x : Binary64) : ArgCorresponds (.double x) (.double x)
  | qubit (q : Nat) : ArgCorresponds (.staticQubit q) (qubitHandle q)

/-- Base calls against adaptive calls, position by position, after `k` measurements: a call of a
gate, reset or barrier against a call of the same function with corresponding arguments, and a
measurement of qubit `q` into slot `c` against the `k`-th measurement, of `q`'s allocated
handle into `%r<k>`. -/
inductive CallsCorrespond : Nat → List Instr → List Instr → Prop
  | nil (k : Nat) : CallsCorrespond k [] []
  | gate {k : Nat} {c : String} {args args' : List Value} {rest rest' : List Instr} :
      Runtime.IsGateName c → List.Forall₂ ArgCorresponds args args' → CallsCorrespond k rest rest' →
      CallsCorrespond k (.call c .void args none :: rest) (.call c .void args' none :: rest')
  | measure {k q c : Nat} {rest rest' : List Instr} : CallsCorrespond (k + 1) rest rest' →
      CallsCorrespond k (.call Runtime.mz.name .void [.staticQubit q, .staticResult c] none :: rest)
        (.call Runtime.m.name .result [qubitHandle q] (some ("r" ++ toString k)) :: rest')

/-! ### One instruction -/

/-- The measured pairs, from the `k`-th measurement on, correspond. -/
theorem CallsCorrespond.measures : ∀ (ps : List (Nat × Nat)) (k : Nat) {rest rest' : List Instr},
    CallsCorrespond (k + ps.length) rest rest' →
      CallsCorrespond k
        (ps.map (fun p => .call Runtime.mz.name .void [.staticQubit p.1, .staticResult p.2] none) ++ rest)
        ((ps.zipIdx k).map (fun pk => .call Runtime.m.name .result [qubitHandle pk.1.1]
          (some ("r" ++ toString pk.2))) ++ rest')
  | [], k, _, _, h => by simpa using h
  | p :: ps, k, _, _, h => by
    refine .measure (CallsCorrespond.measures ps (k + 1) ?_)
    simpa [Nat.add_assoc, Nat.add_comm 1] using h

/-- A gate's arguments: its parameters, then its qubits' handles. -/
theorem forall₂_gateArgs (i : Instruction) :
    List.Forall₂ ArgCorresponds (i.params.map .double ++ i.qubits.map .staticQubit)
      (i.params.map .double ++ i.qubits.map qubitHandle) := by
  refine List.rel_append ?_ ?_
  · rw [List.forall₂_map_left_iff, List.forall₂_map_right_iff]
    exact List.forall₂_same.2 fun x _ => .double x
  · rw [List.forall₂_map_left_iff, List.forall₂_map_right_iff]
    exact List.forall₂_same.2 fun q _ => .qubit q

/-- What a kind of instruction becomes under the two profiles corresponds, after any earlier
measurements. -/
theorem GateKind.calls_correspond (kind : GateKind) (i : Instruction) (k : Nat)
    {rest rest' : List Instr} (h : CallsCorrespond (k + (kind.measuredBits i).length) rest rest') :
    CallsCorrespond k (kind.baseCalls i ++ rest) (kind.adaptiveCalls k i ++ rest') := by
  by_cases hm : kind = .measure
  · subst hm
    simp only [GateKind.measuredBits, if_pos, List.length_map] at h
    exact CallsCorrespond.measures _ k h
  simp only [GateKind.measuredBits, hm, if_false, List.length_nil, Nat.add_zero] at h
  by_cases hb : kind = .barrier
  · subst hb
    exact .gate (.inl rfl) .nil h
  -- otherwise a kind calls its own function, or nothing
  cases hc : kind.callee? with
  | none =>
    have hbase : kind.baseCalls i = [] := by unfold GateKind.baseCalls; split <;> simp_all
    have hadaptive : kind.adaptiveCalls k i = [] := by unfold GateKind.adaptiveCalls; split <;> simp_all
    simpa [hbase, hadaptive] using h
  | some c =>
    have hbase : kind.baseCalls i =
        [.call c.name .void (i.params.map .double ++ i.qubits.map .staticQubit) none] := by
      unfold GateKind.baseCalls; split <;> simp_all
    have hadaptive : kind.adaptiveCalls k i =
        [.call c.name .void (i.params.map .double ++ i.qubits.map qubitHandle) none] := by
      unfold GateKind.adaptiveCalls; split <;> simp_all
    rw [hbase, hadaptive]
    exact .gate (.inr ⟨kind, c, hc, rfl⟩) (forall₂_gateArgs i) h

/-- What an instruction becomes under the two profiles corresponds. -/
theorem Circuit.Instruction.calls_correspond (i : Instruction) (k : Nat) {rest rest' : List Instr}
    (h : CallsCorrespond (k + (measuredBits [i]).length) rest rest') :
    CallsCorrespond k (i.baseCalls ++ rest) (i.adaptiveCalls k ++ rest') := by
  cases hk : GateKind.ofName? i.name with
  | none =>
    -- an unknown name is never a measurement and becomes nothing under either profile
    have hm : i.isMeasure = false := isMeasure_of_ofName?_none hk
    simpa [Instruction.baseCalls, Instruction.adaptiveCalls, hk, measuredBits, hm] using h
  | some kind =>
    have hmb := GateKind.measuredBits_of_ofName? hk
    simp only [Instruction.baseCalls, Instruction.adaptiveCalls, hk, Option.map_some, Option.getD_some]
    refine kind.calls_correspond i k ?_
    simpa [hmb, measuredBits] using h

/-! ### A run of unguarded instructions -/

theorem GateKind.callee?_not_bookkeeping {kind : GateKind} {c : Callee} (h : kind.callee? = some c) :
    c.name ∉ Runtime.bookkeeping := by
  cases kind <;> simp only [callee?, reduceCtorEq, Option.some.injEq] at h <;> subst h <;> decide

/-- An instruction's adaptive calls keep no books. -/
theorem Circuit.Instruction.adaptiveCalls_not_bookkeeping (i : Instruction) (n : Nat) :
    ∀ x ∈ i.adaptiveCalls n, x.isBookkeeping = false := by
  intro x hx
  rcases Instruction.callee?_adaptiveCalls hx with ⟨-, h⟩ | h | ⟨kind, c, hc, h⟩ <;>
    simp only [Instr.isBookkeeping, h, Option.any_some, decide_eq_false_iff_not]
  · decide
  · decide
  · exact GateKind.callee?_not_bookkeeping hc

/-- An instruction's base calls keep no books. -/
theorem Circuit.Instruction.baseCalls_not_bookkeeping (i : Instruction) :
    ∀ x ∈ i.baseCalls, x.isBookkeeping = false := by
  intro x hx
  cases hk : GateKind.ofName? i.name with
  | none => simp [Instruction.baseCalls, hk] at hx
  | some kind =>
    simp only [Instruction.baseCalls, hk, Option.map_some, Option.getD_some] at hx
    rcases GateKind.mem_baseCalls hx with ⟨-, p, -, rfl⟩ | rfl | ⟨c, hc, rfl⟩ <;>
      simp only [Instr.isBookkeeping, Instr.callee?, Option.any_some, decide_eq_false_iff_not]
    · decide
    · decide
    · exact GateKind.callee?_not_bookkeeping hc

/-- The adaptive lines of unguarded instructions, bookkeeping aside, correspond to their base
calls. Induction on the instructions, the measurements of the earlier ones carried in `P`. -/
theorem adaptiveLines_correspond :
    ∀ (P is : List Instruction), (∀ i ∈ is, i.condition = none) →
      CallsCorrespond (measuredBits P).length (is.flatMap Instruction.baseCalls)
        (((adaptiveLines P is).filterMap Line.instr?).filter fun x => !x.isBookkeeping)
  | _, [], _ => .nil _
  | P, i :: is, hg => by
    have hc := hg i List.mem_cons_self
    have ih := adaptiveLines_correspond (P ++ [i]) is fun j hj => hg j (List.mem_cons_of_mem i hj)
    -- the segment is the allocations, which keep books, then the instruction's calls
    have hseg : ((adaptiveSegment P i).filterMap Line.instr?).filter (fun x => !x.isBookkeeping) =
        i.adaptiveCalls (measuredBits P).length := by
      simp only [adaptiveSegment, hc, List.filterMap_append, filterMap_instr?_map]
      rw [List.filter_append, List.filter_eq_nil_iff.2, List.filter_eq_self.2, List.nil_append]
      · simpa using i.adaptiveCalls_not_bookkeeping _
      · simp [Line.instr?, Instr.isBookkeeping, allocCall, Instr.callee?, Runtime.bookkeeping]
    rw [adaptiveLines_cons, List.filterMap_append, List.filter_append, hseg, List.flatMap_cons]
    refine i.calls_correspond _ ?_
    simpa [measuredBits_append_singleton, measuredBits] using ih

/-- The program's calls of instructions that start the recording after a core that never does:
the core, bookkeeping aside. -/
theorem Ir.Function.programCalls_eq {f : Function} {core rest tail : List Instr}
    (hf : f.instrs = core ++ rest) (hcore : callsTo Runtime.arrayStartRecord.name core = [])
    (hrest : rest.filter (fun x => !x.isBookkeeping) =
      Builder.callInstr Runtime.arrayStartRecord [] none :: tail) :
    f.programCalls = core.filter fun x => !x.isBookkeeping := by
  have hnot : ∀ x ∈ core.filter (fun x => !x.isBookkeeping),
      (x.callee? != some Runtime.arrayStartRecord.name) = true := by
    intro x hx
    have := List.filter_eq_nil_iff.1 hcore x (List.mem_of_mem_filter hx)
    simpa using this
  rw [programCalls, hf, List.filter_append, hrest, List.takeWhile_append_of_pos hnot,
    List.takeWhile_cons_of_neg (by simp [Builder.callInstr, Instr.callee?]), List.append_nil]

/-! ### What the base profile lets through -/

/-- A run under a profile that cannot branch on results lowers unguarded instructions only. -/
theorem lowerList_unguarded : ∀ {index : Nat} {is : List Instruction} {s s' : Lowering},
    lowerList index is s = .ok s' → s.profile.capabilities.branchOnResult = false →
      ∀ i ∈ is, i.condition = none
  | _, [], _, _, _, _ => by simp
  | index, i :: is, s, s', h, hb => by
    obtain ⟨s₁, h₁, h⟩ := lowerList_cons_eq_ok h
    obtain ⟨kind, -, -, hcond, -⟩ := lower_eq_ok h₁
    have hi : i.condition = none := by
      cases hc : i.condition with
      | none => rfl
      | some c => simp [hb] at hcond; simp [hc] at hcond
    have hb₁ : s₁.profile.capabilities.branchOnResult = false := by
      rw [(lower_frame h₁).1.profile_eq]; exact hb
    intro j hj
    rcases List.mem_cons.1 hj with rfl | hj
    · exact hi
    · exact lowerList_unguarded h hb₁ j hj

/-- A measurement that succeeds was accepted by the table. -/
theorem Handles.accepts_of_measure {h h' : Handles} {b b' : Builder} {v : Value} {c : Nat}
    (hm : h.measure b v c = .ok (h', b')) : h.Accepts .result c := by
  intro hs hb
  rcases Handles.measure_eq_ok hm with ⟨-, -, ⟨-, hc, -⟩ | ⟨hb', -⟩⟩ | ⟨hd, -⟩
  · exact hc
  · simp [hb] at hb'
  · simp [hs] at hd

/-- Measured pairs that succeed were each accepted by the table. -/
theorem measurePairs_accepts : ∀ {s r : Lowering} {ps : List ((Nat × Value) × Nat)},
    s.measurePairs ps = .ok r → ∀ p ∈ ps, s.handles.Accepts .result p.2
  | _, _, [], _ => by simp
  | s, r, ((q, v), c) :: ps, h => by
    unfold measurePairs at h
    obtain ⟨⟨h₁, b₁⟩, hm, h⟩ := bind_eq_ok.1 h
    intro p hp
    rcases List.mem_cons.1 hp with rfl | hp
    · exact Handles.accepts_of_measure hm
    · exact (Handles.keeps_measure hm).accepts_iff.2 (measurePairs_accepts h p hp)

/-- Under the base profile the bits an instruction measures into are declared. -/
theorem BaseState.clbits_lt {s s' : Lowering} {name : String} {Q R : Nat} {acc : List Instr}
    (hs : BaseState s name Q R acc) {index : Nat} {i : Instruction} (h : s.lower index i = .ok s') :
    ∀ c ∈ i.clbits, c < R := by
  obtain ⟨kind, hk, hshape, -, r, qs, hres, hemit⟩ := lower_eq_ok h
  obtain ⟨rfl, rfl⟩ := resolveQubits_static hs.handles hres
  have hadm := GateKind.admits_of_checkShape hshape
  have hfit := hadm.fits
  by_cases hm : kind = .measure
  · subst hm
    have hi : i.condition = none := lowerList_unguarded
      (show Lowering.lowerList index [i] _ = .ok s' from bind_eq_ok.2 ⟨s', h, rfl⟩)
      (by simp [hs.profile_eq, Profile.capabilities]) i List.mem_cons_self
    rw [hi] at hemit
    have hacc := measurePairs_accepts hemit
    obtain ⟨-, hlen, -⟩ := hfit
    intro c hc
    -- every bit is paired with a qubit, and the pair's measurement was accepted
    obtain ⟨j, hj, rfl⟩ := List.getElem_of_mem hc
    have hq : j < i.qubits.length := hlen ▸ hj
    have hp := hacc ((i.qubits[j], Value.staticQubit i.qubits[j]), i.clbits[j]) (by
      rw [zip_map_self_zip]
      exact List.mem_map.2 ⟨(i.qubits[j], i.clbits[j]),
        List.mem_iff_getElem.2 ⟨j, by simp only [List.length_zip]; omega, by simp⟩, rfl⟩)
    simpa [hs.handles.mode_eq, hs.handles.bounded_eq, Handles.declared, hs.handles.declaredResults_eq]
      using hp hs.handles.mode_eq hs.handles.bounded_eq
  · -- only a measurement takes classical bits
    have hnp : kind.arity ≠ .paired := by cases kind <;> simp_all [GateKind.arity]
    simp [hadm.clbits_nil hnp]

/-- Under the base profile every instruction of a run measures into declared bits. -/
theorem BaseState.lowerList_clbits_lt {name : String} {Q R : Nat} :
    ∀ {index : Nat} {is : List Instruction} {s s' : Lowering} {acc : List Instr},
      BaseState s name Q R acc → Lowering.lowerList index is s = .ok s' →
        ∀ i ∈ is, ∀ c ∈ i.clbits, c < R
  | _, [], _, _, _, _, _ => by simp
  | index, i :: is, s, s', acc, hs, h => by
    obtain ⟨s₁, h₁, h⟩ := lowerList_cons_eq_ok h
    intro j hj
    rcases List.mem_cons.1 hj with rfl | hj
    · exact hs.clbits_lt h₁
    · exact BaseState.lowerList_clbits_lt (hs.lower h₁) h j hj

/-- A pass that succeeds found an instruction at each of its positions. -/
theorem lowerFrom_isSome {src : Source} : ∀ {index n : Nat} {s s' : Lowering},
    lowerFrom src index n s = .ok s' → ∀ k, index ≤ k → k < index + n → (src.instructionAt? k).isSome
  | _, 0, _, _, _ => fun k hk hk' => absurd hk' (by omega)
  | index, n + 1, s, s', h => by
    unfold lowerFrom at h
    split at h
    · cases h
    rename_i i hi
    obtain ⟨s₁, -, h⟩ := bind_eq_ok.1 h
    intro k hk hk'
    rcases Nat.eq_or_lt_of_le hk with rfl | hk
    · simp [hi]
    · exact lowerFrom_isSome h k hk (by omega)

/-! ### The adaptive translation -/

/-- The adaptive start allocates on demand, so its table accepts every index. -/
theorem accepts_translateStart_adaptive {o : Options} {src : Source} (ho : o.profile = .adaptive)
    (k : ResourceKind) (n : Nat) : (translateStart o src).handles.Accepts k n := fun hm => by
  simp [translateStart, Lowering.new, ho, Handles.withBounds, Handles.new, Profile.addressing,
    Profile.capabilities] at hm

/-- A program that lowers under the base profile lowers under the adaptive profile, the other
options equal. -/
theorem generate_adaptive_ok_of_base {o : Options} {src : Source} {m : Module}
    (hbase : o.profile = .base) (h : generate o src = .ok m) :
    ∃ m', generate { o with profile := .adaptive } src = .ok m' := by
  have h' := h
  simp only [generate] at h'
  obtain ⟨⟨⟩, hv, h'⟩ := bind_eq_ok.1 h'
  obtain ⟨s₁, hpass, -⟩ := bind_eq_ok.1 h'
  obtain ⟨sb, -, hsb, -⟩ := generate_eq_ok h
  rw [hbase] at hsb
  have hstart : BaseState (Lowering.new .base (Builder.new (sanitizeModuleName
      (o.moduleName.getD src.name)) o.entryPoint) src.qubitCount src.bitCount)
      o.entryPoint src.qubitCount src.bitCount [] := baseState_new _
  -- what the base run lets through: admitted, unguarded instructions over declared bits
  have hfluent : ∀ i ∈ src.instructions, i.Fluent := fun i hi =>
    ⟨lowerList_admitted hsb i hi,
      lowerList_unguarded hsb (by simp [Lowering.new, Profile.capabilities]) i hi⟩
  have hbits := hstart.lowerList_clbits_lt hsb
  let o' : Options := { o with profile := .adaptive }
  have htakes : ∀ i ∈ src.instructions, (translateStart o' src).Takes i := fun i hi =>
    ⟨fun q _ => accepts_translateStart_adaptive rfl .qubit q,
      fun c hc => ⟨accepts_translateStart_adaptive rfl .result c, fun _ => hbits i hi c hc⟩⟩
  obtain ⟨sa₁, hsa₁⟩ := lowerList_ok hfluent htakes fun hr => by
    simp [translateStart, Lowering.new, o', Profile.capabilities] at hr
  -- the adaptive pass reads the same positions, all of which hold an instruction
  have hpass' : lowerFrom src 0 src.count (translateStart o' src) = .ok sa₁ := by
    rw [lowerFrom_eq_lowerList (lowerFrom_isSome hpass), ← List.range_eq_range']
    exact hsa₁
  obtain ⟨sa₂, hsa₂⟩ := recordOutputs_ok hpass'
  refine ⟨sa₂.finish o.emitModuleFlags, ?_⟩
  have hv' : ({ o with profile := .adaptive } : Options).validate = .ok () := hv
  simp only [generate, hv', ok_bind]
  change (lowerFrom src 0 src.count (translateStart o' src) >>= _) = _
  rw [hpass', ok_bind, hsa₂, ok_bind]
  rfl

/-- The modules of a program lowered under the base and the adaptive profile, the other options
equal: the two have the same name, the two entry functions the same name and attribute keys,
and their calls correspond position by position once the adaptive bookkeeping is set aside and
the recording cut off. -/
theorem generate_adaptive_of_base {o : Options} {src : Source} {m : Module}
    (hbase : o.profile = .base) (h : generate o src = .ok m) :
    ∃ m', generate { o with profile := .adaptive } src = .ok m' ∧ m'.name = m.name ∧
      ∃ f f', m.entryPoint? = some f ∧ m'.entryPoint? = some f' ∧
        f'.name = f.name ∧ f'.attributes.map (·.key) = f.attributes.map (·.key) ∧
        CallsCorrespond 0 f.programCalls f'.programCalls := by
  obtain ⟨m', h'⟩ := generate_adaptive_ok_of_base hbase h
  refine ⟨m', h', by rw [name_generate h', name_generate h], ?_⟩
  have hf := entryPoint?_base hbase h
  obtain ⟨f', hf', hname, hattr, hlines, -⟩ := entryPoint?_generate_adaptive rfl h'
  refine ⟨_, f', hf, hf', hname, by simp [hattr, adaptiveAttributes, baseAttributes], ?_⟩
  obtain ⟨sb, -, hsb, -⟩ := generate_eq_ok h
  rw [hbase] at hsb
  have hg := lowerList_unguarded hsb (by simp [Lowering.new, Profile.capabilities])
  -- the base calls come before the recording, as do the adaptive lines
  have hbase_calls : Function.programCalls
      { name := o.entryPoint, attributes := baseAttributes src.qubitCount src.bitCount,
        blocks := [{ label := "entry",
                     instrs := src.instructions.flatMap Instruction.baseCalls ++
                       baseEpilogue src.bitCount }] } = src.instructions.flatMap Instruction.baseCalls := by
    rw [Function.programCalls_eq (show Function.instrs _ =
        src.instructions.flatMap Instruction.baseCalls ++ baseEpilogue src.bitCount by
          simp [Function.instrs])
      (callsTo_baseCalls_of_recording (by decide) _), List.filter_eq_self.2]
    · intro x hx
      obtain ⟨i, -, hx⟩ := List.mem_flatMap.1 hx
      simp [i.baseCalls_not_bookkeeping x hx]
    · simp [baseEpilogue, List.filter_cons, Instr.isBookkeeping, Instr.callee?, Runtime.bookkeeping,
        Builder.callInstr, Runtime.arrayStartRecord]
      rfl
  have hadaptive_calls : f'.programCalls =
      ((adaptiveLines [] src.instructions).filterMap Line.instr?).filter fun x => !x.isBookkeeping := by
    apply Function.programCalls_eq (Function.instrs_eq_of_lines hlines)
    · rw [callsTo_allocs_of_uncalled (uncalled_of_recording (by decide)),
        callsTo_map (fun q => callee?_allocCall q)]
      rfl
    · simp [adaptiveEpilogue, zeroCalls, recordingCalls, List.filter_cons, Instr.isBookkeeping,
        Instr.callee?, Runtime.bookkeeping, Builder.callInstr, Runtime.arrayStartRecord,
        Runtime.resultGetZero]
      split <;> rfl
  rw [hbase_calls, hadaptive_calls]
  exact adaptiveLines_correspond [] _ hg

/-- **The profiles agree, as far as LLVM lets them.** Under a lawful LLVM, when a program
translates under the base profile, it lowers under the adaptive profile too, the other options
equal, and that module is what the adaptive translation gives exactly when it declares no function
named like the entry point. The two modules have the same name, the two entry functions the same
name and attribute keys, and their calls correspond position by position once the adaptive
bookkeeping is set aside and the recording cut off: the same gate, reset or barrier with the same
doubles and the allocated handle of each qubit, and the `k`-th measurement binding `%r<k>`. -/
theorem translate_adaptive_of_base {llvm : Llvm} (hllvm : llvm.Lawful) {o : Options} {src : Source}
    {g : Generated} (hbase : o.profile = .base) (h : translate llvm o src = .ok g) :
    ∃ m', generate { o with profile := .adaptive } src = .ok m' ∧
      ((∃ g', translate llvm { o with profile := .adaptive } src = .ok g' ∧ g'.module = m') ↔
        ∀ c ∈ m'.declarations, c.name ≠ o.entryPoint) ∧
      m'.name = g.module.name ∧
      ∃ f f', g.module.entryPoint? = some f ∧ m'.entryPoint? = some f' ∧
        f'.name = f.name ∧ f'.attributes.map (·.key) = f.attributes.map (·.key) ∧
        CallsCorrespond 0 f.programCalls f'.programCalls := by
  obtain ⟨hm, -⟩ := translate_eq_ok h
  obtain ⟨m', hm', hagree⟩ := generate_adaptive_of_base hbase hm
  refine ⟨m', hm', ⟨?_, fun hno => ?_⟩, hagree⟩
  · rintro ⟨g', hg', -⟩
    obtain ⟨m'', hm'', hno⟩ := (translate_ok_iff hllvm).1 ⟨g', hg'⟩
    rw [hm'] at hm''
    cases hm''
    exact hno
  · obtain ⟨g', hg'⟩ := (translate_ok_iff hllvm).2 ⟨m', hm', hno⟩
    refine ⟨g', hg', ?_⟩
    have := (translate_eq_ok hg').1
    rw [hm'] at this
    exact (Except.ok.inj this).symm

/-- The Bell pair translates under both profiles through an LLVM that refuses redefinitions, with
corresponding calls. -/
theorem translate_adaptive_of_base_bell : Llvm.refusingRedefinitions.Lawful ∧
    (Options.ofProfile .base).profile = .base ∧
    ∃ g, translate Llvm.refusingRedefinitions (Options.ofProfile .base) Program.bell.toSource = .ok g ∧
      ∃ m', generate { Options.ofProfile .base with profile := .adaptive } Program.bell.toSource = .ok m' ∧
        ((∃ g', translate Llvm.refusingRedefinitions { Options.ofProfile .base with profile := .adaptive }
            Program.bell.toSource = .ok g' ∧ g'.module = m') ↔
          ∀ c ∈ m'.declarations, c.name ≠ (Options.ofProfile .base).entryPoint) ∧
        m'.name = g.module.name ∧
        ∃ f f', g.module.entryPoint? = some f ∧ m'.entryPoint? = some f' ∧
          f'.name = f.name ∧ f'.attributes.map (·.key) = f.attributes.map (·.key) ∧
          CallsCorrespond 0 f.programCalls f'.programCalls := by
  obtain ⟨g, hg⟩ : ∃ g, translate Llvm.refusingRedefinitions (Options.ofProfile .base)
      Program.bell.toSource = .ok g :=
    (translate_ok_iff_of_unreserved Llvm.refusingRedefinitions_lawful (by decide)).2 ⟨_, rfl⟩
  exact ⟨Llvm.refusingRedefinitions_lawful, rfl, g, hg,
    translate_adaptive_of_base Llvm.refusingRedefinitions_lawful rfl hg⟩

/-- Named like the adaptive measurement, the Bell pair's entry point is declared by the adaptive
module alone: the base translation, which measures with `mz`, succeeds through an LLVM that
refuses redefinitions, and the adaptive one is refused as invalid IR. -/
theorem translate_adaptive_refused :
    (∃ g, translate Llvm.refusingRedefinitions
      { Options.ofProfile .base with entryPoint := "__quantum__qis__m__body" } Program.bell.toSource =
        .ok g) ∧
      ∃ msg, translate Llvm.refusingRedefinitions
        { Options.ofProfile .adaptive with entryPoint := "__quantum__qis__m__body" } Program.bell.toSource =
          .error (.invalidIr msg) := by
  refine ⟨(translate_ok_iff Llvm.refusingRedefinitions_lawful).2 ⟨_, rfl, ?_⟩,
    translate_eq_invalidIr Llvm.refusingRedefinitions_lawful rfl ?_⟩
  · decide
  · decide

end QirGen
