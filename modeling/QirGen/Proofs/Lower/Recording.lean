import QirGen.Proofs.Lower.Errors
import QirGen.Proofs.Lower.Resources

/-!
# Recording the outputs

After the last instruction every declared classical bit is recorded, in ascending order, between
the two array markers, and nothing else starts, fills or ends an output array. Under the base
profile bit `c` records its own constant result slot. Under the adaptive profile it records the
result bound by the latest measurement into it, or, if nothing was measured into it, the zero
result; the zero result is fetched once, right before the markers, exactly when some declared
bit needs it, and as it is no measurement the required results do not count it.

Recording never fails: whatever lowering reaches keeps a result for every declared bit, and no
instruction's lowering fails with a recording omission (`LowerFault.ne_recordingOmission`).
Main statement: `translate_records`.
-/

namespace QirGen

open Ir Circuit Lowering

/-- The functions of output recording: the zero result, and the start, the records and the end
of the output array. -/
def recordingNames : List String :=
  [Runtime.resultGetZero.name, Runtime.arrayStartRecord.name, Runtime.resultRecord.name,
    Runtime.arrayEndRecord.name]

/-- The fetch of the zero result. -/
def zeroFetch : Instr := .call Runtime.resultGetZero.name .result [] (some "zero")

/-- The record of a result. -/
def recordCall (v : Value) : Instr := Builder.callInstr Runtime.resultRecord [v] none

/-- The outputs a function records: right after the calls `zero`, the start of the output array,
one record per value of `vs` in order, and the end of the array; no other instruction starts,
fills or ends an output array, or fetches the zero result. -/
structure RecordsOutputs (f : Function) (zero : List Instr) (vs : List Value) : Prop where
  segment : ∃ pre post, f.instrs = pre ++ zero ++ recordingCalls vs ++ post
  starts : callsTo Runtime.arrayStartRecord.name f.instrs =
    [Builder.callInstr Runtime.arrayStartRecord [] none]
  records : callsTo Runtime.resultRecord.name f.instrs = vs.map recordCall
  ends : callsTo Runtime.arrayEndRecord.name f.instrs =
    [Builder.callInstr Runtime.arrayEndRecord [] none]
  zeros : callsTo Runtime.resultGetZero.name f.instrs = zero

/-! ### Which functions record -/

/-- The gates belong to the instruction set, and none of them records. -/
theorem GateKind.callee?_not_recording {kind : GateKind} {c : Callee} (h : kind.callee? = some c) :
    c.name ∉ recordingNames := by
  cases kind <;> simp only [callee?, reduceCtorEq, Option.some.injEq] at h <;> subst h <;> decide

/-- No instruction records: recording is left to the epilogue. -/
theorem uncalled_of_recording {name : String} (h : name ∈ recordingNames) : Uncalled name where
  m := fun he => by rw [← he] at h; exact absurd h (by decide)
  barrier := fun he => by rw [← he] at h; exact absurd h (by decide)
  readResult := fun he => by rw [← he] at h; exact absurd h (by decide)
  gate := fun hc he => GateKind.callee?_not_recording hc (he ▸ h)

/-- Under the base profile no instruction records either. -/
theorem callsTo_baseCalls_of_recording {name : String} (h : name ∈ recordingNames)
    (P : List Instruction) : callsTo name (P.flatMap Instruction.baseCalls) = [] := by
  refine callsTo_eq_nil fun x hx => ?_
  obtain ⟨i, -, hx⟩ := List.mem_flatMap.1 hx
  cases hk : GateKind.ofName? i.name with
  | none => simp [Instruction.baseCalls, hk] at hx
  | some kind =>
    simp only [Instruction.baseCalls, hk, Option.map_some, Option.getD_some] at hx
    -- a base call measures, is the barrier, or calls the kind's gate
    unfold GateKind.baseCalls at hx
    split at hx
    · obtain ⟨p, -, rfl⟩ := List.mem_map.1 hx
      rintro ⟨⟩
      exact absurd h (by decide)
    · obtain rfl := List.mem_singleton.1 hx
      rintro ⟨⟩
      exact absurd h (by decide)
    · rename_i c _ _ hc
      obtain rfl := List.mem_singleton.1 hx
      rintro ⟨⟩
      exact GateKind.callee?_not_recording hc h
    · simp at hx

theorem callsTo_recordingCalls (name : String) (vs : List Value) :
    callsTo name (recordingCalls vs) =
      callsTo name [Builder.callInstr Runtime.arrayStartRecord [] none] ++
        (if Runtime.resultRecord.name = name then vs.map recordCall else []) ++
        callsTo name [Builder.callInstr Runtime.arrayEndRecord [] none] := by
  rw [recordingCalls, List.cons_append, ← List.singleton_append, callsTo_append, callsTo_append,
    callsTo_map fun _ => rfl, List.append_assoc]
  rfl

/-- The recording segment calls each recording function as `RecordsOutputs` says, when the rest
of the instructions records nothing. -/
theorem recordsOutputs_of_instrs {f : Function} (pre post : List Instr) {zero : List Instr}
    {vs : List Value} (hf : f.instrs = pre ++ zero ++ recordingCalls vs ++ post)
    (hpre : ∀ name ∈ recordingNames, callsTo name pre = [] ∧ callsTo name post = [])
    (hzero : ∀ name ∈ recordingNames, name ≠ Runtime.resultGetZero.name → callsTo name zero = [])
    (hz : callsTo Runtime.resultGetZero.name zero = zero) :
    RecordsOutputs f zero vs := by
  have hcalls : ∀ name ∈ recordingNames, callsTo name f.instrs =
      callsTo name zero ++ callsTo name (recordingCalls vs) := fun name hn => by
    rw [hf, callsTo_append, callsTo_append, callsTo_append, (hpre name hn).1, (hpre name hn).2]
    simp
  refine ⟨⟨pre, post, hf⟩, ?_, ?_, ?_, ?_⟩
  · rw [hcalls _ (by decide), hzero _ (by decide) (by decide), callsTo_recordingCalls]
    simp [Builder.callInstr, Instr.callee?, Runtime.arrayStartRecord, Runtime.resultRecord,
      Runtime.arrayEndRecord]
  · rw [hcalls _ (by decide), hzero _ (by decide) (by decide), callsTo_recordingCalls]
    simp [Builder.callInstr, Instr.callee?, Runtime.arrayStartRecord, Runtime.resultRecord,
      Runtime.arrayEndRecord]
  · rw [hcalls _ (by decide), hzero _ (by decide) (by decide), callsTo_recordingCalls]
    simp [Builder.callInstr, Instr.callee?, Runtime.arrayStartRecord, Runtime.resultRecord,
      Runtime.arrayEndRecord]
  · rw [hcalls _ (by decide), hz, callsTo_recordingCalls]
    simp [Builder.callInstr, Instr.callee?, Runtime.arrayStartRecord, Runtime.resultRecord,
      Runtime.arrayEndRecord, Runtime.resultGetZero]

/-! ### Recording never fails -/

/-- Whatever a translation's lowering reaches, under either profile, records every declared bit. -/
theorem recordOutputs_ok {o : Options} {src : Source} {n : Nat} {s : Lowering}
    (h : lowerFrom src 0 n (translateStart o src) = .ok s) : ∃ s', s.recordOutputs = .ok s' := by
  have hl := lowerFrom_eq_ok h
  unfold translateStart at hl
  cases hp : o.profile with
  | base =>
    rw [hp] at hl
    have hs := (baseState_new _).lowerList hl
    obtain ⟨s', hs', -⟩ := recordOutputs_static hs.handles hs.at_entry
    exact ⟨s', hs'⟩
  | adaptive =>
    rw [hp] at hl
    obtain ⟨hs, -⟩ := (adaptiveState_new _ src.qubitCount).lowerList hl
    obtain ⟨done, cur, hb, -⟩ := hs.at_end
    obtain ⟨s', hs', -⟩ := recordOutputs_dynamic hs.handles hb
    exact ⟨s', hs'⟩

/-- No generation fails for a bit without a recorded result. -/
theorem generate_ne_recordingOmission (o : Options) (src : Source) (c : Nat) :
    generate o src ≠ .error (.recordingOmission c) := by
  intro h
  rcases generate_eq_error h with hv | ⟨k, hk⟩ | ⟨m, s, i, -, -, hl⟩ | ⟨s, hs, hr⟩
  · -- the options fail with a configuration error only
    unfold Options.validate at hv
    split at hv <;> cases hv
  · cases hk
  · exact (lower_eq_error hl).ne_recordingOmission c rfl
  · obtain ⟨s', hs'⟩ := recordOutputs_ok hs
    rw [hs'] at hr
    cases hr

/-- No translation fails for a bit without a recorded result: generation does not, and LLVM
refuses only with `invalidIr`. -/
theorem translate_ne_recordingOmission (llvm : Llvm) (o : Options) (src : Source) (c : Nat) :
    translate llvm o src ≠ .error (.recordingOmission c) := by
  intro h
  rcases translate_eq_error_iff.1 h with hg | ⟨m, -, hb⟩
  · exact generate_ne_recordingOmission o src c hg
  · obtain ⟨msg, he⟩ := irToBitcode_eq_error hb
    cases he

/-! ### Under the base profile -/

/-- The end of the base entry block is the recording of every declared slot, then the return. -/
theorem baseEpilogue_eq (R : Nat) :
    baseEpilogue R = recordingCalls ((List.range R).map Value.staticResult) ++ [.ret] := by
  simp [baseEpilogue, recordingCalls, Builder.callInstr, Runtime.arrayStartRecord,
    Runtime.resultRecord, Runtime.arrayEndRecord, Function.comp_def]

/-- Under the base profile every declared bit records its own slot, and the zero result is never
fetched. -/
theorem recordsOutputs_base {llvm : Llvm} {o : Options} {src : Source} {g : Generated}
    (hbase : o.profile = .base) (h : translate llvm o src = .ok g) :
    ∃ f, g.module.entryPoint? = some f ∧
      RecordsOutputs f [] ((List.range src.bitCount).map Value.staticResult) ∧
      (src.bitCount < Word.size → g.requiredResults = src.bitCount) := by
  have hf := entryPoint?_base hbase (translate_eq_ok h).1
  refine ⟨_, hf, recordsOutputs_of_instrs (src.instructions.flatMap Instruction.baseCalls) [.ret] ?_ (fun name hn => ⟨callsTo_baseCalls_of_recording hn _, by simp [Instr.callee?]⟩)
    (fun _ _ _ => rfl) rfl, (required_eq hf rfl).2⟩
  simp [Function.instrs, baseEpilogue_eq]

/-! ### Under the adaptive profile -/

/-- A bit has no latest measurement exactly when nothing was measured into it. -/
theorem lastIndex_eq_none_iff {ms : List Nat} {c : Nat} : lastIndex ms c = none ↔ c ∉ ms := by
  induction ms using List.reverseRecOn with
  | nil => simp [lastIndex]
  | append_singleton ms b ih =>
    rw [lastIndex_append_singleton]
    by_cases hb : b = c
    · simp [hb]
    · simp [hb, ih, Ne.symm hb]

/-- The bits measured into are those of the measured pairs. -/
theorem measuredBits_eq_map (P : List Instruction) : measuredBits P = (measuredPairs P).map Prod.snd := by
  induction P with
  | nil => rfl
  | cons i P ih =>
    rw [measuredPairs_cons, List.map_append, ← ih]
    simp only [measuredBits, List.flatMap_cons]
    split <;> simp

/-- A function whose lines are the entry label, then lines `L`, then instructions `E`, holds the
instructions of `L` followed by `E`. -/
theorem Ir.Function.instrs_eq_of_lines {f : Function} {L : List Line} {E : List Instr}
    (h : linesOf f.blocks = .label "entry" :: L ++ E.map Line.instr) :
    f.instrs = L.filterMap Line.instr? ++ E := by
  rw [Function.instrs, ← instrs_linesOf, h, List.cons_append, List.filterMap_cons_none rfl,
    List.filterMap_append, filterMap_instr?_map]

/-- The measurements of a program lowered under the adaptive profile: one per measured pair, in
program order, the `k`-th binding result `k`. -/
theorem callsTo_m_adaptive (R : Nat) (P : List Instruction) :
    callsTo Runtime.m.name ((adaptiveLines [] P).filterMap Line.instr? ++ adaptiveEpilogue R P) =
      (measuredPairs P).zipIdx.map fun pk => measureCall pk.1.1 pk.2 := by
  rw [callsTo_append, callsTo_m_adaptiveLines, callsTo_adaptiveEpilogue (by decide),
    callsTo_map callee?_releaseCall, if_neg (by decide)]
  simp [measuredBits]

/-- Some declared bit needs the zero result exactly when one was never measured. -/
theorem needsZero_iff (R : Nat) (ms : List Nat) : needsZero R ms = true ↔ ∃ c < R, c ∉ ms := by
  simp [needsZero, Option.isNone_iff_eq_none, lastIndex_eq_none_iff]

/-- What the entry function of a program `P` lowered under the adaptive profile records for `R`
declared bits. -/
structure AdaptiveRecording (g : Generated) (f : Function) (R : Nat) (P : List Instruction) : Prop where
  /-- Each bit records its latest result or else the zero result, in ascending order, right
  after the fetch of the zero result. -/
  records : RecordsOutputs f (zeroCalls R (measuredBits P))
    ((List.range R).map (recordedResult (measuredBits P)))
  /-- The zero result is fetched once if some declared bit was never measured, and otherwise
  never. -/
  zero_fetch : zeroCalls R (measuredBits P) = if ∃ c < R, c ∉ measuredBits P then [zeroFetch] else []
  /-- Bit `c` records the result bound by the latest measurement into it, the `m`-th measured
  pair binding `%r<m>`, or the zero result if nothing was measured into it. -/
  latest : ∀ c < R, (c ∉ measuredBits P ∧ recordedResult (measuredBits P) c = zeroResult) ∨
    ∃ m q, IsLatest (measuredBits P) c m ∧ (measuredPairs P)[m]? = some (q, c) ∧
      measureCall q m ∈ f.instrs ∧ recordedResult (measuredBits P) c = resultHandle m
  /-- The results required are the measurements, which the zero result is not. -/
  required_results : (measuredPairs P).length < Word.size →
    g.requiredResults = (callsTo Runtime.m.name f.instrs).length

/-- Under the adaptive profile each declared bit records its latest result, or the zero result,
fetched once before the recording when some bit needs it. -/
theorem adaptiveRecording {llvm : Llvm} {o : Options} {src : Source} {g : Generated}
    (hp : o.profile = .adaptive) (h : translate llvm o src = .ok g) :
    ∃ f, g.module.entryPoint? = some f ∧ AdaptiveRecording g f src.bitCount src.instructions := by
  obtain ⟨f, hf, -, hattr, hlines, -⟩ := entryPoint?_generate_adaptive hp (translate_eq_ok h).1
  set P := src.instructions
  set R := src.bitCount
  have hinstrs := Function.instrs_eq_of_lines hlines
  have hzero : zeroCalls R (measuredBits P) =
      if ∃ c < R, c ∉ measuredBits P then [zeroFetch] else [] := by
    simp only [zeroCalls, ← needsZero_iff]
    rfl
  have hm : callsTo Runtime.m.name f.instrs = (measuredPairs P).zipIdx.map fun pk => measureCall pk.1.1 pk.2 := by
    rw [hinstrs, callsTo_m_adaptive]
  refine ⟨f, hf, ⟨?_, hzero, fun c _ => ?_, fun hw => ?_⟩⟩
  · -- the instructions record nothing, and after the recording come the releases and the return
    have hnot : ∀ {n name : String}, name ∈ recordingNames → n ∉ recordingNames → n ≠ name :=
      fun hn h he => h (he ▸ hn)
    refine recordsOutputs_of_instrs ((adaptiveLines [] P).filterMap Line.instr?)
      (releaseCalls ((firstUses P).map fun q => (q, qubitHandle q)) ++ [.ret])
      (by rw [hinstrs]; simp [adaptiveEpilogue]) (fun name hn => ⟨?_, ?_⟩) (fun name _ hne => ?_) ?_
    · rw [callsTo_allocs_of_uncalled (uncalled_of_recording hn), callsTo_map callee?_allocCall,
        if_neg (hnot hn (by decide))]
    · rw [releaseCalls_qubitHandle, callsTo_append, callsTo_map callee?_releaseCall,
        if_neg (hnot hn (by decide))]
      simp [Instr.callee?]
    · unfold zeroCalls
      split <;> simp [Instr.callee?, Ne.symm hne]
    · unfold zeroCalls
      split <;> simp [Instr.callee?]
  · cases hl : lastIndex (measuredBits P) c with
    | none => exact .inl ⟨lastIndex_eq_none_iff.1 hl, by simp [recordedResult, hl]⟩
    | some m =>
      have hlatest := lastIndex_eq_some_iff.1 hl
      -- the latest measurement into `c` is the `m`-th measured pair, which binds `%r<m>`
      obtain ⟨q, hpm⟩ : ∃ q, (measuredPairs P)[m]? = some (q, c) := by
        have hm' := hlatest.1
        rw [measuredBits_eq_map, List.getElem?_map, Option.map_eq_some_iff] at hm'
        obtain ⟨⟨q, c'⟩, hp, rfl⟩ := hm'
        exact ⟨q, hp⟩
      refine .inr ⟨m, q, hlatest, hpm, ?_, by simp [recordedResult, hl]⟩
      have hmem : measureCall q m ∈ callsTo Runtime.m.name f.instrs := by
        rw [hm]
        exact List.mem_map_of_mem ((List.mem_zipIdx_iff_getElem? (x := ((q, c), m))).2 hpm)
      exact List.mem_of_mem_filter hmem
  · rw [hm, List.length_map, List.length_zipIdx]
    rw [length_measuredBits] at hattr
    exact (required_eq hf hattr).2 hw

/-- **Recording the outputs.** No translation fails for a bit without a recorded result. A
translation that succeeds records every declared bit in ascending order between the array
markers, and nothing else records: under the base profile each bit's own slot, the zero result
never fetched and the declared bits required; under the adaptive profile each bit's latest
result or else the zero result, fetched once right before the recording exactly when some
declared bit was never measured, and only the measurements required. -/
theorem translate_records :
    (∀ (llvm : Llvm) (o : Options) (src : Source) (c : Nat),
      translate llvm o src ≠ .error (.recordingOmission c)) ∧
    ∀ {llvm : Llvm} {o : Options} {src : Source} {g : Generated}, translate llvm o src = .ok g →
      (o.profile = .base → ∃ f, g.module.entryPoint? = some f ∧
        RecordsOutputs f [] ((List.range src.bitCount).map Value.staticResult) ∧
        (src.bitCount < Word.size → g.requiredResults = src.bitCount)) ∧
      (o.profile = .adaptive → ∃ f, g.module.entryPoint? = some f ∧
        AdaptiveRecording g f src.bitCount src.instructions) :=
  ⟨translate_ne_recordingOmission,
    fun h => ⟨fun hp => recordsOutputs_base hp h, fun hp => adaptiveRecording hp h⟩⟩

/-- Bit 0 measured twice and bit 1 never: bit 0 records the second result, bit 1 the zero
result. -/
def Circuit.Program.remeasured : Program :=
  { Program.withSize "remeasured" 2 2 with
    instructions := [Instruction.measure 0 0, Instruction.measure 1 0] }

theorem translate_records_remeasured :
    ∃ g, translate Llvm.acceptingAll (Options.ofProfile .adaptive) (Program.remeasured).toSource = .ok g ∧
      ∃ f, g.module.entryPoint? = some f ∧
        AdaptiveRecording g f (Program.remeasured).toSource.bitCount
          (Program.remeasured).toSource.instructions :=
  ⟨_, rfl, (translate_records.2 (o := Options.ofProfile .adaptive)
    (show translate Llvm.acceptingAll _ (Program.remeasured).toSource = .ok _ from rfl)).2 rfl⟩

end QirGen
