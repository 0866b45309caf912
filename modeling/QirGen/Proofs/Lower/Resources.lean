import QirGen.Proofs.Lower.Regions

/-!
# Qubits and results under the adaptive profile

Under the adaptive profile a qubit is allocated where the program first refers to it and
released before the return, and each measured pair binds the next numbered result. The main
statement, `entryPoint?_resourceAccounting`, reads this off the entry function of every program
that lowering accepts: its allocations are the qubits the program refers to, once each and in
order of first reference, each written in the segment of the instruction that first refers to
it, ahead of that instruction's other lines; its releases are the same qubits in the same order,
right before the return; its measurements are the measured pairs in program order, the `k`-th
binding result `k`; and its attributes count both.

The calls to one function are a filter of the instructions (`callsTo`). Each piece of the lines
is filtered once: the allocations and the calls of a segment, the tests of a region, and the
epilogue; the runs over the program are inductions on its instructions.
-/

namespace QirGen

open Ir Circuit Lowering

/-- The calls among `is` to the function `name`, in order. -/
def callsTo (name : String) (is : List Instr) : List Instr := is.filter (·.callee? == some name)

section CallsTo

variable {name : String}

@[simp] theorem callsTo_nil : callsTo name [] = [] := rfl

@[simp] theorem callsTo_cons (x : Instr) (is : List Instr) :
    callsTo name (x :: is) = if x.callee? = some name then x :: callsTo name is else callsTo name is := by
  simp [callsTo, List.filter_cons]

@[simp] theorem callsTo_append (is js : List Instr) :
    callsTo name (is ++ js) = callsTo name is ++ callsTo name js :=
  List.filter_append is js

theorem callsTo_eq_nil {is : List Instr} (h : ∀ x ∈ is, x.callee? ≠ some name) : callsTo name is = [] :=
  List.filter_eq_nil_iff.2 fun x hx => by simpa using h x hx

/-- Calls all to one function are kept whole by the filter for that function and dropped by the
filter for any other. -/
theorem callsTo_map {α : Type} {c : String} {g : α → Instr} (hg : ∀ a, (g a).callee? = some c)
    (xs : List α) : callsTo name (xs.map g) = if c = name then xs.map g else [] := by
  split
  case isTrue h =>
    refine List.filter_eq_self.2 fun x hx => ?_
    obtain ⟨a, -, rfl⟩ := List.mem_map.1 hx
    simp [hg, h]
  case isFalse h =>
    refine callsTo_eq_nil fun x hx => ?_
    obtain ⟨a, -, rfl⟩ := List.mem_map.1 hx
    simp [hg, h]

/-- A call to `name` occurs as often among all instructions as among the calls to `name`. -/
theorem count_callsTo {x : Instr} (hx : x.callee? = some name) (is : List Instr) :
    (callsTo name is).count x = is.count x :=
  List.count_filter (by simp [hx])

end CallsTo

/-- The pairs of a qubit and a bit that the instructions measure, in order. -/
def measuredPairs (P : List Instruction) : List (Nat × Nat) :=
  P.flatMap fun i => if i.isMeasure then i.qubits.zip i.clbits else []

@[simp] theorem measuredPairs_nil : measuredPairs [] = [] := rfl

@[simp] theorem measuredPairs_cons (i : Instruction) (P : List Instruction) :
    measuredPairs (i :: P) = (if i.isMeasure then i.qubits.zip i.clbits else []) ++ measuredPairs P :=
  rfl

@[simp] theorem measuredPairs_append (P Q : List Instruction) :
    measuredPairs (P ++ Q) = measuredPairs P ++ measuredPairs Q := by
  simp [measuredPairs]

/-- One bit is measured per measured pair. -/
theorem length_measuredBits (P : List Instruction) : (measuredBits P).length = (measuredPairs P).length := by
  induction P with
  | nil => rfl
  | cons i P ih =>
    rw [measuredPairs_cons, List.length_append, ← ih]
    simp only [measuredBits, List.flatMap_cons, List.length_append]
    split <;> simp

/-- The measurement of qubit `q` binding result `k`. -/
def measureCall (q k : Nat) : Instr := .call Runtime.m.name .result [qubitHandle q] (some ("r" ++ toString k))

/-- The release of qubit `q`. -/
def releaseCall (q : Nat) : Instr := .call Runtime.qubitRelease.name .void [qubitHandle q] none

@[simp] theorem callee?_allocCall (q : Nat) : (allocCall q).callee? = some Runtime.qubitAllocate.name := rfl

@[simp] theorem callee?_releaseCall (q : Nat) : (releaseCall q).callee? = some Runtime.qubitRelease.name := rfl

@[simp] theorem callee?_measureCall (q k : Nat) : (measureCall q k).callee? = some Runtime.m.name := rfl

/-- Allocations of different qubits bind different names. -/
theorem allocCall_injective : Function.Injective allocCall := fun q q' h => by
  simp only [allocCall, Instr.call.injEq, Option.some.injEq, true_and] at h
  have h' : (Symbol.qubit q).text = (Symbol.qubit q').text := h
  exact Symbol.qubit.inj (Symbol.text_injective h')

theorem releaseCalls_qubitHandle (qs : List Nat) :
    releaseCalls (qs.map fun q => (q, qubitHandle q)) = qs.map releaseCall := by
  simp [releaseCalls, releaseCall, Builder.callInstr, Runtime.qubitRelease]

/-! ### What an instruction calls -/

/-- The functions of the gates belong to the instruction set: none allocates, releases or
measures. -/
theorem GateKind.callee?_name_ne {kind : GateKind} {c : Callee} (h : kind.callee? = some c) :
    c.name ≠ Runtime.qubitAllocate.name ∧ c.name ≠ Runtime.qubitRelease.name ∧ c.name ≠ Runtime.m.name := by
  cases kind <;> simp only [callee?, reduceCtorEq, Option.some.injEq] at h <;> subst h <;> decide

/-- A call a kind of instruction makes is a measurement, the barrier, or the kind's function. -/
theorem GateKind.callee?_adaptiveCalls {kind : GateKind} {n : Nat} {i : Instruction} {x : Instr}
    (hx : x ∈ kind.adaptiveCalls n i) :
    kind = .measure ∧ x.callee? = some Runtime.m.name ∨ x.callee? = some Runtime.barrier.name ∨
      ∃ c, kind.callee? = some c ∧ x.callee? = some c.name := by
  unfold adaptiveCalls at hx
  split at hx
  case h_1 =>
    obtain ⟨pk, -, rfl⟩ := List.mem_map.1 hx
    exact .inl ⟨rfl, rfl⟩
  case h_2 =>
    obtain rfl := List.mem_singleton.1 hx
    exact .inr (.inl rfl)
  case h_3 c _ _ hc =>
    obtain rfl := List.mem_singleton.1 hx
    exact .inr (.inr ⟨c, hc, rfl⟩)
  case h_4 => simp at hx

theorem Circuit.Instruction.callee?_adaptiveCalls {i : Instruction} {n : Nat} {x : Instr}
    (hx : x ∈ i.adaptiveCalls n) :
    i.isMeasure = true ∧ x.callee? = some Runtime.m.name ∨ x.callee? = some Runtime.barrier.name ∨
      ∃ (kind : GateKind) (c : Callee), kind.callee? = some c ∧ x.callee? = some c.name := by
  cases hk : GateKind.ofName? i.name with
  | none => simp [Instruction.adaptiveCalls, hk] at hx
  | some kind =>
    simp only [Instruction.adaptiveCalls, hk, Option.map_some, Option.getD_some] at hx
    rcases GateKind.callee?_adaptiveCalls hx with ⟨hm, h⟩ | h | ⟨c, hc, h⟩
    · exact .inl ⟨(GateKind.eq_measure_iff hk).1 hm, h⟩
    · exact .inr (.inl h)
    · exact .inr (.inr ⟨kind, c, hc, h⟩)

theorem Circuit.Instruction.adaptiveCalls_of_isMeasure {i : Instruction} (hm : i.isMeasure = true) (n : Nat) :
    i.adaptiveCalls n = ((i.qubits.zip i.clbits).zipIdx n).map fun pk => measureCall pk.1.1 pk.2 := by
  have hk : GateKind.ofName? i.name = some .measure := by
    rw [GateKind.ofName?_eq_measure]
    simpa [Instruction.isMeasure, or_assoc] using hm
  simp [Instruction.adaptiveCalls, hk, GateKind.adaptiveCalls, measureCall]

/-- A function that no instruction calls: no measurement, barrier, read of a result or gate. -/
structure Uncalled (name : String) : Prop where
  m : Runtime.m.name ≠ name
  barrier : Runtime.barrier.name ≠ name
  readResult : Runtime.readResult.name ≠ name
  gate : ∀ {kind : GateKind} {c : Callee}, kind.callee? = some c → c.name ≠ name

theorem uncalled_qubitAllocate : Uncalled Runtime.qubitAllocate.name :=
  ⟨by decide, by decide, by decide, fun h => (GateKind.callee?_name_ne h).1⟩

theorem uncalled_qubitRelease : Uncalled Runtime.qubitRelease.name :=
  ⟨by decide, by decide, by decide, fun h => (GateKind.callee?_name_ne h).2.1⟩

section Segment

variable {name : String}

theorem callsTo_adaptiveCalls_of_uncalled (hn : Uncalled name) (i : Instruction) (n : Nat) :
    callsTo name (i.adaptiveCalls n) = [] := by
  refine callsTo_eq_nil fun x hx => ?_
  rcases Instruction.callee?_adaptiveCalls hx with ⟨-, h⟩ | h | ⟨kind, c, hc, h⟩ <;> rw [h]
  · simpa using hn.m
  · simpa using hn.barrier
  · simpa using hn.gate hc

/-- An instruction measures once per measured pair, numbering the results from `n`. -/
theorem callsTo_m_adaptiveCalls (i : Instruction) (n : Nat) :
    callsTo Runtime.m.name (i.adaptiveCalls n) =
      ((if i.isMeasure then i.qubits.zip i.clbits else []).zipIdx n).map
        fun pk => measureCall pk.1.1 pk.2 := by
  cases hm : i.isMeasure
  case true =>
    rw [i.adaptiveCalls_of_isMeasure hm, if_pos rfl,
      callsTo_map fun pk : (Nat × Nat) × Nat => callee?_measureCall pk.1.1 pk.2, if_pos rfl]
  case false =>
    refine callsTo_eq_nil fun x hx => ?_
    rcases Instruction.callee?_adaptiveCalls hx with ⟨h, -⟩ | h | ⟨kind, c, hc, h⟩
    · simp [hm] at h
    · rw [h]
      decide
    · rw [h]
      simpa using (GateKind.callee?_name_ne hc).2.2

/-- The tests of a region only read results. -/
theorem callsTo_testLines (hread : Runtime.readResult.name ≠ name) (r : Nat) (join : String) :
    ∀ (k : Nat) (xs : List ((Value × Bool) × String)),
      callsTo name ((testLines r join k xs).filterMap Line.instr?) = []
  | _, [] => rfl
  | k, x :: xs => by
    rw [testLines_cons, List.filterMap_append, List.filterMap_cons_none rfl, filterMap_instr?_map,
      callsTo_append, callsTo_testLines hread r join (k + 1) xs, List.append_nil]
    simp [testInstrs, Instr.callee?, hread]

/-- A segment calls a function other than the read of a result where its allocations and its
instruction's calls do; a guard adds no other call. -/
theorem callsTo_adaptiveSegment (hread : Runtime.readResult.name ≠ name) (P : List Instruction)
    (i : Instruction) :
    callsTo name ((adaptiveSegment P i).filterMap Line.instr?) =
      callsTo name ((newQubits (firstUses P) i.qubits).map allocCall) ++
        callsTo name (i.adaptiveCalls (measuredBits P).length) := by
  cases hc : i.condition with
  | none => simp [adaptiveSegment, hc, List.filterMap_map, Function.comp_def, Line.instr?]
  | some c =>
    rw [adaptiveSegment_guarded hc, regionLines]
    simp [List.filterMap_map, List.filterMap_cons, Function.comp_def, Line.instr?,
      callsTo_testLines hread, Instr.callee?]

/-- The epilogue records the outputs, releases and returns: a function other than those of
recording is called there only to release. -/
theorem callsTo_adaptiveEpilogue (h : name ∉ [Runtime.resultGetZero.name, Runtime.arrayStartRecord.name,
      Runtime.resultRecord.name, Runtime.arrayEndRecord.name]) (R : Nat) (P : List Instruction) :
    callsTo name (adaptiveEpilogue R P) = callsTo name ((firstUses P).map releaseCall) := by
  simp only [List.mem_cons, List.not_mem_nil, or_false, not_or] at h
  obtain ⟨hz, hs, hr, he⟩ := h
  have hzero : callsTo name (zeroCalls R (measuredBits P)) = [] := by
    unfold zeroCalls
    split <;> simp [Instr.callee?, Ne.symm hz]
  have hrec : ∀ vs, callsTo name (recordingCalls vs) = [] := fun vs => callsTo_eq_nil fun x hx => by
    simp only [recordingCalls, List.mem_cons, List.mem_append, List.mem_map, List.not_mem_nil,
      or_false] at hx
    rcases hx with (rfl | ⟨v, -, rfl⟩) | rfl <;>
      simp [Builder.callInstr, Instr.callee?, Ne.symm hs, Ne.symm hr, Ne.symm he]
  simp [adaptiveEpilogue, hzero, hrec, releaseCalls_qubitHandle, Instr.callee?]

end Segment

/-! ### Runs over the program -/

/-- The lines of the instructions `is` after the instructions `P` call a function that no
instruction calls only to allocate the qubits that `is` refers to first. -/
theorem callsTo_allocs_of_uncalled {name : String} (hn : Uncalled name) :
    ∀ (P is : List Instruction), callsTo name ((adaptiveLines P is).filterMap Line.instr?) =
      callsTo name ((newQubits (firstUses P) (is.flatMap (·.qubits))).map allocCall)
  | _, [] => by simp [adaptiveLines, newQubits]
  | P, i :: is => by
    rw [adaptiveLines_cons, List.filterMap_append, callsTo_append, callsTo_adaptiveSegment hn.readResult,
      callsTo_adaptiveCalls_of_uncalled hn, List.append_nil, callsTo_allocs_of_uncalled hn (P ++ [i]) is,
      firstUses_append_singleton, List.flatMap_cons, newQubits_append, List.map_append, callsTo_append]

/-- The entry function calls a function that neither an instruction nor the recording calls
only to allocate and to release. -/
theorem callsTo_adaptive_of_uncalled {name : String} (hn : Uncalled name)
    (hrec : name ∉ [Runtime.resultGetZero.name, Runtime.arrayStartRecord.name,
      Runtime.resultRecord.name, Runtime.arrayEndRecord.name]) (R : Nat) (P : List Instruction) :
    callsTo name ((adaptiveLines [] P).filterMap Line.instr? ++ adaptiveEpilogue R P) =
      callsTo name ((firstUses P).map allocCall) ++ callsTo name ((firstUses P).map releaseCall) := by
  rw [callsTo_append, callsTo_allocs_of_uncalled hn, callsTo_adaptiveEpilogue hrec]
  simp [firstUses, newQubits]

/-- The measurements the lines of the instructions `is` write after the instructions `P`: one
per measured pair, numbering the results on from those of `P`. -/
theorem callsTo_m_adaptiveLines :
    ∀ (P is : List Instruction), callsTo Runtime.m.name ((adaptiveLines P is).filterMap Line.instr?) =
      ((measuredPairs is).zipIdx (measuredBits P).length).map fun pk => measureCall pk.1.1 pk.2
  | _, [] => by simp [adaptiveLines]
  | P, i :: is => by
    have hlen : (measuredBits (P ++ [i])).length =
        (measuredBits P).length + (if i.isMeasure then i.qubits.zip i.clbits else []).length := by
      rw [length_measuredBits, length_measuredBits, measuredPairs_append, List.length_append]
      simp
    rw [adaptiveLines_cons, List.filterMap_append, callsTo_append, callsTo_adaptiveSegment (by decide),
      callsTo_m_adaptiveCalls, callsTo_m_adaptiveLines (P ++ [i]) is, hlen,
      callsTo_map callee?_allocCall, if_neg (by decide), List.nil_append,
      measuredPairs_cons, List.zipIdx_append, List.map_append]

/-- New qubits come in the order they are first met. -/
theorem newQubits_pairwise : ∀ (seen qs : List Nat),
    (newQubits seen qs).Pairwise fun a b => qs.idxOf a < qs.idxOf b
  | _, [] => List.Pairwise.nil
  | seen, x :: qs => by
    by_cases hx : x ∈ seen
    · rw [newQubits, if_pos hx]
      -- no new qubit is `x`, which was seen before
      refine (newQubits_pairwise seen qs).imp_of_mem fun {a b} ha hb hab => ?_
      have hxa : x ≠ a := fun h => (mem_newQubits.1 ha).2 (h ▸ hx)
      have hxb : x ≠ b := fun h => (mem_newQubits.1 hb).2 (h ▸ hx)
      rw [List.idxOf_cons_ne _ hxa, List.idxOf_cons_ne _ hxb]
      omega
    · rw [newQubits, if_neg hx]
      have hne : ∀ a ∈ newQubits (seen ++ [x]) qs, x ≠ a := fun a ha h =>
        (mem_newQubits.1 ha).2 (h ▸ List.mem_append_right seen (List.mem_singleton_self x))
      refine List.Pairwise.cons (fun a ha => ?_) ((newQubits_pairwise (seen ++ [x]) qs).imp_of_mem
        fun ha hb hab => ?_)
      · rw [List.idxOf_cons_self, List.idxOf_cons_ne _ (hne a ha)]
        omega
      · rw [List.idxOf_cons_ne _ (hne _ ha), List.idxOf_cons_ne _ (hne _ hb)]
        omega

/-- A segment starts with the allocations of the qubits its instruction refers to first. -/
theorem adaptiveSegment_allocs (P : List Instruction) (i : Instruction) :
    ∃ rest, adaptiveSegment P i =
      (newQubits (firstUses P) i.qubits).map (fun q => Line.instr (allocCall q)) ++ rest :=
  ⟨_, rfl⟩

/-- The qubits an instruction refers to first are allocated right after the lines of the
instructions before it. -/
theorem adaptiveLines_allocs_first {P : List Instruction} {j : Nat} {i : Instruction}
    (hi : P[j]? = some i) :
    ∃ rest, adaptiveLines [] P = adaptiveLines [] (P.take j) ++
      (newQubits (firstUses (P.take j)) i.qubits).map (fun q => Line.instr (allocCall q)) ++ rest := by
  obtain ⟨hsplit, -⟩ := eq_take_cons_drop hi
  obtain ⟨rest, hrest⟩ := adaptiveSegment_allocs (P.take j) i
  refine ⟨rest ++ adaptiveLines (P.take j ++ [i]) (P.drop (j + 1)), ?_⟩
  rw [congrArg (adaptiveLines []) hsplit, adaptiveLines_append, adaptiveLines_cons, List.nil_append,
    hrest]
  simp

/-- A qubit is allocated once if the program refers to it, and otherwise never. -/
theorem count_allocCall {is : List Instr} {P : List Instruction}
    (h : callsTo Runtime.qubitAllocate.name is = (firstUses P).map allocCall) (q : Nat) :
    is.count (allocCall q) = if ∃ i ∈ P, q ∈ i.qubits then 1 else 0 := by
  rw [← count_callsTo rfl, h]
  split
  case isTrue hq =>
    exact List.count_eq_one_of_mem ((nodup_firstUses P).map allocCall_injective)
      (List.mem_map_of_mem (mem_firstUses.2 hq))
  case isFalse hq =>
    refine List.count_eq_zero_of_not_mem fun hm => hq (mem_firstUses.1 ?_)
    obtain ⟨q', hq', heq⟩ := List.mem_map.1 hm
    rwa [← allocCall_injective heq]

/-- What the entry function of a program `P` lowered under the adaptive profile spends. -/
structure ResourceAccounting (g : Generated) (f : Function) (P : List Instruction) : Prop where
  /-- The allocations are of the qubits the program refers to, once each, in the order of
  `firstUses`. -/
  allocs : callsTo Runtime.qubitAllocate.name f.instrs = (firstUses P).map allocCall
  /-- A qubit is allocated once if an instruction refers to it, and otherwise never. -/
  alloc_once : ∀ q, f.instrs.count (allocCall q) = if ∃ i ∈ P, q ∈ i.qubits then 1 else 0
  /-- That order is the order of first reference, operands in order within an instruction. -/
  alloc_order : (firstUses P).Pairwise fun q q' =>
    (P.flatMap (·.qubits)).idxOf q < (P.flatMap (·.qubits)).idxOf q'
  /-- The qubits instruction `j` refers to first are allocated in the block open after the
  lines of the instructions before it, ahead of its own lines. -/
  alloc_first : ∀ j i, P[j]? = some i → ∃ rest, linesOf f.blocks =
    Line.label "entry" :: adaptiveLines [] (P.take j) ++
      (newQubits (firstUses (P.take j)) i.qubits).map (fun q => Line.instr (allocCall q)) ++ rest
  /-- The releases are of the same qubits, in the same order. -/
  releases : callsTo Runtime.qubitRelease.name f.instrs = (firstUses P).map releaseCall
  /-- The releases close the last block, right before the return. -/
  release_last : ∃ pre, linesOf f.blocks = pre ++ ((firstUses P).map releaseCall ++ [Instr.ret]).map Line.instr
  /-- The measurements are one per measured pair, in program order, the `k`-th binding result `k`. -/
  measures : callsTo Runtime.m.name f.instrs =
    ((measuredPairs P).zipIdx).map fun pk => measureCall pk.1.1 pk.2
  /-- The attributes count the qubits allocated and the pairs measured. -/
  attributes : f.attributes = adaptiveAttributes (firstUses P).length (measuredPairs P).length
  required_qubits : (firstUses P).length < Word.size → g.requiredQubits = (firstUses P).length
  required_results : (measuredPairs P).length < Word.size → g.requiredResults = (measuredPairs P).length

/-- **Resources under the adaptive profile.** Every program that lowers under the adaptive
profile allocates each qubit it refers to once, where it first refers to it, releases them all in
the same order right before the return, binds one numbered result per measured pair, and
declares both counts. -/
theorem entryPoint?_resourceAccounting {llvm : Llvm} {o : Options} {src : Source} {g : Generated}
    (hp : o.profile = .adaptive) (h : translate llvm o src = .ok g) :
    ∃ f, g.module.entryPoint? = some f ∧ ResourceAccounting g f src.instructions := by
  obtain ⟨f, hf, -, hattr, hlines, -⟩ := entryPoint?_generate_adaptive hp (translate_eq_ok h).1
  set P := src.instructions
  set E := adaptiveEpilogue src.bitCount P
  have hinstrs : f.instrs = (adaptiveLines [] P).filterMap Line.instr? ++ E := by
    rw [Function.instrs, ← instrs_linesOf, hlines, List.filterMap_append, List.filterMap_cons_none rfl,
      filterMap_instr?_map]
  have hattr' : f.attributes = adaptiveAttributes (firstUses P).length (measuredPairs P).length := by
    rw [hattr, length_measuredBits]
  have hallocs : callsTo Runtime.qubitAllocate.name f.instrs = (firstUses P).map allocCall := by
    rw [hinstrs, callsTo_adaptive_of_uncalled uncalled_qubitAllocate (by decide),
      callsTo_map callee?_allocCall, if_pos rfl, callsTo_map callee?_releaseCall, if_neg (by decide),
      List.append_nil]
  refine ⟨f, hf, ⟨hallocs, count_allocCall hallocs, newQubits_pairwise [] _, ?alloc_first, ?releases,
    ?release_last, ?measures, hattr', (required_eq hf hattr').1, (required_eq hf hattr').2⟩⟩
  case alloc_first =>
    intro j i hi
    obtain ⟨rest, hrest⟩ := adaptiveLines_allocs_first hi
    refine ⟨rest ++ E.map Line.instr, ?_⟩
    rw [hlines, hrest]
    simp
  case releases =>
    rw [hinstrs, callsTo_adaptive_of_uncalled uncalled_qubitRelease (by decide),
      callsTo_map callee?_allocCall, if_neg (by decide), callsTo_map callee?_releaseCall, if_pos rfl,
      List.nil_append]
  case release_last =>
    refine ⟨Line.label "entry" :: adaptiveLines [] P ++ (zeroCalls src.bitCount (measuredBits P) ++
      recordingCalls ((List.range src.bitCount).map (recordedResult (measuredBits P)))).map Line.instr, ?_⟩
    rw [hlines]
    simp [E, adaptiveEpilogue, releaseCalls_qubitHandle]
  case measures =>
    rw [hinstrs, callsTo_append, callsTo_m_adaptiveLines, callsTo_adaptiveEpilogue (by decide),
      callsTo_map callee?_releaseCall, if_neg (by decide)]
    simp [measuredBits]

theorem entryPoint?_resourceAccounting_feedForward :
    (Options.ofProfile .adaptive).profile = .adaptive ∧
      ∃ g, translate Llvm.acceptingAll (Options.ofProfile .adaptive) (Program.feedForward).toSource =
          Except.ok g ∧
        ∃ f, g.module.entryPoint? = some f ∧ ResourceAccounting g f (Program.feedForward).toSource.instructions :=
  ⟨rfl, _, rfl, @entryPoint?_resourceAccounting Llvm.acceptingAll (Options.ofProfile .adaptive)
    (Program.feedForward).toSource _ rfl rfl⟩

end QirGen
