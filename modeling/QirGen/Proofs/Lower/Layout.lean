import QirGen.Proofs.Lower.Names
import QirGen.Proofs.Ir.Scan

/-!
# The layout of the lines lowering writes

Under the adaptive profile the entry function is the entry label, the segment of each
instruction and the epilogue (`entryPoint?_generate_adaptive`). A segment is calls, except
for a region, whose tests branch to the next test or to the join block and whose body
branches to the join block. So segments chain after one another (`Tame`), every branch stays
inside its region and goes forward (`Ahead`), and the blocks that no branch passes are the
entry and the join blocks (`joinLabels`).
-/

namespace QirGen

open Ir Circuit Lowering

/-- Whether an instruction is a call. -/
def Ir.Instr.isCall : Instr → Bool
  | .call .. => true
  | _ => false

/-- Lines that may follow lines ending without a terminator: chained, starting with an
instruction and ending without a terminator. -/
structure Tame (L : List Line) : Prop where
  chain : L.IsChain Line.Adjacent
  head_not_label : ∀ x ∈ L.head?, x.isLabel = false
  last_not_terminator : ∀ x ∈ L.getLast?, x.isTerminator = false

theorem tame_nil : Tame [] := ⟨List.isChain_nil, by simp, by simp⟩

theorem Tame.append {L M : List Line} (hL : Tame L) (hM : Tame M) : Tame (L ++ M) := by
  refine ⟨List.isChain_append.2 ⟨hL.chain, hM.chain, fun x hx y hy => ?_⟩, ?_, ?_⟩
  · -- the seam: no terminator before it, no label after it
    refine ⟨by rw [hL.last_not_terminator x hx, hM.head_not_label y hy], fun l hl => ?_⟩
    simpa [hl, Line.isLabel] using hM.head_not_label y hy
  · intro x hx
    rw [List.head?_append] at hx
    cases hh : L.head? with
    | none => exact hM.head_not_label x (by simpa [hh] using hx)
    | some z => exact hL.head_not_label x (by simpa [hh] using hx)
  · intro x hx
    rw [List.getLast?_append] at hx
    cases hh : M.getLast? with
    | none => exact hL.last_not_terminator x (by simpa [hh] using hx)
    | some z => exact hM.last_not_terminator x (by simpa [hh] using hx)

/-- Calls chain after anything that ends without a terminator. -/
theorem tame_calls : ∀ {is : List Instr}, (∀ i ∈ is, i.isCall = true) → Tame (is.map .instr)
  | [], _ => tame_nil
  | i :: is, h => by
    have hi : i.isTerminator = false := by
      have := h i List.mem_cons_self
      cases i <;> simp_all [Instr.isCall]
    have hrest := tame_calls fun j hj => h j (List.mem_cons_of_mem i hj)
    have hone : Tame [.instr i] :=
      ⟨List.isChain_singleton _, by simp [Line.isLabel], by simp [Line.isTerminator, hi]⟩
    simpa using hone.append hrest

theorem GateKind.adaptiveCalls_isCall (kind : GateKind) (n : Nat) (i : Instruction) :
    ∀ x ∈ kind.adaptiveCalls n i, x.isCall = true := by
  intro x hx
  unfold adaptiveCalls at hx
  split at hx
  -- each measured pair becomes one call of `m`
  case h_1 =>
    obtain ⟨_, -, rfl⟩ := List.mem_map.1 hx
    rfl
  case h_4 => simp at hx
  all_goals
    rw [List.mem_singleton.1 hx]
    rfl

theorem Circuit.Instruction.adaptiveCalls_isCall (i : Instruction) (n : Nat) :
    ∀ x ∈ i.adaptiveCalls n, x.isCall = true := by
  cases hk : GateKind.ofName? i.name with
  | none => simp [Instruction.adaptiveCalls, hk]
  | some kind => simpa [Instruction.adaptiveCalls, hk] using kind.adaptiveCalls_isCall n i

theorem allocCalls_isCall (qs : List Nat) : ∀ x ∈ qs.map allocCall, x.isCall = true := by
  simp [allocCall, Instr.isCall]

/-- The branch to a join block, and the join block it starts. -/
theorem tame_br_label (l : String) : Tame [.instr (.br l), .label l] :=
  ⟨by simp [Line.Adjacent, Line.isTerminator, Line.isLabel, Line.targets, Instr.targets,
      Instr.isTerminator],
    by simp [Line.isLabel], by simp [Line.isTerminator]⟩

/-- The tests of a region chain: each read, then the branch on it, then the block it
branches to on a match. -/
theorem tame_testLines (r : Nat) (join : String) :
    ∀ (k : Nat) (ts : List ((Value × Bool) × String)) {M : List Line}, Tame M →
      Tame (testLines r join k ts ++ M)
  | _, [], _, hM => hM
  | k, ((v, e), t) :: ts, M, hM => by
    have hrest := tame_testLines r join (k + 1) ts hM
    refine ⟨?_, by simp [testLines, Line.isLabel], ?_⟩
    · simp only [testLines, List.cons_append, List.isChain_cons_cons]
      refine ⟨by simp [Line.Adjacent, Line.isTerminator, Line.isLabel], ?_, hrest.chain.cons ?_⟩
      · -- the branch on the read goes, on a match, to the block that starts next
        cases e <;> simp [Line.Adjacent, Line.isTerminator, Line.isLabel, Line.targets,
          Instr.targets, Instr.isTerminator]
      · intro y hy
        exact ⟨by simp [Line.isTerminator, hrest.head_not_label y hy],
          fun l hl => by simpa [hl, Line.isLabel] using hrest.head_not_label y hy⟩
    · intro x hx
      simp only [testLines, List.cons_append, List.getLast?_cons_cons] at hx
      cases hl : (testLines r join (k + 1) ts ++ M).getLast? with
      | none => simp [List.getLast?_cons, hl] at hx; simp [← hx, Line.isTerminator]
      | some z =>
        simp [List.getLast?_cons, hl] at hx
        exact hx ▸ hrest.last_not_terminator z hl

theorem tame_regionLines (r : Nat) (tests : List (Value × Bool)) {body : List Instr}
    (hbody : ∀ x ∈ body, x.isCall = true) : Tame (regionLines r tests body) := by
  unfold regionLines
  rw [List.append_assoc]
  exact tame_testLines r _ 0 _ ((tame_calls hbody).append (tame_br_label _))

/-- The lines lowering one instruction chain after any lines that end without a
terminator. -/
theorem tame_adaptiveSegment (P : List Instruction) (i : Instruction) :
    Tame (adaptiveSegment P i) := by
  unfold adaptiveSegment
  refine Tame.append (by simpa [Function.comp_def] using tame_calls (allocCalls_isCall _)) ?_
  cases i.condition with
  | none => exact tame_calls (i.adaptiveCalls_isCall _)
  | some c => exact tame_regionLines _ _ (i.adaptiveCalls_isCall _)

theorem tame_adaptiveLines : ∀ (P is : List Instruction), Tame (adaptiveLines P is)
  | _, [] => tame_nil
  | P, i :: is => (tame_adaptiveSegment P i).append (tame_adaptiveLines (P ++ [i]) is)

/-! ### Branches stay inside their region -/

/-- The labels of the blocks that no branch passes, in a program with `G` guarded
instructions: the entry block and the join block of each region. -/
def joinLabels (G : Nat) : List String :=
  (Symbol.entry :: (List.range G).map Symbol.join).map Symbol.text

/-- Whether a label is one of `joinLabels G`. -/
def isJoin (G : Nat) (l : String) : Bool := decide (l ∈ joinLabels G)

theorem isJoin_text (G : Nat) (s : Symbol) :
    isJoin G s.text = decide (s ∈ Symbol.entry :: (List.range G).map Symbol.join) := by
  simp only [isJoin, joinLabels, List.mem_map_of_injective Symbol.text_injective]

/-- The inner labels of a region (its test blocks and its body) are never join labels. -/
theorem isJoin_testTargets {G r n : Nat} : ∀ t ∈ testTargets r n, isJoin G t = false := by
  intro t ht
  simp only [testTargets, List.mem_append, List.mem_map, List.mem_range, List.mem_singleton] at ht
  rcases ht with ⟨k, -, rfl⟩ | rfl
  · rw [show condLabel r (k + 1) = (Symbol.cond r (k + 1)).text from rfl, isJoin_text]
    simp
  · rw [show thenLabel r = (Symbol.body r).text from rfl, isJoin_text]
    simp

variable {cut : String → Bool}

theorem targets_of_isCall {i : Instr} (h : i.isCall = true) : i.targets = [] := by
  cases i <;> simp_all [Instr.isCall]

theorem ahead_calls : ∀ {is : List Instr}, (∀ i ∈ is, i.isCall = true) → Ahead cut (is.map .instr)
  | [], _ => trivial
  | i :: is, h =>
    ⟨by simp [Line.targets, targets_of_isCall (h i List.mem_cons_self)],
      ahead_calls fun j hj => h j (List.mem_cons_of_mem i hj)⟩

theorem upToCut_calls {is : List Instr} (M : List Line) :
    upToCut cut (is.map .instr ++ M) = is.map .instr ++ upToCut cut M :=
  upToCut_instrs is M

/-- The join label, ahead of the tests of a region, stays within reach across them. -/
theorem join_mem_upToCut_testLines {r : Nat} {join : String} {M : List Line}
    (hM : .label join ∈ upToCut cut M) :
    ∀ (k : Nat) (ts : List ((Value × Bool) × String)), (∀ t ∈ ts.map Prod.snd, cut t = false) →
      .label join ∈ upToCut cut (testLines r join k ts ++ M)
  | _, [], _ => hM
  | k, ((v, e), t) :: ts, hts => by
    have ht : cut t = false := hts t (by simp)
    have := @join_mem_upToCut_testLines r join M hM (k + 1) ts fun t' ht' => hts t' (by simp [ht'])
    simp [testLines, upToCut, ht, this]

/-- The tests of a region branch forward: to the block that starts next, or to the join
block ahead. -/
theorem ahead_testLines {r : Nat} {join : String} {M : List Line} (hM : Ahead cut M)
    (hjoin : .label join ∈ upToCut cut M) :
    ∀ (k : Nat) (ts : List ((Value × Bool) × String)), (∀ t ∈ ts.map Prod.snd, cut t = false) →
      Ahead cut (testLines r join k ts ++ M)
  | _, [], _ => hM
  | k, ((v, e), t) :: ts, hts => by
    have ht : cut t = false := hts t (by simp)
    have hts' : ∀ t' ∈ ts.map Prod.snd, cut t' = false := fun t' ht' => hts t' (by simp [ht'])
    have hrest := @ahead_testLines r join M hM hjoin (k + 1) ts hts'
    have hreach := join_mem_upToCut_testLines (r := r) hjoin (k + 1) ts hts'
    refine ⟨by simp [Line.targets], ?_, by simp [Line.targets], hrest⟩
    cases e <;> simp [Line.targets, Instr.targets, upToCut, ht, hreach]

theorem ahead_regionLines {r : Nat} {tests : List (Value × Bool)} {body : List Instr}
    (hinner : ∀ t ∈ testTargets r tests.length, cut t = false) (hbody : ∀ x ∈ body, x.isCall = true) :
    Ahead cut (regionLines r tests body) := by
  unfold regionLines
  rw [List.append_assoc]
  have htail : Ahead cut (body.map .instr ++ [.instr (.br (continueLabel r)), .label (continueLabel r)]) :=
    (ahead_calls hbody).append
      ⟨by simp [Line.targets, Instr.targets, upToCut], by simp [Line.targets], trivial⟩
  refine ahead_testLines htail (by simp [upToCut_calls, upToCut]) 0 _ fun t ht => hinner t ?_
  obtain ⟨p, hp, rfl⟩ := List.mem_map.1 ht
  exact (List.of_mem_zip hp).2

theorem ahead_adaptiveSegment (G : Nat) (P : List Instruction) (i : Instruction) :
    Ahead (isJoin G) (adaptiveSegment P i) := by
  unfold adaptiveSegment
  refine Ahead.append (by simpa [Function.comp_def] using ahead_calls (allocCalls_isCall _)) ?_
  cases i.condition with
  | none => exact ahead_calls (i.adaptiveCalls_isCall _)
  | some c => exact ahead_regionLines isJoin_testTargets (i.adaptiveCalls_isCall _)

theorem ahead_adaptiveLines (G : Nat) : ∀ (P is : List Instruction), Ahead (isJoin G) (adaptiveLines P is)
  | _, [] => trivial
  | P, i :: is => (ahead_adaptiveSegment G P i).append (ahead_adaptiveLines G (P ++ [i]) is)

/-! ### Labels, as symbols -/

/-- The labels of region `r` with `n ≥ 1` tests, in order: the blocks of tests `1` to
`n - 1`, the body, the join block. -/
def regionLabels (r n : Nat) : List Symbol :=
  ((List.range (n - 1)).map fun k => .cond r (k + 1)) ++ [.body r, .join r]

/-- The labels the segment of `i` opens after the instructions `P`. -/
def segmentLabels (P : List Instruction) (i : Instruction) : List Symbol :=
  match i.condition with
  | none => []
  | some c => regionLabels (guardedCount P) c.bits.length

/-- The labels the segments of `is` open after the instructions `P`. -/
def labelsFrom (P : List Instruction) : List Instruction → List Symbol
  | [] => []
  | i :: is => segmentLabels P i ++ labelsFrom (P ++ [i]) is

/-- The region a label belongs to. -/
def Symbol.region? : Symbol → Option Nat
  | .cond r _ | .body r | .join r => some r
  | _ => none

theorem labels_calls (is : List Instr) : (is.map Line.instr).filterMap Line.label? = [] := by
  simp [List.filterMap_map, Function.comp_def, Line.label?]

theorem labels_testLines (r : Nat) (join : String) :
    ∀ (k : Nat) (ts : List ((Value × Bool) × String)),
      (testLines r join k ts).filterMap Line.label? = ts.map Prod.snd
  | _, [] => rfl
  | k, ((v, e), t) :: ts => by
    simp [testLines, Line.label?, List.filterMap_cons, labels_testLines r join (k + 1) ts]

theorem testTargets_eq_text (r n : Nat) :
    testTargets r n = (((List.range (n - 1)).map fun k => Symbol.cond r (k + 1)) ++ [Symbol.body r]).map
      Symbol.text := by
  simp [testTargets, Function.comp_def, Symbol.text]

theorem length_testTargets (r n : Nat) : (testTargets r n).length = n - 1 + 1 := by
  simp [testTargets]

/-- A region with at least one test opens its test blocks, its body and its join block. -/
theorem labels_regionLines (r : Nat) {tests : List (Value × Bool)} (hn : tests ≠ [])
    (body : List Instr) :
    (regionLines r tests body).filterMap Line.label? = (regionLabels r tests.length).map Symbol.text := by
  have hlen : (testTargets r tests.length).length = tests.length := by
    rw [length_testTargets]
    have := List.length_pos_iff.2 hn
    omega
  simp only [regionLines, List.filterMap_append, labels_testLines, labels_calls,
    List.map_snd_zip (le_of_eq hlen)]
  simp [testTargets_eq_text, regionLabels, Line.label?, Symbol.text, List.filterMap_cons]

theorem labels_adaptiveSegment {P : List Instruction} {i : Instruction} (hg : GuardChecked P i) :
    (adaptiveSegment P i).filterMap Line.label? = (segmentLabels P i).map Symbol.text := by
  unfold adaptiveSegment segmentLabels
  cases hc : i.condition with
  | none => simp [List.filterMap_append, Function.comp_def, Line.label?]
  | some c =>
    obtain ⟨-, hne, -⟩ := hg c hc
    have htests : guardTests (measuredBits P) c ≠ [] := by
      simpa [guardTests, ← List.length_pos_iff, Condition.length_expectations] using hne
    rw [List.filterMap_append, labels_regionLines _ htests]
    simp [List.filterMap_map, Function.comp_def, Line.label?, guardTests, Condition.length_expectations]

theorem labels_adaptiveLines :
    ∀ {P is : List Instruction}, GuardsChecked P is →
      (adaptiveLines P is).filterMap Line.label? = (labelsFrom P is).map Symbol.text
  | _, [], _ => rfl
  | _, _ :: _, ⟨hg, hgs⟩ => by
    simp [adaptiveLines, labelsFrom, List.filterMap_append, labels_adaptiveSegment hg,
      labels_adaptiveLines hgs]

theorem region?_of_mem_regionLabels {r n : Nat} {s : Symbol} (hs : s ∈ regionLabels r n) :
    s.region? = some r := by
  simp only [regionLabels, List.mem_append, List.mem_map, List.mem_cons, List.not_mem_nil] at hs
  rcases hs with ⟨k, -, rfl⟩ | rfl | rfl | h
  all_goals first | rfl | exact absurd h id

theorem nodup_regionLabels (r n : Nat) : (regionLabels r n).Nodup := by
  refine List.nodup_append.2 ⟨(List.nodup_range).map fun a b h => by simpa using h, by simp, ?_⟩
  simp

/-- The labels of later regions are new: each belongs to one region, opened once. -/
theorem nodup_labelsFrom :
    ∀ (P is : List Instruction), (labelsFrom P is).Nodup ∧
      ∀ s ∈ labelsFrom P is, ∃ r, s.region? = some r ∧ guardedCount P ≤ r
  | _, [] => ⟨List.nodup_nil, by simp [labelsFrom]⟩
  | P, i :: is => by
    obtain ⟨hnd, hreg⟩ := nodup_labelsFrom (P ++ [i]) is
    have hseg : ∀ s ∈ segmentLabels P i, s.region? = some (guardedCount P) ∧
        guardedCount (P ++ [i]) = guardedCount P + 1 := by
      intro s hs
      unfold segmentLabels at hs
      cases hc : i.condition with
      | none => simp [hc] at hs
      | some c =>
        rw [hc] at hs
        exact ⟨region?_of_mem_regionLabels hs, by simp [guardedCount_append_singleton, hc]⟩
    refine ⟨List.nodup_append.2 ⟨?_, hnd, ?_⟩, ?_⟩
    · unfold segmentLabels
      cases i.condition <;> simp [nodup_regionLabels]
    · -- a label of this region and one of a later region belong to different regions
      intro a ha b hb hab
      subst hab
      obtain ⟨ha, hG⟩ := hseg a ha
      obtain ⟨r, hr, hle⟩ := hreg a hb
      rw [ha] at hr
      cases hr
      omega
    · intro s hs
      rcases List.mem_append.1 hs with hs | hs
      · exact ⟨_, (hseg s hs).1, le_refl _⟩
      · obtain ⟨r, hr, hle⟩ := hreg s hs
        exact ⟨r, hr, le_trans (by simp [guardedCount_append_singleton]) hle⟩

/-! ### Bound names, as symbols -/

/-- The names the segment of `i` binds after the instructions `P`: the handles it allocates,
then the results it measures, or the reads of its region. -/
def segmentBound (P : List Instruction) (i : Instruction) : List Symbol :=
  (newQubits (firstUses P) i.qubits).map .qubit ++
    match i.condition with
    | none => (List.range' (measuredBits P).length (measuredBits [i]).length).map .result
    | some c => (List.range c.bits.length).map (.test (guardedCount P))

/-- The names the segments of `is` bind after the instructions `P`. -/
def boundFrom (P : List Instruction) : List Instruction → List Symbol
  | [] => []
  | i :: is => segmentBound P i ++ boundFrom (P ++ [i]) is

/-- The names lines bind, in order. -/
def boundOf (L : List Line) : List String := (L.filterMap Line.instr?).filterMap Instr.bound?

@[simp] theorem boundOf_append (L M : List Line) : boundOf (L ++ M) = boundOf L ++ boundOf M := by
  simp [boundOf, List.filterMap_append]

theorem boundOf_instrs (is : List Instr) : boundOf (is.map Line.instr) = is.filterMap Instr.bound? := by
  simp [boundOf, List.filterMap_map, Function.comp_def, Line.instr?]

theorem measuredBits_singleton (i : Instruction) :
    measuredBits [i] = if i.isMeasure then (i.qubits.zip i.clbits).map Prod.snd else [] := by
  simp [measuredBits]

theorem isMeasure_of_ofName?_none {i : Instruction} (hk : GateKind.ofName? i.name = none) :
    i.isMeasure = false := by
  cases hm : i.isMeasure
  · rfl
  · have : GateKind.ofName? i.name = some .measure := by
      rw [GateKind.ofName?_eq_measure]
      simpa [Instruction.isMeasure, or_assoc] using hm
    simp [hk] at this

/-- The calls of an instruction bind the results of its measured pairs, numbered on from `n`. -/
theorem bound_adaptiveCalls (i : Instruction) (n : Nat) :
    (i.adaptiveCalls n).filterMap Instr.bound? =
      (List.range' n (measuredBits [i]).length).map fun k => (Symbol.result k).text := by
  cases hk : GateKind.ofName? i.name with
  | none => simp [Instruction.adaptiveCalls, hk, measuredBits_singleton, isMeasure_of_ofName?_none hk]
  | some kind =>
    have hiff := GateKind.eq_measure_iff hk
    simp only [Instruction.adaptiveCalls, hk, Option.map_some, Option.getD_some]
    by_cases hm : kind = .measure
    · subst hm
      have hmeas : i.isMeasure = true := hiff.1 rfl
      simp only [GateKind.adaptiveCalls, measuredBits_singleton, hmeas, if_true, List.length_map]
      rw [← List.zipIdx_map_snd, List.map_map, List.filterMap_map]
      simp [Function.comp_def, Symbol.text]
    · have hmeas : i.isMeasure = false := by simpa [hiff] using hm
      cases kind <;> simp_all [GateKind.adaptiveCalls, GateKind.callee?, measuredBits_singleton]

theorem bound_testLines (r : Nat) (join : String) :
    ∀ (k : Nat) (ts : List ((Value × Bool) × String)),
      boundOf (testLines r join k ts) = (List.range' k ts.length).map fun j => (Symbol.test r j).text
  | _, [] => rfl
  | k, ((v, e), t) :: ts => by
    rw [List.length_cons, List.range'_succ, List.map_cons, ← bound_testLines r join (k + 1) ts]
    simp [testLines, boundOf, Line.instr?, Instr.bound?, Symbol.text, List.filterMap_cons]

theorem bound_adaptiveSegment {P : List Instruction} {i : Instruction} (hg : GuardChecked P i) :
    boundOf (adaptiveSegment P i) = (segmentBound P i).map Symbol.text := by
  unfold adaptiveSegment segmentBound
  have hallocs : boundOf ((newQubits (firstUses P) i.qubits).map fun q => Line.instr (allocCall q)) =
      (newQubits (firstUses P) i.qubits).map fun q => (Symbol.qubit q).text := by
    rw [show ((newQubits (firstUses P) i.qubits).map fun q => Line.instr (allocCall q)) =
      ((newQubits (firstUses P) i.qubits).map allocCall).map Line.instr by simp [Function.comp_def],
      boundOf_instrs]
    simp [List.filterMap_map, Function.comp_def, allocCall, Symbol.text]
  rw [boundOf_append, hallocs]
  cases hc : i.condition with
  | none => simp [boundOf_instrs, bound_adaptiveCalls, Function.comp_def]
  | some c =>
    obtain ⟨hnm, hne, -⟩ := hg c hc
    -- a guarded instruction measures nothing, so its region binds only its reads
    have hbody : (i.adaptiveCalls (measuredBits P).length).filterMap Instr.bound? = [] := by
      simp [bound_adaptiveCalls, measuredBits_singleton, hnm]
    have hzip : ((guardTests (measuredBits P) c).zip
        (testTargets (guardedCount P) (guardTests (measuredBits P) c).length)).length = c.bits.length := by
      have : c.bits.length ≠ 0 := by simpa using hne
      simp [guardTests, Condition.length_expectations, length_testTargets]
      omega
    simp only [regionLines, boundOf_append, bound_testLines, hzip, boundOf_instrs, hbody]
    simp [boundOf, Line.instr?, Instr.bound?, List.range_eq_range', Function.comp_def]

theorem measuredBits_snoc (P : List Instruction) (i : Instruction) :
    measuredBits (P ++ [i]) = measuredBits P ++ measuredBits [i] := by
  simp [measuredBits]

/-- A name the segments after the instructions `P` may still bind: a handle of a qubit not
yet allocated, a result not yet numbered, a read of a region not yet opened. -/
def Symbol.FreshAfter (P : List Instruction) : Symbol → Prop
  | .qubit q => q ∉ firstUses P
  | .result k => (measuredBits P).length ≤ k
  | .test r _ => guardedCount P ≤ r
  | _ => False

theorem Symbol.FreshAfter.of_snoc {P : List Instruction} {i : Instruction} {s : Symbol}
    (h : s.FreshAfter (P ++ [i])) : s.FreshAfter P := by
  cases s <;> simp_all [FreshAfter, firstUses_append_singleton, measuredBits_snoc,
    guardedCount_append_singleton] <;> omega

theorem Symbol.FreshAfter.isLabel_eq_false {P : List Instruction} {s : Symbol}
    (h : s.FreshAfter P) : s.isLabel = false := by
  cases s <;> simp_all [FreshAfter, Symbol.isLabel]

theorem nodup_segmentBound (P : List Instruction) (i : Instruction) : (segmentBound P i).Nodup := by
  have hq : ((newQubits (firstUses P) i.qubits).map Symbol.qubit).Nodup :=
    (nodup_newQubits _ _).map fun _ _ h => Symbol.qubit.inj h
  unfold segmentBound
  -- handles, results and reads are symbols of different kinds
  cases i.condition with
  | none =>
    refine List.nodup_append.2 ⟨hq, List.Nodup.map (fun _ _ h => Symbol.result.inj h) List.nodup_range', ?_⟩
    simp only [List.mem_map]
    rintro _ ⟨_, -, rfl⟩ _ ⟨_, -, rfl⟩
    simp
  | some c =>
    refine List.nodup_append.2 ⟨hq, List.Nodup.map (fun _ _ h => (Symbol.test.inj h).2) List.nodup_range, ?_⟩
    simp only [List.mem_map]
    rintro _ ⟨_, -, rfl⟩ _ ⟨_, -, rfl⟩
    simp

/-- What a segment binds was fresh before it and is taken after it. -/
theorem freshAfter_of_mem_segmentBound {P : List Instruction} {i : Instruction} {s : Symbol}
    (hs : s ∈ segmentBound P i) : s.FreshAfter P ∧ ¬ s.FreshAfter (P ++ [i]) := by
  unfold segmentBound at hs
  cases hc : i.condition with
  | none =>
    simp only [hc, List.mem_append, List.mem_map, List.mem_range'_1] at hs
    rcases hs with ⟨q, hq, rfl⟩ | ⟨k, hk, rfl⟩
    · rw [mem_newQubits] at hq
      simp [Symbol.FreshAfter, firstUses_append_singleton, mem_newQubits, hq.1, hq.2]
    · simp only [Symbol.FreshAfter, measuredBits_snoc, List.length_append]
      omega
  | some c =>
    simp only [hc, List.mem_append, List.mem_map, List.mem_range] at hs
    rcases hs with ⟨q, hq, rfl⟩ | ⟨k, -, rfl⟩
    · rw [mem_newQubits] at hq
      simp [Symbol.FreshAfter, firstUses_append_singleton, mem_newQubits, hq.1, hq.2]
    · simp [Symbol.FreshAfter, guardedCount_append_singleton, hc]

/-- The segments of a run bind each name once, and only names fresh before the run. -/
theorem nodup_boundFrom :
    ∀ (P is : List Instruction), (boundFrom P is).Nodup ∧ ∀ s ∈ boundFrom P is, s.FreshAfter P
  | _, [] => ⟨List.nodup_nil, by simp [boundFrom]⟩
  | P, i :: is => by
    obtain ⟨hnd, hfresh⟩ := nodup_boundFrom (P ++ [i]) is
    refine ⟨List.nodup_append.2 ⟨nodup_segmentBound P i, hnd, ?_⟩, ?_⟩
    · -- a later segment binds only names still fresh after this one
      rintro s hs _ hs' rfl
      exact (freshAfter_of_mem_segmentBound hs).2 (hfresh s hs')
    · intro s hs
      rcases List.mem_append.1 hs with hs | hs
      · exact (freshAfter_of_mem_segmentBound hs).1
      · exact (hfresh s hs).of_snoc

theorem bound_adaptiveLines :
    ∀ {P is : List Instruction}, GuardsChecked P is →
      boundOf (adaptiveLines P is) = (boundFrom P is).map Symbol.text
  | _, [], _ => rfl
  | _, _ :: _, ⟨hg, hgs⟩ => by
    simp [adaptiveLines, boundFrom, bound_adaptiveSegment hg, bound_adaptiveLines hgs]

/-! ### The scope of what the lines read -/

section Scope

variable {cut : String → Bool}

theorem outer_subset_step (σ : Scope) : ∀ x : Line, σ.outer ⊆ (σ.step cut x).outer
  | .label _ => List.Subset.refl _
  | .instr i => by
    cases hb : i.bound? <;> cases hc : σ.inCut <;> simp [Scope.step, hb, hc]

theorem outer_subset_foldl : ∀ (L : List Line) (σ : Scope), σ.outer ⊆ (L.foldl (Scope.step cut) σ).outer
  | [], _ => List.Subset.refl _
  | x :: L, σ => List.Subset.trans (outer_subset_step σ x) (outer_subset_foldl L _)

/-- Lines that read only names already in the outer scope are scoped: the outer scope only
grows. -/
theorem scoped_of_uses_outer : ∀ {L : List Line} {σ : Scope},
    (∀ i ∈ L.filterMap Line.instr?, ∀ n ∈ i.uses, n ∈ σ.outer) → Scoped cut σ L
  | [], _, _ => trivial
  | x :: L, σ, h => by
    refine ⟨?_, scoped_of_uses_outer fun i hi n hn => outer_subset_step σ x (h i ?_ n hn)⟩
    · cases x with
      | label _ => trivial
      | instr i => exact fun n hn => .inl (h i (by simp [Line.instr?]) n hn)
    · cases x <;> simp_all [Line.instr?, List.filterMap_cons]

/-- A chain of tests reads each bit where the outer scope holds it, and branches on the read
just made. -/
theorem scoped_testLines (r : Nat) (join : String) :
    ∀ (k : Nat) (ts : List ((Value × Bool) × String)) (σ : Scope),
      (∀ t ∈ ts, ∀ n ∈ [t.1.1].filterMap Value.name?, n ∈ σ.outer) →
      Scoped cut σ (testLines r join k ts)
  | _, [], _, _ => trivial
  | k, ((v, e), t) :: ts, σ, h => by
    simp only [testLines, Scoped]
    refine ⟨fun n hn => .inl (h _ List.mem_cons_self n (by simpa [Instr.uses] using hn)), ?_, trivial, ?_⟩
    · intro n hn
      simp only [Instr.uses, List.filterMap_cons, Value.name?, List.filterMap_nil,
        List.mem_singleton] at hn
      subst hn
      simp [Scope.step]
    · -- the read, the branch and the next label keep the outer scope
      exact scoped_testLines r join (k + 1) ts _ fun t' ht' n hn =>
        outer_subset_step _ _ <| outer_subset_step _ _ <| outer_subset_step σ _ <|
          h t' (List.mem_cons_of_mem _ ht') n hn

theorem scoped_regionLines {r : Nat} {tests : List (Value × Bool)} {body : List Instr} {σ : Scope}
    (ht : ∀ t ∈ tests, ∀ n ∈ [t.1].filterMap Value.name?, n ∈ σ.outer)
    (hb : ∀ i ∈ body, ∀ n ∈ i.uses, n ∈ σ.outer) :
    Scoped cut σ (regionLines r tests body) := by
  unfold regionLines
  rw [List.append_assoc, scoped_append]
  refine ⟨scoped_testLines r _ 0 _ σ fun t htz n hn => ht t.1 (List.of_mem_zip htz).1 n hn, ?_⟩
  refine scoped_of_uses_outer fun i hi n hn => outer_subset_foldl _ σ ?_
  simp [List.filterMap_append, List.filterMap_map, Function.comp_def, Line.instr?,
    List.filterMap_cons] at hi
  rcases hi with hi | rfl
  · exact hb i hi n hn
  · simp [Instr.uses] at hn

end Scope

/-- The calls of an instruction read only the handles of its qubits. -/
theorem uses_adaptiveCalls (i : Instruction) (n : Nat) :
    ∀ x ∈ i.adaptiveCalls n, ∀ u ∈ x.uses, ∃ q ∈ i.qubits, u = (Symbol.qubit q).text := by
  unfold Instruction.adaptiveCalls
  cases GateKind.ofName? i.name with
  | none => simp
  | some kind =>
    intro x hx u hu
    simp only [Option.map_some, Option.getD_some] at hx
    unfold GateKind.adaptiveCalls at hx
    split at hx
    case h_1 =>
      obtain ⟨pk, hpk, rfl⟩ := List.mem_map.1 hx
      simp only [Instr.uses, qubitHandle, List.filterMap_cons, Value.name?, List.filterMap_nil,
        List.mem_singleton] at hu
      exact ⟨pk.1.1, (List.of_mem_zip (List.fst_mem_of_mem_zipIdx hpk)).1, hu⟩
    case h_2 => simp [List.mem_singleton.1 hx, Instr.uses] at hu
    case h_3 =>
      -- a gate reads the handles of its qubits, after its constant parameters
      rw [List.mem_singleton.1 hx] at hu
      simp [Instr.uses, List.filterMap_append, List.filterMap_map, Function.comp_def, Value.name?,
        qubitHandle] at hu
      obtain ⟨q, hq, rfl⟩ := hu
      exact ⟨q, hq, rfl⟩
    case h_4 => simp at hx

theorem mem_firstUses_snoc {P : List Instruction} {i : Instruction} {q : Nat} (hq : q ∈ i.qubits) :
    q ∈ firstUses (P ++ [i]) :=
  mem_firstUses.2 ⟨i, by simp, hq⟩

theorem guardedCount_append (P Q : List Instruction) :
    guardedCount (P ++ Q) = guardedCount P + guardedCount Q := by
  simp [guardedCount]

theorem isJoin_continueLabel {G r : Nat} (h : r < G) : isJoin G (continueLabel r) = true := by
  rw [show continueLabel r = (Symbol.join r).text from rfl, isJoin_text]
  simp [h]

/-- Between segments the scan is in a marked block, whose outer scope holds the handle of every
qubit allocated and the result of every measurement made so far. -/
structure ScopeAfter (σ : Scope) (P : List Instruction) : Prop where
  in_cut : σ.inCut = true
  qubits : ∀ q ∈ firstUses P, (Symbol.qubit q).text ∈ σ.outer
  results : ∀ k < (measuredBits P).length, (Symbol.result k).text ∈ σ.outer

section ScopeAfter

variable {G : Nat} {σ : Scope} {P : List Instruction} {i : Instruction}

theorem scopeAfter_entry (G : Nat) : ScopeAfter (Scope.init.step (isJoin G) (.label "entry")) [] := by
  refine ⟨?_, by simp [firstUses, newQubits], by simp [measuredBits]⟩
  rw [Scope.step, show "entry" = Symbol.entry.text from rfl, isJoin_text]
  simp

/-- The allocations of a segment bind the handles of its new qubits for good. -/
theorem ScopeAfter.allocs (cut : String → Bool) (h : ScopeAfter σ P) (i : Instruction) :
    Scoped cut σ (((newQubits (firstUses P) i.qubits).map allocCall).map Line.instr) ∧
      ((((newQubits (firstUses P) i.qubits).map allocCall).map Line.instr).foldl
        (Scope.step cut) σ).inCut = true ∧
      (∀ q ∈ firstUses (P ++ [i]), (Symbol.qubit q).text ∈
        ((((newQubits (firstUses P) i.qubits).map allocCall).map Line.instr).foldl
          (Scope.step cut) σ).outer) ∧
      σ.outer ⊆ ((((newQubits (firstUses P) i.qubits).map allocCall).map Line.instr).foldl
        (Scope.step cut) σ).outer := by
  refine ⟨scoped_of_uses_outer (by simp [List.filterMap_map, Function.comp_def, Line.instr?,
    allocCall, Instr.uses]), ?_, fun q hq => ?_, outer_subset_foldl _ σ⟩
  · rw [foldl_step_instrs]
    exact h.in_cut
  · rw [foldl_step_instrs, if_pos h.in_cut]
    rw [firstUses_append_singleton, List.mem_append] at hq
    rcases hq with hq | hq
    · exact List.mem_append_left _ (h.qubits q hq)
    · apply List.mem_append_right
      simp only [List.filterMap_map, Function.comp_def, allocCall, Instr.bound?]
      exact List.mem_filterMap.2 ⟨q, hq, rfl⟩

/-- One segment keeps the scope invariant: its calls read handles just allocated, its tests
read results measured earlier, and a region ends in its marked join block. -/
theorem ScopeAfter.segment (h : ScopeAfter σ P) (hg : GuardChecked P i)
    (hG : guardedCount (P ++ [i]) ≤ G) :
    Scoped (isJoin G) σ (adaptiveSegment P i) ∧
      ScopeAfter ((adaptiveSegment P i).foldl (Scope.step (isJoin G)) σ) (P ++ [i]) := by
  obtain ⟨hallocs, hcut₁, hq₁, hsub₁⟩ := h.allocs (isJoin G) i
  unfold adaptiveSegment
  rw [show ((newQubits (firstUses P) i.qubits).map fun q => Line.instr (allocCall q)) =
    ((newQubits (firstUses P) i.qubits).map allocCall).map Line.instr by simp [Function.comp_def],
    scoped_append, List.foldl_append]
  generalize (((newQubits (firstUses P) i.qubits).map allocCall).map Line.instr).foldl
    (Scope.step (isJoin G)) σ = σ₁ at hcut₁ hq₁ hsub₁
  have hcalls : ∀ x ∈ i.adaptiveCalls (measuredBits P).length, ∀ n ∈ x.uses, n ∈ σ₁.outer := by
    intro x hx n hn
    obtain ⟨q, hq, rfl⟩ := uses_adaptiveCalls i _ x hx n hn
    exact hq₁ q (mem_firstUses_snoc hq)
  cases hc : i.condition with
  | none =>
    refine ⟨⟨hallocs, scoped_of_uses_outer ?_⟩, ?_⟩
    · simpa [List.filterMap_map, Function.comp_def, Line.instr?] using hcalls
    rw [foldl_step_instrs, if_pos hcut₁]
    refine ⟨hcut₁, fun q hq => List.mem_append_left _ (hq₁ q hq), fun k hk => ?_⟩
    rw [measuredBits_snoc, List.length_append] at hk
    by_cases hk' : k < (measuredBits P).length
    · exact List.mem_append_left _ (hsub₁ (h.results k hk'))
    · -- the calls number the new results on from the count so far
      apply List.mem_append_right
      rw [bound_adaptiveCalls]
      exact List.mem_map.2 ⟨k, List.mem_range'_1.2 ⟨by omega, by omega⟩, rfl⟩
  | some c =>
    obtain ⟨hnm, -, -⟩ := hg c hc
    have hlt : guardedCount P < G := by
      rw [guardedCount_append_singleton, hc] at hG
      simp at hG
      omega
    refine ⟨⟨hallocs, scoped_regionLines ?_ hcalls⟩, ?_⟩
    · intro t ht n hn
      obtain ⟨p, -, rfl⟩ := List.mem_map.1 ht
      cases hl : lastIndex (measuredBits P) p.1 with
      | none => simp [latestResult, hl, Value.name?] at hn
      | some j =>
        simp only [latestResult, hl, Option.map_some, Option.getD_some, resultHandle,
          List.filterMap_cons, Value.name?, List.filterMap_nil, List.mem_singleton] at hn
        subst hn
        exact hsub₁ (h.results j (lastIndex_lt hl))
    have hms : measuredBits (P ++ [i]) = measuredBits P := by
      simp [measuredBits_snoc, measuredBits_singleton, hnm]
    have hsub₂ := @outer_subset_foldl (isJoin G) (regionLines (guardedCount P)
      (guardTests (measuredBits P) c) (i.adaptiveCalls (measuredBits P).length)) σ₁
    refine ⟨?_, fun q hq => hsub₂ (hq₁ q hq), fun k hk => hsub₂ (hsub₁ (h.results k (hms ▸ hk)))⟩
    -- the region ends in its join block, which is marked
    simp [regionLines, Scope.step, isJoin_continueLabel hlt]

/-- A run of segments keeps the scope invariant. -/
theorem ScopeAfter.lines :
    ∀ {σ : Scope} {P is : List Instruction}, ScopeAfter σ P → GuardsChecked P is →
      guardedCount (P ++ is) ≤ G →
      Scoped (isJoin G) σ (adaptiveLines P is) ∧
        ScopeAfter ((adaptiveLines P is).foldl (Scope.step (isJoin G)) σ) (P ++ is)
  | _, _, [], h, _, _ => ⟨trivial, by simpa [adaptiveLines] using h⟩
  | σ, P, i :: is, h, ⟨hg, hgs⟩, hG => by
    have hGi : guardedCount (P ++ [i]) ≤ G := by
      simp only [guardedCount_append] at hG ⊢
      simp only [guardedCount, List.filter_cons, List.filter_nil] at hG ⊢
      split at hG <;> simp_all <;> omega
    obtain ⟨hs, h'⟩ := h.segment hg hGi
    obtain ⟨hs', h''⟩ := ScopeAfter.lines h' hgs (by simpa using hG)
    refine ⟨scoped_append.2 ⟨hs, hs'⟩, ?_⟩
    simpa [adaptiveLines, List.foldl_append] using h''

theorem uses_callInstr (c : Callee) (args : List Value) (r : Option String) :
    (Builder.callInstr c args r).uses = args.filterMap Value.name? := rfl

@[simp] theorem filterMap_instr?_map (is : List Instr) : (is.map Line.instr).filterMap Line.instr? = is := by
  simp [List.filterMap_map, Function.comp_def, Line.instr?]

theorem uses_recordingCalls {vs : List Value} {x : Instr} {n : String} (hx : x ∈ recordingCalls vs)
    (hn : n ∈ x.uses) : ∃ v ∈ vs, v.name? = some n := by
  simp only [recordingCalls, List.mem_cons, List.mem_append, List.mem_map, List.not_mem_nil,
    or_false] at hx
  rcases hx with (rfl | ⟨v, hv, rfl⟩) | rfl
  · simp [uses_callInstr] at hn
  · simp only [uses_callInstr, List.filterMap_cons, List.filterMap_nil] at hn
    cases hv' : v.name? <;> simp [hv'] at hn
    exact ⟨v, hv, by rw [hv', hn]⟩
  · simp [uses_callInstr] at hn

theorem uses_releaseCalls {ps : List (Nat × Value)} {x : Instr} {n : String} (hx : x ∈ releaseCalls ps)
    (hn : n ∈ x.uses) : ∃ p ∈ ps, p.2.name? = some n := by
  obtain ⟨p, hp, rfl⟩ := List.mem_map.1 hx
  simp only [uses_callInstr, List.filterMap_cons, List.filterMap_nil] at hn
  cases hp' : p.2.name? <;> simp [hp'] at hn
  exact ⟨p, hp, by rw [hp', hn]⟩

/-- The epilogue reads the latest result of each bit, or the zero result it fetched for a bit
never measured, and the handles it releases. -/
theorem ScopeAfter.epilogue (cut : String → Bool) (h : ScopeAfter σ P) (R : Nat) :
    Scoped cut σ ((adaptiveEpilogue R P).map Line.instr) := by
  unfold adaptiveEpilogue
  rw [List.append_assoc, List.append_assoc, List.map_append, scoped_append, foldl_step_instrs,
    if_pos h.in_cut]
  constructor
  · apply scoped_of_uses_outer
    unfold zeroCalls
    split <;> simp [Instr.uses, Line.instr?]
  apply scoped_of_uses_outer
  rw [filterMap_instr?_map]
  intro x hx n hn
  rcases List.mem_append.1 hx with hx | hx
  · obtain ⟨v, hv, hvn⟩ := uses_recordingCalls hx hn
    obtain ⟨c, hc, rfl⟩ := List.mem_map.1 hv
    cases hl : lastIndex (measuredBits P) c with
    | some j =>
      simp only [recordedResult, hl, Option.map_some, Option.getD_some, resultHandle, Value.name?,
        Option.some.injEq] at hvn
      subst hvn
      exact List.mem_append_left _ (h.results j (lastIndex_lt hl))
    | none =>
      -- a bit never measured records the zero result, fetched since some bit needs it
      simp only [recordedResult, hl, Option.map_none, Option.getD_none, zeroResult, Value.name?,
        Option.some.injEq] at hvn
      subst hvn
      have hz : needsZero R (measuredBits P) = true := by
        simpa [needsZero] using ⟨c, List.mem_range.1 hc, hl⟩
      apply List.mem_append_right
      simp [zeroCalls, hz]
  rcases List.mem_append.1 hx with hx | hx
  · obtain ⟨p, hp, hpn⟩ := uses_releaseCalls hx hn
    obtain ⟨q, hq, rfl⟩ := List.mem_map.1 hp
    simp only [qubitHandle, Value.name?, Option.some.injEq] at hpn
    subst hpn
    exact List.mem_append_left _ (h.qubits q hq)
  · rw [List.mem_singleton] at hx
    subst hx
    simp [Instr.uses] at hn

end ScopeAfter

/-! ### The shape of the adaptive entry function -/

/-- Nothing follows a return in chained lines: what follows a terminator is a label it
branches to, and a return branches nowhere. -/
theorem not_adjacent_ret (y : Line) : ¬ Line.Adjacent (.instr .ret) y := by
  rintro ⟨hterm, htarget⟩
  cases y with
  | label l => simpa [Line.targets, Instr.targets] using htarget l rfl
  | instr i => simp [Line.isTerminator, Line.isLabel, Instr.isTerminator] at hterm

theorem Tame.ret_not_mem {M : List Line} (hM : Tame M) : Line.instr .ret ∉ M := by
  intro hm
  obtain ⟨pre, post, rfl⟩ := List.append_of_mem hm
  cases post with
  | nil =>
    have := hM.last_not_terminator (.instr .ret) (by simp)
    simp [Line.isTerminator, Instr.isTerminator] at this
  | cons y post =>
    have hc := (List.isChain_append.1 hM.chain).2.1
    exact not_adjacent_ret y (List.isChain_cons_cons.1 hc).1

/-- An entry label, then lines that chain, then the return. -/
theorem isChain_entry {M : List Line} (hM : Tame M) (l : String) :
    (Line.label l :: (M ++ [.instr .ret])).IsChain Line.Adjacent := by
  have hret : (M ++ [Line.instr .ret]).IsChain Line.Adjacent := by
    refine List.isChain_append.2 ⟨hM.chain, List.isChain_singleton _, fun x hx y hy => ?_⟩
    obtain rfl : Line.instr .ret = y := by simpa using hy
    exact ⟨by simp [hM.last_not_terminator x hx, Line.isLabel], by simp⟩
  refine List.isChain_cons.2 ⟨fun y hy => ?_, hret⟩
  have hlabel : y.isLabel = false := by
    rw [List.head?_append] at hy
    cases hh : M.head? with
    | none =>
      obtain rfl : Line.instr .ret = y := by simpa [hh] using hy
      rfl
    | some z =>
      obtain rfl : z = y := by simpa [hh] using hy
      exact hM.head_not_label z hh
  exact ⟨by simp [Line.isTerminator, hlabel], fun l' hl' => by simp [hl', Line.isLabel] at hlabel⟩

/-- Recording and releasing are calls made for their effect: they bind nothing. -/
theorem recordingCalls_effect (vs : List Value) :
    ∀ x ∈ recordingCalls vs, x.isCall = true ∧ x.bound? = none := by
  simp only [recordingCalls, List.mem_cons, List.mem_append, List.mem_map, List.not_mem_nil, or_false]
  rintro x ((rfl | ⟨v, -, rfl⟩) | rfl) <;> simp [Builder.callInstr, Instr.isCall]

theorem releaseCalls_effect (ps : List (Nat × Value)) :
    ∀ x ∈ releaseCalls ps, x.isCall = true ∧ x.bound? = none := by
  simp only [releaseCalls, List.mem_map]
  rintro x ⟨p, -, rfl⟩
  simp [Builder.callInstr, Instr.isCall]

/-- The epilogue is calls, then the return. -/
theorem adaptiveEpilogue_calls (R : Nat) (P : List Instruction) :
    ∃ calls : List Instr, (∀ x ∈ calls, x.isCall = true) ∧ adaptiveEpilogue R P = calls ++ [.ret] := by
  refine ⟨_, fun x hx => ?_, rfl⟩
  rcases List.mem_append.1 hx with hx | hx
  · rcases List.mem_append.1 hx with hx | hx
    · unfold zeroCalls at hx
      split at hx <;> simp_all [Instr.isCall]
    · exact (recordingCalls_effect _ x hx).1
  · exact (releaseCalls_effect _ x hx).1

theorem Symbol.isLabel_of_region? {s : Symbol} {r : Nat} (h : s.region? = some r) : s.isLabel = true := by
  cases s <;> simp_all [Symbol.region?, Symbol.isLabel]

/-- The names the epilogue binds: the zero result, when some bit is never measured. -/
def epilogueBound (R : Nat) (ms : List Nat) : List Symbol := if needsZero R ms then [.zero] else []

theorem bound_adaptiveEpilogue (R : Nat) (P : List Instruction) :
    (adaptiveEpilogue R P).filterMap Instr.bound? = (epilogueBound R (measuredBits P)).map Symbol.text := by
  have hrec := List.filterMap_eq_nil_iff.2 fun x hx => (recordingCalls_effect
    ((List.range R).map (recordedResult (measuredBits P))) x hx).2
  have hrel := List.filterMap_eq_nil_iff.2 fun x hx => (releaseCalls_effect
    ((firstUses P).map fun q => (q, qubitHandle q)) x hx).2
  unfold adaptiveEpilogue epilogueBound zeroCalls
  split <;> simp [List.filterMap_append, hrec, hrel, Symbol.text, Instr.bound?]

/-- The lines of the adaptive entry function have the shape of a well-formed function, with
the entry block and the join blocks marked. -/
theorem shaped_adaptive {P : List Instruction} (hg : GuardsChecked [] P) (R : Nat) :
    Shaped (isJoin (guardedCount P))
      (.label "entry" :: adaptiveLines [] P ++ (adaptiveEpilogue R P).map Line.instr) := by
  obtain ⟨E, hE, hEq⟩ := adaptiveEpilogue_calls R P
  have hlabels : (Line.label "entry" :: adaptiveLines [] P ++ (adaptiveEpilogue R P).map Line.instr).filterMap
      Line.label? = (Symbol.entry :: labelsFrom [] P).map Symbol.text := by
    simp [List.filterMap_append, labels_adaptiveLines hg, Line.label?, Symbol.text]
  have hbound : ((Line.label "entry" :: adaptiveLines [] P ++ (adaptiveEpilogue R P).map Line.instr).filterMap
      Line.instr?).filterMap Instr.bound? =
      (boundFrom [] P ++ epilogueBound R (measuredBits P)).map Symbol.text := by
    have := bound_adaptiveLines hg
    simp only [boundOf] at this
    rw [List.cons_append, List.filterMap_cons_none rfl, List.filterMap_append, List.filterMap_append,
      this, filterMap_instr?_map, bound_adaptiveEpilogue, List.map_append]
  have hmid : Tame (adaptiveLines [] P ++ E.map Line.instr) :=
    (tame_adaptiveLines [] P).append (tame_calls hE)
  have hsplit : Line.label "entry" :: adaptiveLines [] P ++ (adaptiveEpilogue R P).map Line.instr =
      Line.label "entry" :: (adaptiveLines [] P ++ E.map Line.instr ++ [.instr .ret]) := by
    simp [hEq]
  refine ⟨?_, ?_, ?_, ?_, ?_, ?_, ?_, ?_⟩
  · rw [hsplit]
    exact isChain_entry hmid "entry"
  · rw [hsplit, ← List.cons_append]
    exact List.getLast?_concat
  · -- the return closes the epilogue, and the lines before it hold none
    have hlines : Instr.ret ∉ (adaptiveLines [] P).filterMap Line.instr? := fun hm => by
      obtain ⟨x, hx, hxr⟩ := List.mem_filterMap.1 hm
      cases x with
      | label _ => simp [Line.instr?] at hxr
      | instr i =>
        obtain rfl : i = .ret := by simpa [Line.instr?] using hxr
        exact (tame_adaptiveLines [] P).ret_not_mem hx
    have hcalls : Instr.ret ∉ E := fun hm => by simpa [Instr.isCall] using hE _ hm
    rw [hsplit, List.filterMap_cons_none rfl, List.filterMap_append, List.filterMap_append,
      filterMap_instr?_map]
    simp [List.count_append, Line.instr?, List.count_eq_zero.2 hlines, List.count_eq_zero.2 hcalls]
  · rw [hEq, List.cons_append]
    refine ⟨by simp [Line.targets], (ahead_adaptiveLines _ [] P).append ?_⟩
    rw [List.map_append]
    exact (ahead_calls hE).append ⟨by simp [Line.targets, Instr.targets], trivial⟩
  · rw [List.cons_append]
    refine ⟨trivial, ?_⟩
    have hrun := (scopeAfter_entry (guardedCount P)).lines (G := guardedCount P) hg (by simp)
    rw [List.nil_append] at hrun
    exact scoped_append.2 ⟨hrun.1, hrun.2.epilogue _ R⟩
  · rw [hlabels]
    refine List.Nodup.map Symbol.text_injective (List.nodup_cons.2 ⟨fun hm => ?_, (nodup_labelsFrom [] P).1⟩)
    obtain ⟨r, hr, -⟩ := (nodup_labelsFrom [] P).2 _ hm
    simp [Symbol.region?] at hr
  · -- a label names a block, a bound name a value: symbols of different kinds
    rw [hlabels, hbound]
    intro l hl hb
    obtain ⟨a, ha, rfl⟩ := List.mem_map.1 hl
    rw [List.mem_map_of_injective Symbol.text_injective] at hb
    have hlab : a.isLabel = true := by
      rcases List.mem_cons.1 ha with rfl | ha
      · rfl
      · obtain ⟨r, hr, -⟩ := (nodup_labelsFrom [] P).2 a ha
        exact Symbol.isLabel_of_region? hr
    rcases List.mem_append.1 hb with hb | hb
    · simp [((nodup_boundFrom [] P).2 a hb).isLabel_eq_false] at hlab
    · unfold epilogueBound at hb
      split at hb <;> simp_all [Symbol.isLabel]
  · rw [hbound]
    refine List.Nodup.map Symbol.text_injective (List.nodup_append.2 ⟨(nodup_boundFrom [] P).1, ?_, ?_⟩)
    · unfold epilogueBound
      split <;> simp
    · -- the zero result is no handle, result or read
      intro a ha b hb hab
      subst hab
      have hfresh := (nodup_boundFrom [] P).2 a ha
      unfold epilogueBound at hb
      split at hb <;> simp_all [Symbol.FreshAfter]

end QirGen
