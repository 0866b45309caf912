import QirGen.Proofs.Lower.Recording
import QirGen.Proofs.Lower.Reuse

/-!
# The order of the checks

Lowering an instruction makes its checks in a fixed order, spread over the lowering itself, the
shape check, the handle table and the guard: the name; the shape (qubit count, repeated
qubits, stray classical bits, parameter count, undeclared classical bits); the capabilities a
guard needs; each qubit operand in turn (reuse after measurement, then the table's bounds);
the guard (some bit, a value that fits, each compared bit measured); and the measured bits
against the table's bounds. Some of them run after qubits were allocated or part of the
instruction was emitted, but none of them reads what that changed, so all of them can be
stated on the state before the instruction (`Lowering.checks`).

Main statements: `Lowering.lower_eq_error_iff`, lowering fails with exactly the first failing
check; and `translate_error_order`, a translation fails with a configuration error exactly for
an entry point that is no identifier, and otherwise at the first position that is missing or
fails its checks, or, past them all, when LLVM refuses the module's text.
-/

namespace QirGen

open Ir Circuit

/-! ## Failing with the first failing check -/

/-- Mapping the errors of checks maps their first failure. -/
theorem findSome?_map_optionMap {α β : Type} (f : α → β) :
    ∀ l : List (Option α), (l.map (Option.map f)).findSome? id = (l.findSome? id).map f
  | [] => rfl
  | none :: l => by simp [findSome?_map_optionMap f l]
  | some a :: l => by simp

theorem throw_eq_error_iff {ε α : Type} {x e : ε} :
    (throw x : Except ε α) = .error e ↔ x = e :=
  ⟨Except.error.inj, fun h => h ▸ rfl⟩

/-- A computation that fails with exactly the errors of a check succeeds when the check is
silent. -/
theorem exists_ok_of_eq_none {α ε : Type} {x : Except ε α} {o : Option ε}
    (h : ∀ e, x = .error e ↔ o = some e) (ho : o = none) : ∃ a, x = .ok a := by
  cases hx : x with
  | error e => exact absurd ((h e).1 hx) (by rw [ho]; nofun)
  | ok a => exact ⟨a, rfl⟩

/-- A check is silent when the computation that fails with exactly its errors succeeds. -/
theorem eq_none_of_eq_ok {α ε : Type} {x : Except ε α} {o : Option ε}
    (h : ∀ e, x = .error e ↔ o = some e) {a : α} (hx : x = .ok a) : o = none := by
  cases ho : o with
  | none => rfl
  | some e => cases hx ▸ (h e).2 ho

/-- `mapM` fails with the first failure of its function. -/
theorem mapM_eq_error_iff {α β ε : Type} {f : α → Except ε β} {g : α → Option ε}
    (hg : ∀ x e, f x = .error e ↔ g x = some e) :
    ∀ {xs : List α} {e : ε}, xs.mapM f = .error e ↔ (xs.map g).findSome? id = some e
  | [], e => by simp [pure, Except.pure]
  | x :: xs, e => by
    rw [List.mapM_cons, List.map_cons, List.findSome?_cons, id]
    cases hx : f x with
    | error e' =>
      have hgx := (hg x e').1 hx
      simp [hgx, bind, Except.bind]
    | ok b =>
      -- the first element passes, so its check is silent
      have hgx : g x = none := eq_none_of_eq_ok (hg x) hx
      rw [hgx, ok_bind, bind_eq_error, mapM_eq_error_iff hg]
      simp [pure, Except.pure]

namespace Handles

/-- The error a bounded static table gives for index `i` of a resource beyond its declared
count. -/
def refusal (h : Handles) (k : ResourceKind) (i : Nat) : Option TranslateError :=
  if h.mode = .static ∧ h.bounded = true ∧ h.declared k ≤ i then
    some (.resourceMismatch k i (h.declared k))
  else none

variable {h h' : Handles} {b b' : Builder} {e : TranslateError}

theorem refusal_eq_some {k : ResourceKind} {i : Nat} :
    h.refusal k i = some e ↔ h.Refuses k i e := by
  unfold refusal Refuses
  split
  · rename_i hc
    simp [hc, eq_comm]
  · rename_i hc
    simp only [reduceCtorEq, false_iff]
    rintro ⟨h₁, h₂, h₃, -⟩
    exact hc ⟨h₁, h₂, h₃⟩

theorem Keeps.refusal_eq (hk : Keeps h h') (k : ResourceKind) (i : Nat) :
    h'.refusal k i = h.refusal k i := by
  have hd : h'.declared k = h.declared k := by
    cases k <;> simp [declared, hk.declaredQubits_eq, hk.declaredResults_eq]
  unfold refusal
  rw [hd, hk.mode_eq, hk.bounded_eq]

/-- A qubit fails to resolve exactly when the table refuses it. -/
theorem qubit_eq_error_iff {q : Nat} : h.qubit b q = .error e ↔ h.refusal .qubit q = some e := by
  refine ⟨fun hq => refusal_eq_some.2 (qubit_eq_error hq), fun hr => ?_⟩
  obtain ⟨hmode, hb, hle, rfl⟩ := refusal_eq_some.1 hr
  have hlt : ¬ q < h.declaredQubits := Nat.not_lt.2 hle
  simp [qubit, hmode, hb, hlt, declared]

/-- A measurement fails exactly when the table refuses its bit. -/
theorem measure_eq_error_iff {v : Value} {c : Nat} :
    h.measure b v c = .error e ↔ h.refusal .result c = some e := by
  refine ⟨fun hm => refusal_eq_some.2 (measure_eq_error hm), fun hr => ?_⟩
  obtain ⟨hmode, hb, hle, rfl⟩ := refusal_eq_some.1 hr
  have hlt : ¬ c < h.declaredResults := Nat.not_lt.2 hle
  simp [measure, hmode, hb, hlt, declared]

/-- Resolving a qubit binds no result. -/
theorem qubit_results {q : Nat} {v : Value} (hq : h.qubit b q = .ok (h', b', v)) :
    h'.results = h.results := by
  rcases qubit_eq_ok hq with ⟨-, -, -, ⟨-, -, rfl⟩ | ⟨-, rfl⟩⟩ | ⟨-, ⟨-, rfl, -⟩ | ⟨-, -, rfl, -⟩⟩ <;> rfl

end Handles

/-! ## The checks -/

/-- The shape checks of an instruction of kind `kind`, in order, each with the reason it
gives: the qubit count, repeated qubits (where the kind fixes or pairs the qubits), classical
bits where the kind takes none, the parameter count, and without static register sizes the
classical bits beyond the `R` declared ones. -/
def shapeChecks (caps : Capabilities) (R : Nat) (kind : GateKind) (i : Instruction) :
    List (Option String) :=
  let q := i.qubits.length
  let c := i.clbits.length
  let p := i.params.length
  [match kind.arity with
    | .exact n =>
      if q ≠ n then some ("expected " ++ toString n ++ " qubit(s), got " ++ toString q) else none
    | .paired =>
      if q = 0 ∨ q ≠ c then
        some ("expected matching qubit and classical bit operands, got " ++ toString q ++
          " and " ++ toString c)
      else none
    | .any => none,
   if kind.arity = .any then none
   else (firstRepeat [] i.qubits).map fun d => "duplicate qubit operand q" ++ toString d,
   if kind.arity ≠ .paired ∧ c ≠ 0 then
     some ("unexpected classical bit operands (" ++ toString c ++ ")")
   else none,
   if p < kind.paramRange.1 ∨ p > kind.paramRange.2 then
     some ("expected " ++ paramRequirement kind.paramRange.1 kind.paramRange.2 ++
       " parameter(s), got " ++ toString p)
   else none,
   if caps.staticRegisterSizes then none
   else (i.clbits.find? (R ≤ ·)).map fun b =>
     "classical bit c" ++ toString b ++ " is not declared"]

/-- The shape check gives the first failing shape check. -/
theorem checkShape_eq_findSome? (caps : Capabilities) (R : Nat) (kind : GateKind)
    (i : Instruction) : checkShape caps R kind i = (shapeChecks caps R kind i).findSome? id := by
  unfold checkShape shapeChecks
  dsimp only
  cases firstRepeat [] i.qubits <;> cases kind.arity <;> simp <;> split_ifs <;> simp_all

/-- The checks of a guard `c`, made once the qubits resolved: it compares some bit, its value
fits, and each compared bit, in order, was measured. -/
def guardChecks (h : Handles) (name : String) (index : Nat) (c : Condition) :
    List (Option TranslateError) :=
  [if c.bits.isEmpty then some (.invalidOperands name index "condition compares no classical bits")
   else none,
   if c.fits then none
   else some (.invalidOperands name index ("condition value " ++ toString c.value ++
     " does not fit in " ++ toString c.bits.length ++ " bit(s)"))] ++
  c.bits.map fun bit => if (h.measured bit).isSome then none
    else some (.invalidOperands name index
      ("condition bit c" ++ toString bit ++ " was never measured"))

namespace Lowering

/-- The checks of one qubit operand: reuse after measurement where the profile forbids it,
then the bounds of the table. -/
def qubitChecks (s : Lowering) (kind : GateKind) (q : Nat) : List (Option TranslateError) :=
  [if kind.actsOnQubits = true ∧ s.profile.capabilities.qubitReuse = false ∧
       q ∈ s.measuredQubits then
     some (s.unavailable "qubit use after measurement")
   else none,
   s.handles.refusal .qubit q]

/-- The checks of lowering `i` at position `index` from the state `s`, in the order they are
made, each with the error it gives. -/
def checks (s : Lowering) (index : Nat) (i : Instruction) : List (Option TranslateError) :=
  match GateKind.ofName? i.name with
  | none => [some (.unsupportedInstruction i.name index)]
  | some kind =>
    (shapeChecks s.profile.capabilities s.handles.declaredResults kind i).map
        (Option.map (.invalidOperands i.name index)) ++
      [if i.condition.isSome ∧ kind = .measure then some (s.unavailable "conditional measurement")
       else none,
       if i.condition.isSome ∧ s.profile.capabilities.branchOnResult = false then
         some (s.unavailable "branch on measurement result")
       else none] ++
      i.qubits.flatMap (s.qubitChecks kind) ++
      (i.condition.map (guardChecks s.handles i.name index)).getD [] ++
      (if kind = .measure then i.clbits.map (s.handles.refusal .result) else [])

end Lowering

/-- The guard checks read only the results bound so far. -/
theorem guardChecks_congr {h h' : Handles} (hres : h'.results = h.results) :
    guardChecks h' = guardChecks h := by
  funext name index c
  simp [guardChecks, Handles.measured, hres]

/-- A measurement passes its shape check only with as many qubits as bits. -/
theorem length_eq_of_checkShape_measure {caps : Capabilities} {R : Nat} {i : Instruction}
    (h : checkShape caps R .measure i = none) : i.qubits.length = i.clbits.length := by
  rw [checkShape_eq_findSome?] at h
  simp only [shapeChecks, GateKind.arity] at h
  by_contra hne
  simp [hne] at h

namespace Lowering

variable {s r : Lowering} {kind : GateKind} {e : TranslateError}

/-- States with one profile, one list of measured qubits and tables of one shape make the same
qubit checks. -/
theorem qubitChecks_congr {s s' : Lowering} (hp : s'.profile = s.profile)
    (hm : s'.measuredQubits = s.measuredQubits) (hk : Handles.Keeps s.handles s'.handles) :
    s'.qubitChecks kind = s.qubitChecks kind := by
  funext q
  simp [qubitChecks, unavailable, hp, hm, hk.refusal_eq]

/-- Resolving qubits fails with the first failing check of its operands, in order. -/
theorem resolveQubits_eq_error_iff : ∀ {s : Lowering} {qs : List Nat},
    s.resolveQubits kind qs = .error e ↔ (qs.flatMap (s.qubitChecks kind)).findSome? id = some e
  | s, [] => by simp [resolveQubits]
  | s, q :: qs => by
    rw [List.flatMap_cons, List.findSome?_append]
    unfold resolveQubits
    split
    · -- the operand is used after a measurement
      rename_i hre
      have hre' : kind.actsOnQubits = true ∧ s.profile.capabilities.qubitReuse = false ∧
          q ∈ s.measuredQubits := by simpa [and_assoc] using hre
      simp [qubitChecks, hre', throw_bind]
    · rename_i hre
      have hre' : ¬ (kind.actsOnQubits = true ∧ s.profile.capabilities.qubitReuse = false ∧
          q ∈ s.measuredQubits) := by simpa [and_assoc] using hre
      cases hq : s.handles.qubit s.builder q with
      | error e' =>
        -- the table refuses the operand
        have hr := Handles.qubit_eq_error_iff.1 hq
        simp [qubitChecks, hre', hr, bind, Except.bind]
      | ok x =>
        obtain ⟨h₁, b₁, v₁⟩ := x
        have hr : s.handles.refusal .qubit q = none :=
          eq_none_of_eq_ok (fun _ => Handles.qubit_eq_error_iff) hq
        -- the rest is checked against a table of the same shape
        have hcongr : ({ s with handles := h₁, builder := b₁ } : Lowering).qubitChecks kind =
            s.qubitChecks kind :=
          qubitChecks_congr rfl rfl (Handles.keeps_qubit hq)
        rw [ok_bind, bind_eq_error, resolveQubits_eq_error_iff, hcongr]
        simp [qubitChecks, hre', hr, pure, Except.pure]

/-- Resolving qubits binds no result. -/
theorem resolveQubits_results : ∀ {s r : Lowering} {qs : List Nat} {vs : List Value},
    s.resolveQubits kind qs = .ok (r, vs) → r.handles.results = s.handles.results
  | s, r, [], vs, h => by
    simp only [resolveQubits, Except.ok.injEq, Prod.mk.injEq] at h
    rw [h.1]
  | s, r, q :: qs, vs, h => by
    obtain ⟨-, h₁, b₁, v, vs', hq, hrest, -⟩ := resolveQubits_cons_eq_ok h
    exact (resolveQubits_results hrest).trans (Handles.qubit_results hq)

/-- Measuring pairs fails with the first bit the table refuses, in order. -/
theorem measurePairs_eq_error_iff : ∀ {s : Lowering} {ps : List ((Nat × Value) × Nat)},
    s.measurePairs ps = .error e ↔
      (ps.map fun p => s.handles.refusal .result p.2).findSome? id = some e
  | s, [] => by simp [measurePairs]
  | s, ((q, v), c) :: ps => by
    unfold measurePairs
    rw [List.map_cons, List.findSome?_cons, id]
    cases hm : s.handles.measure s.builder v c with
    | error e' =>
      have hr := Handles.measure_eq_error_iff.1 hm
      simp [hr, bind, Except.bind]
    | ok x =>
      obtain ⟨h₁, b₁⟩ := x
      have hr : s.handles.refusal .result c = none :=
        eq_none_of_eq_ok (fun _ => Handles.measure_eq_error_iff) hm
      have hk := Handles.keeps_measure hm
      rw [ok_bind, measurePairs_eq_error_iff]
      simp [hr, hk.refusal_eq]

/-- Emitting fails only in a measurement, with the first bit the table refuses. -/
theorem emit_eq_error_iff {i : Instruction} {vs : List Value}
    (hlen : kind = .measure → i.qubits.length = i.clbits.length ∧ vs.length = i.qubits.length) :
    s.emit kind i vs = .error e ↔
      (if kind = .measure then i.clbits.map (s.handles.refusal .result) else []).findSome? id =
        some e := by
  by_cases hk : kind = .measure
  · subst hk
    obtain ⟨hq, hv⟩ := hlen rfl
    have hsnd : ((i.qubits.zip vs).zip i.clbits).map Prod.snd = i.clbits :=
      List.map_snd_zip (by simp [List.length_zip]; omega)
    have hmap : (((i.qubits.zip vs).zip i.clbits).map fun p => s.handles.refusal .result p.2) =
        i.clbits.map (s.handles.refusal .result) := by
      conv_rhs => rw [← hsnd]
      rw [List.map_map]
      rfl
    rw [if_pos rfl, emit, measurePairs_eq_error_iff, hmap]
  · rw [if_neg hk]
    simp only [List.findSome?_nil, reduceCtorEq, iff_false]
    exact fun h => hk (emit_eq_error h).1

/-- A guarded instruction other than a measurement fails with the first failing check of its
guard. -/
theorem emitConditional_eq_error_iff {index : Nat} {i : Instruction} {c : Condition}
    {vs : List Value} (hk : kind ≠ .measure) :
    s.emitConditional kind index i c vs = .error e ↔
      (guardChecks s.handles i.name index c).findSome? id = some e := by
  unfold emitConditional guardChecks
  simp only [List.findSome?_append]
  by_cases hne : c.bits.isEmpty = true
  · simp [hne, throw_bind]
  cases hfit : c.fits
  · simp [hne, throw_bind]
  simp only [hne, Bool.false_eq_true, if_false, Bool.not_true, if_true]
  -- the tests read the compared bits in order
  have hmap : (c.expectations.map fun x => if (s.handles.measured x.1).isSome then none
      else some (TranslateError.invalidOperands i.name index
        ("condition bit c" ++ toString x.1 ++ " was never measured"))) =
      c.bits.map fun bit => if (s.handles.measured bit).isSome then none
        else some (.invalidOperands i.name index ("condition bit c" ++ toString bit ++
          " was never measured")) := by
    rw [← Condition.expectations_map_fst, List.map_map]
    rfl
  rw [bind_eq_error, mapM_eq_error_iff (g := fun x => if (s.handles.measured x.1).isSome then none
    else some (.invalidOperands i.name index ("condition bit c" ++ toString x.1 ++
      " was never measured"))), hmap]
  · constructor
    · rintro (h | ⟨tests, -, h⟩)
      · simpa using h
      · -- past the tests, emitting the body cannot fail
        exfalso
        rw [bind_eq_error] at h
        rcases h with h | ⟨s', -, h⟩
        · exact hk (emit_eq_error h).1
        · cases h
    · intro h
      exact .inl (by simpa using h)
  · rintro ⟨bit, expected⟩ e'
    cases s.handles.measured bit <;> simp


/-- Past its name, shape and capabilities, an instruction fails with the first failing check of
its operands, then of what follows them. -/
theorem resolveQubits_bind_eq_error_iff {qs : List Nat}
    {k : Lowering × List Value → Except TranslateError Lowering} {tail : Option TranslateError}
    (hrest : ∀ r vs, s.resolveQubits kind qs = .ok (r, vs) →
      (k (r, vs) = .error e ↔ tail = some e)) :
    (s.resolveQubits kind qs >>= k) = .error e ↔
      ((qs.flatMap (s.qubitChecks kind)).findSome? id).or tail = some e := by
  rw [bind_eq_error]
  cases hq : (qs.flatMap (s.qubitChecks kind)).findSome? id with
  | some e' =>
    -- an operand fails first
    have hres := resolveQubits_eq_error_iff.2 hq
    rw [hres, Option.some_or]
    constructor
    · rintro (h | ⟨x, hx, -⟩)
      · exact congrArg some (Except.error.inj h)
      · cases hx
    · intro h
      exact .inl (by rw [Option.some.inj h])
  | none =>
    obtain ⟨⟨r, vs⟩, hr⟩ := exists_ok_of_eq_none (fun _ => resolveQubits_eq_error_iff) hq
    rw [hr, Option.none_or]
    constructor
    · rintro (h | ⟨x, hx, h⟩)
      · cases h
      · cases hx
        exact (hrest r vs hr).1 h
    · intro h
      exact .inr ⟨(r, vs), rfl, (hrest r vs hr).2 h⟩

/-- **The order of the checks.** Lowering an instruction fails with exactly the first failing
check of `checks`, all of them read in the state before the instruction. -/
theorem lower_eq_error_iff (s : Lowering) (index : Nat) (i : Instruction) (e : TranslateError) :
    s.lower index i = .error e ↔ (s.checks index i).findSome? id = some e := by
  unfold lower checks
  cases hk : GateKind.ofName? i.name with
  | none =>
    -- the name is checked first
    simp only [List.findSome?_cons, id, throw_eq_error_iff, Option.some.injEq]
  | some kind =>
    simp only [List.findSome?_append, findSome?_map_optionMap, ← checkShape_eq_findSome?]
    cases hsh : checkShape s.profile.capabilities s.handles.declaredResults kind i with
    | some r =>
      -- then the shape
      simp only [throw_bind, Option.map_some, Option.some_or, Except.error.injEq, Option.some.injEq]
    | none =>
      simp only [Option.map_none, Option.none_or, Option.or_assoc]
      cases hc : i.condition with
      | none =>
        -- no guard: the operands, then the measured bits
        simp only [Option.isSome_none, Bool.false_eq_true, false_and, if_false, Option.map_none,
          Option.getD_none, List.findSome?_cons, id, List.findSome?_nil, Option.none_or]
        refine resolveQubits_bind_eq_error_iff fun r vs hr => ?_
        obtain ⟨-, -, -, hkeep⟩ := resolveQubits_eq_ok hr
        have hrefusal : r.handles.refusal = s.handles.refusal :=
          funext fun k => funext fun c => hkeep.refusal_eq k c
        have hlen : kind = .measure →
            i.qubits.length = i.clbits.length ∧ vs.length = i.qubits.length := fun hm =>
          ⟨length_eq_of_checkShape_measure (hm ▸ hsh), length_resolveQubits hr⟩
        dsimp only
        rw [emit_eq_error_iff hlen, hrefusal]
      | some c =>
        by_cases hm : kind = .measure
        · -- a guarded measurement is refused before its operands
          simp only [hm, Option.isSome_some, if_true, and_self, throw_bind, List.findSome?_cons, id,
            Option.some_or, Except.error.injEq, Option.some.injEq]
        by_cases hb : s.profile.capabilities.branchOnResult = true
        · -- a guard that can be branched on: the operands, then the guard
          simp only [hm, hb, Option.isSome_some, if_true, if_false, and_false, Bool.not_true,
            Bool.false_eq_true, true_and, List.findSome?_cons, id, List.findSome?_nil,
            Option.map_some, Option.getD_some, Option.or_none]
          refine resolveQubits_bind_eq_error_iff fun r vs hr => ?_
          dsimp only
          rw [emitConditional_eq_error_iff hm, guardChecks_congr (resolveQubits_results hr)]
        · -- a guard where results cannot be branched on
          have hb' : s.profile.capabilities.branchOnResult = false := by simpa using hb
          simp only [hm, hb', Option.isSome_some, if_true, if_false, and_false, Bool.not_false,
            true_and, throw_bind, List.findSome?_cons, id, Option.some_or, Except.error.injEq,
            Option.some.injEq]


/-- A fault of lowering is never a configuration error. -/
theorem LowerFault.ne_config {index : Nat} {i : Instruction} (h : LowerFault s index i e)
    (msg : String) : e ≠ .config msg := by
  cases h with
  | qubit _ href => rw [href.2.2.2]; nofun
  | result _ href => rw [href.2.2.2]; nofun
  | _ => nofun

end Lowering

open Lowering

/-- A pass over positions fails exactly at its first failing position: one that is missing, or
one whose lowering fails, the positions before it lowered. -/
theorem lowerFrom_eq_error_iff {src : Source} :
    ∀ {index n : Nat} {s : Lowering} {e : TranslateError}, lowerFrom src index n s = .error e ↔
      ∃ m < n, ∃ s', lowerFrom src index m s = .ok s' ∧
        ((src.instructionAt? (index + m) = none ∧
            e = .program (.instructionOutOfRange (index + m) src.count)) ∨
          ∃ i, src.instructionAt? (index + m) = some i ∧ s'.lower (index + m) i = .error e)
  | index, 0, s, e => by simp [lowerFrom]
  | index, n + 1, s, e => by
    constructor
    · intro h
      unfold lowerFrom at h
      split at h
      · -- the first position is missing
        rename_i hi
        cases h
        exact ⟨0, Nat.zero_lt_succ n, s, rfl, .inl ⟨hi, rfl⟩⟩
      · rename_i i hi
        rw [bind_eq_error] at h
        rcases h with h | ⟨s₁, h₁, h⟩
        · exact ⟨0, Nat.zero_lt_succ n, s, rfl, .inr ⟨i, hi, h⟩⟩
        · -- a later position fails, after this one lowered
          obtain ⟨m, hm, s', hpre, hfail⟩ := lowerFrom_eq_error_iff.1 h
          have hidx : index + 1 + m = index + (m + 1) := by omega
          refine ⟨m + 1, by omega, s', ?_, by rwa [hidx] at hfail⟩
          simp only [lowerFrom, hi]
          exact bind_eq_ok.2 ⟨s₁, h₁, hpre⟩
    · rintro ⟨m, hm, s', hpre, hfail⟩
      cases m with
      | zero =>
        cases hpre
        rw [Nat.add_zero] at hfail
        unfold lowerFrom
        rcases hfail with ⟨hi, rfl⟩ | ⟨i, hi, h⟩
        · simp only [hi]
        · simp only [hi]
          exact bind_eq_error.2 (.inl h)
      | succ m =>
        unfold lowerFrom at hpre ⊢
        split at hpre
        · cases hpre
        · rename_i i hi
          obtain ⟨s₁, h₁, hpre⟩ := bind_eq_ok.1 hpre
          have hidx : index + 1 + m = index + (m + 1) := by omega
          exact bind_eq_error.2 (.inr ⟨s₁, h₁,
            lowerFrom_eq_error_iff.2 ⟨m, by omega, s', hpre, by rwa [hidx]⟩⟩)

/-- With an identifier for its entry point, a generation fails exactly when its pass over the
source fails: recording the outputs never does. -/
theorem generate_eq_error_iff_lowerFrom {o : Options} {src : Source} {e : TranslateError}
    (hid : isIdentifier o.entryPoint = true) :
    generate o src = .error e ↔ lowerFrom src 0 src.count (translateStart o src) = .error e := by
  have hv : o.validate = .ok () := by simp [Options.validate, hid]
  simp only [generate, hv, ok_bind]
  unfold translateStart
  cases hl : lowerFrom src 0 src.count _ with
  | error e' => simp [bind, Except.bind]
  | ok s =>
    obtain ⟨s', hs'⟩ := recordOutputs_ok hl
    simp [hs', ok_bind]

/-- **The order of the checks of a translation.** A translation fails with a configuration
error exactly when its entry point is no identifier, and then before reading the source.
Otherwise it fails at the first position that is missing or fails one of its checks, each
instruction's checks made in order in the state the positions before it left; or, when every
position lowers, because LLVM refuses the module's text, with an `invalidIr` error. -/
theorem translate_error_order (llvm : Llvm) (o : Options) (src : Source) (e : TranslateError) :
    ((∃ msg, translate llvm o src = .error (.config msg)) ↔ isIdentifier o.entryPoint = false) ∧
      (isIdentifier o.entryPoint = false →
        translate llvm o src =
          .error (.config ("entry point '" ++ o.entryPoint ++ "' is not a valid identifier"))) ∧
      (isIdentifier o.entryPoint = true →
        (translate llvm o src = .error e ↔
          (∃ m < src.count, ∃ s, lowerFrom src 0 m (translateStart o src) = .ok s ∧
            ((src.instructionAt? m = none ∧ e = .program (.instructionOutOfRange m src.count)) ∨
              ∃ i, src.instructionAt? m = some i ∧ (s.checks m i).findSome? id = some e)) ∨
          ∃ md, generate o src = .ok md ∧ irToBitcode llvm md.render md.name = .error e ∧
            ∃ msg, e = .invalidIr msg)) := by
  have hconfig : isIdentifier o.entryPoint = false → translate llvm o src =
      .error (.config ("entry point '" ++ o.entryPoint ++ "' is not a valid identifier")) := by
    intro hid
    simp [translate, generate, Options.validate, hid, bind, Except.bind]
  have horder : isIdentifier o.entryPoint = true → ∀ e, (generate o src = .error e ↔
      ∃ m < src.count, ∃ s, lowerFrom src 0 m (translateStart o src) = .ok s ∧
        ((src.instructionAt? m = none ∧ e = .program (.instructionOutOfRange m src.count)) ∨
          ∃ i, src.instructionAt? m = some i ∧ (s.checks m i).findSome? id = some e)) := by
    intro hid e
    rw [generate_eq_error_iff_lowerFrom hid, lowerFrom_eq_error_iff]
    simp only [Nat.zero_add, lower_eq_error_iff]
  -- LLVM reads the text only once the module is generated, and refuses it with `invalidIr`
  have hllvm : ∀ e, (∃ md, generate o src = .ok md ∧ irToBitcode llvm md.render md.name = .error e) ↔
      ∃ md, generate o src = .ok md ∧ irToBitcode llvm md.render md.name = .error e ∧
        ∃ msg, e = .invalidIr msg := by
    intro e
    constructor
    · rintro ⟨md, hm, hb⟩
      exact ⟨md, hm, hb, irToBitcode_eq_error hb⟩
    · rintro ⟨md, hm, hb, -⟩
      exact ⟨md, hm, hb⟩
  refine ⟨⟨?_, fun hid => ⟨_, hconfig hid⟩⟩, hconfig, fun hid => ?_⟩
  · rintro ⟨msg, h⟩
    cases hid : isIdentifier o.entryPoint
    · rfl
    · -- with an identifier, no check and no refusal of LLVM gives a configuration error
      exfalso
      rcases translate_eq_error_iff.1 h with h | ⟨md, -, hb⟩
      · obtain ⟨m, -, s, -, hfail⟩ := (horder hid _).1 h
        rcases hfail with ⟨-, hprog⟩ | ⟨i, -, hi⟩
        · cases hprog
        · exact (lower_eq_error ((lower_eq_error_iff s m i _).2 hi)).ne_config msg rfl
      · obtain ⟨msg', he⟩ := irToBitcode_eq_error hb
        cases he
  · rw [translate_eq_error_iff, horder hid, hllvm]

/-- A two-qubit gate that names one qubit twice and carries a classical bit is refused for the
repeated qubit: repeats are checked before stray classical bits. -/
theorem translate_error_order_repeat :
    translate Llvm.acceptingAll (Options.ofProfile .base)
        ⟨"bad", 2, 1, 1,
          fun k => if k = 0 then some ⟨"cx", [1, 1], [0], [], none⟩ else none⟩ =
      .error (.invalidOperands "cx" 0 "duplicate qubit operand q1") :=
  ((translate_error_order _ _ _ _).2.2 (by decide)).2
    (.inl ⟨0, by decide, _, rfl, .inr ⟨_, rfl, by decide⟩⟩)

end QirGen
