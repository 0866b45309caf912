import QirGen.Proofs.Lower.Adaptive

/-!
# The errors of lowering

Lowering an instruction fails for one of six causes (`LowerFault`): its name is outside the
instruction set; its operands do not have the shape its kind takes (`checkShape_eq_some` says
with which text); its guard is malformed or reads a bit never measured (`GuardReason`); the
profile lacks a capability; or a qubit or a measured bit lies beyond the declared count of a
bounded static table (`Handles.Refuses`). `lower_eq_error` proves that these are all, and
`generate_eq_error` places a failed generation: its options, a missing position, the first
instruction whose lowering fails, or the recording.

A reason is known by how its text starts: texts whose starts do not extend one another differ
(`ne_of_prefix`).
-/

namespace QirGen

open Ir Circuit

namespace Handles

/-- The declared count of a kind of resource. -/
def declared (h : Handles) : ResourceKind → Nat
  | .qubit => h.declaredQubits
  | .result => h.declaredResults

/-- `e` is the error of a bounded static table asked for index `i` of a resource beyond the
declared count. -/
def Refuses (h : Handles) (k : ResourceKind) (i : Nat) (e : TranslateError) : Prop :=
  h.mode = .static ∧ h.bounded = true ∧ h.declared k ≤ i ∧ e = .resourceMismatch k i (h.declared k)

/-- What using a table leaves as it was: the addressing, the bounds and the declared counts. -/
structure Keeps (h h' : Handles) : Prop where
  mode_eq : h'.mode = h.mode
  bounded_eq : h'.bounded = h.bounded
  declaredQubits_eq : h'.declaredQubits = h.declaredQubits
  declaredResults_eq : h'.declaredResults = h.declaredResults

variable {h h' h'' : Handles} {b b' : Builder} {e : TranslateError}

theorem Keeps.refl (h : Handles) : Keeps h h := ⟨rfl, rfl, rfl, rfl⟩

theorem Keeps.trans (h₁ : Keeps h h') (h₂ : Keeps h' h'') : Keeps h h'' :=
  ⟨h₂.mode_eq.trans h₁.mode_eq, h₂.bounded_eq.trans h₁.bounded_eq,
    h₂.declaredQubits_eq.trans h₁.declaredQubits_eq, h₂.declaredResults_eq.trans h₁.declaredResults_eq⟩

theorem Keeps.refuses_iff (hk : Keeps h h') {k : ResourceKind} {i : Nat} :
    h'.Refuses k i e ↔ h.Refuses k i e := by
  cases k <;> simp [Refuses, declared, hk.mode_eq, hk.bounded_eq, hk.declaredQubits_eq,
    hk.declaredResults_eq]

theorem keeps_qubit {q : Nat} {v : Value} (hq : h.qubit b q = .ok (h', b', v)) : Keeps h h' := by
  rcases qubit_eq_ok hq with ⟨-, -, -, ⟨-, -, rfl⟩ | ⟨-, rfl⟩⟩ | ⟨-, ⟨-, rfl, -⟩ | ⟨-, -, rfl, -⟩⟩ <;>
    exact ⟨rfl, rfl, rfl, rfl⟩

theorem keeps_measure {v : Value} {c : Nat} (hm : h.measure b v c = .ok (h', b')) : Keeps h h' := by
  rcases measure_eq_ok hm with ⟨-, -, ⟨-, -, rfl⟩ | ⟨-, rfl⟩⟩ | ⟨-, -, rfl⟩ <;>
    exact ⟨rfl, rfl, rfl, rfl⟩

/-- A call to a runtime function that returns a value binds it. The allocation and the
measurement of a dynamic table are such calls, so their `missingBinding` error is never raised. -/
theorem call_eq_bound (c : Callee) (args : List Value) (n : String) (hc : c.ret ≠ .void) :
    b.call c args (some n) = ((b.call c args (some n)).1, some (.named c.ret n)) := by
  rw [← Builder.call_bound c args n hc]

/-- A qubit fails to resolve only in a bounded static table, beyond its declared qubits. -/
theorem qubit_eq_error {q : Nat} (hq : h.qubit b q = .error e) : h.Refuses .qubit q e := by
  unfold qubit at hq
  split at hq
  · rename_i hmode
    split at hq
    · rename_i hb
      split at hq
      · cases hq
      · cases hq
        exact ⟨hmode, hb, by simpa [declared] using ‹¬ q < h.declaredQubits›, rfl⟩
    · cases hq
  · split at hq
    · cases hq
    · rw [call_eq_bound _ _ _ (by decide)] at hq
      cases hq

/-- A measurement fails only in a bounded static table, into a bit beyond its declared
results. -/
theorem measure_eq_error {v : Value} {c : Nat} (hm : h.measure b v c = .error e) : h.Refuses .result c e := by
  unfold measure at hm
  split at hm
  · rename_i hmode
    split at hm
    · rename_i hb
      split at hm
      · cases hm
      · cases hm
        exact ⟨hmode, hb, by simpa [declared] using ‹¬ c < h.declaredResults›, rfl⟩
    · cases hm
  · rw [call_eq_bound _ _ _ (by decide)] at hm
    cases hm

end Handles


theorem bind_eq_error {ε α β : Type} {x : Except ε α} {f : α → Except ε β} {e : ε} :
    x >>= f = .error e ↔ x = .error e ∨ ∃ a, x = .ok a ∧ f a = .error e := by
  cases x <;> simp [bind, Except.bind]

theorem mapM_eq_error {α β : Type} {f : α → Except TranslateError β} {e : TranslateError} :
    ∀ {xs : List α}, xs.mapM f = .error e → ∃ x ∈ xs, f x = .error e
  | [], h => by simp [pure, Except.pure] at h
  | x :: xs, h => by
    rw [List.mapM_cons, bind_eq_error] at h
    rcases h with h | ⟨y, -, h⟩
    · exact ⟨x, List.mem_cons_self, h⟩
    rw [bind_eq_error] at h
    rcases h with h | ⟨ys, -, h⟩
    · obtain ⟨x', hx', h'⟩ := mapM_eq_error h
      exact ⟨x', List.mem_cons_of_mem x hx', h'⟩
    · cases h

namespace Lowering

variable {s r : Lowering} {kind : GateKind} {e : TranslateError}

/-- Resolving qubits changes only the handles and the builder, and keeps the table's shape. -/
theorem resolveQubits_eq_ok : ∀ {s r : Lowering} {qs : List Nat} {vs : List Value},
    s.resolveQubits kind qs = .ok (r, vs) →
      r.profile = s.profile ∧ r.measuredQubits = s.measuredQubits ∧ r.regions = s.regions ∧
        Handles.Keeps s.handles r.handles
  | s, r, [], vs, h => by
    simp only [resolveQubits, Except.ok.injEq, Prod.mk.injEq] at h
    obtain ⟨rfl, -⟩ := h
    exact ⟨rfl, rfl, rfl, .refl _⟩
  | s, r, q :: qs, vs, h => by
    obtain ⟨-, h₁, b₁, v, vs', hq, hrest, -⟩ := resolveQubits_cons_eq_ok h
    obtain ⟨hp, hm, hr, hk⟩ := resolveQubits_eq_ok hrest
    exact ⟨hp, hm, hr, (Handles.keeps_qubit hq).trans hk⟩

/-- Resolving qubits fails for a measured qubit where qubits cannot be reused, or for a qubit
beyond the declared ones. -/
theorem resolveQubits_eq_error : ∀ {s : Lowering} {qs : List Nat},
    s.resolveQubits kind qs = .error e →
      e = s.unavailable "qubit use after measurement" ∨ ∃ q ∈ qs, s.handles.Refuses .qubit q e
  | s, [], h => by simp [resolveQubits] at h
  | s, q :: qs, h => by
    unfold resolveQubits at h
    split at h
    · left
      simpa [throw_bind] using h.symm
    rw [bind_eq_error] at h
    rcases h with h | ⟨⟨h₁, b₁, v₁⟩, hq, h⟩
    · exact .inr ⟨q, List.mem_cons_self, Handles.qubit_eq_error h⟩
    rw [bind_eq_error] at h
    rcases h with h | ⟨_, -, h⟩
    · -- the rest fails in a table of the same shape
      rcases resolveQubits_eq_error h with h | ⟨q', hq', hr⟩
      · exact .inl h
      · exact .inr ⟨q', List.mem_cons_of_mem q hq', (Handles.keeps_qubit hq).refuses_iff.1 hr⟩
    · cases h

/-- Measuring pairs changes only the handles, the builder and the measured qubits, and keeps the
table's shape. -/
theorem measurePairs_eq_ok : ∀ {s r : Lowering} {ps : List ((Nat × Value) × Nat)},
    s.measurePairs ps = .ok r →
      r.profile = s.profile ∧ r.measuredQubits = s.measuredQubits ++ ps.map (·.1.1) ∧
        r.regions = s.regions ∧ Handles.Keeps s.handles r.handles
  | s, r, [], h => by
    simp only [measurePairs, Except.ok.injEq] at h
    subst h
    exact ⟨rfl, by simp, rfl, .refl _⟩
  | s, r, ((q, v), c) :: ps, h => by
    unfold measurePairs at h
    obtain ⟨⟨h₁, b₁⟩, hm, h⟩ := bind_eq_ok.1 h
    obtain ⟨hp, hq, hr, hk⟩ := measurePairs_eq_ok h
    exact ⟨hp, by simp [hq], hr, (Handles.keeps_measure hm).trans hk⟩

/-- Measuring pairs fails only for a bit beyond the declared ones. -/
theorem measurePairs_eq_error : ∀ {s : Lowering} {ps : List ((Nat × Value) × Nat)},
    s.measurePairs ps = .error e → ∃ p ∈ ps, s.handles.Refuses .result p.2 e
  | s, [], h => by simp [measurePairs] at h
  | s, ((q, v), c) :: ps, h => by
    unfold measurePairs at h
    rw [bind_eq_error] at h
    rcases h with h | ⟨⟨h₁, b₁⟩, hm, h⟩
    · exact ⟨_, List.mem_cons_self, Handles.measure_eq_error h⟩
    · obtain ⟨p, hp, hr⟩ := measurePairs_eq_error h
      exact ⟨p, List.mem_cons_of_mem _ hp, (Handles.keeps_measure hm).refuses_iff.1 hr⟩

/-- Emitting fails only in a measurement, for a bit beyond the declared ones. -/
theorem emit_eq_error {i : Instruction} {qs : List Value} (h : s.emit kind i qs = .error e) :
    kind = .measure ∧ ∃ c ∈ i.clbits, s.handles.Refuses .result c e := by
  unfold emit at h
  split at h
  case h_1 =>
    obtain ⟨p, hp, hr⟩ := measurePairs_eq_error h
    exact ⟨rfl, p.2, (List.of_mem_zip hp).2, hr⟩
  case h_5 => split at h <;> cases h
  -- barriers, identities and delays cannot fail
  all_goals cases h


/-- Why a guard `c` is refused: it compares no bit, its value does not fit in the compared bits,
or a bit it compares was never measured. -/
def GuardReason (c : Condition) (r : String) : Prop :=
  r = "condition compares no classical bits" ∨
    r = "condition value " ++ toString c.value ++ " does not fit in " ++ toString c.bits.length ++
      " bit(s)" ∨
    ∃ b ∈ c.bits, r = "condition bit c" ++ toString b ++ " was never measured"

/-- A region fails for its guard, or for a bit beyond the declared ones in its body. -/
theorem emitConditional_eq_error {index : Nat} {i : Instruction} {c : Condition} {qs : List Value}
    (h : s.emitConditional kind index i c qs = .error e) :
    (∃ r, GuardReason c r ∧ e = .invalidOperands i.name index r) ∨
      kind = .measure ∧ ∃ b ∈ i.clbits, s.handles.Refuses .result b e := by
  unfold emitConditional at h
  dsimp only at h
  by_cases hne : c.bits.isEmpty = true
  · simp [hne, throw_bind] at h
    exact .inl ⟨_, .inl rfl, h.symm⟩
  cases hfit : c.fits
  · simp [hne, hfit, throw_bind] at h
    exact .inl ⟨_, .inr (.inl rfl), h.symm⟩
  simp only [hne, hfit, Bool.false_eq_true, if_false, Bool.not_true] at h
  rw [bind_eq_error] at h
  rcases h with h | ⟨tests, -, h⟩
  · -- a compared bit was never measured
    obtain ⟨x, hx, hfx⟩ := mapM_eq_error h
    split at hfx
    · cases hfx
    · cases hfx
      have hb : x.1 ∈ c.bits := by
        rw [← Condition.expectations_map_fst]
        exact List.mem_map_of_mem hx
      exact .inl ⟨_, .inr (.inr ⟨x.1, hb, rfl⟩), rfl⟩
  · rw [bind_eq_error] at h
    rcases h with h | ⟨s', -, h⟩
    · -- the body is emitted from a table of the same shape
      have hemit := emit_eq_error h
      exact .inr hemit
    · cases h

/-- Why lowering the instruction `i` at position `index` from the state `s` fails. -/
inductive LowerFault (s : Lowering) (index : Nat) (i : Instruction) : TranslateError → Prop
  /-- The name is outside the instruction set. -/
  | unsupported : GateKind.ofName? i.name = none →
      LowerFault s index i (.unsupportedInstruction i.name index)
  /-- The operands do not have the shape the kind takes. -/
  | shape {kind : GateKind} {r : String} : GateKind.ofName? i.name = some kind →
      checkShape s.profile.capabilities s.handles.declaredResults kind i = some r →
      LowerFault s index i (.invalidOperands i.name index r)
  /-- The guard is malformed or reads a bit never measured. -/
  | guard {c : Condition} {r : String} : i.condition = some c → GuardReason c r →
      LowerFault s index i (.invalidOperands i.name index r)
  /-- The profile lacks a capability the instruction needs. -/
  | unavailable (capability : String) :
      LowerFault s index i (.capabilityUnavailable s.profile capability)
  /-- A qubit lies beyond the declared qubits of a bounded static table. -/
  | qubit {q : Nat} {e : TranslateError} : q ∈ i.qubits → s.handles.Refuses .qubit q e →
      LowerFault s index i e
  /-- A measured bit lies beyond the declared results of a bounded static table. -/
  | result {c : Nat} {e : TranslateError} : c ∈ i.clbits → s.handles.Refuses .result c e →
      LowerFault s index i e

/-- Resolving the qubits of an instruction fails with a fault of lowering it. -/
theorem LowerFault.of_resolveQubits {index : Nat} {i : Instruction}
    (h : s.resolveQubits kind i.qubits = .error e) : LowerFault s index i e := by
  rcases resolveQubits_eq_error h with rfl | ⟨q, hq, href⟩
  · exact .unavailable _
  · exact .qubit hq href

/-- A bit beyond the declared ones after the qubits resolved was beyond them before. -/
theorem LowerFault.of_resolved {index : Nat} {i : Instruction} {qs : List Value} {c : Nat}
    (hr : s.resolveQubits kind i.qubits = .ok (r, qs)) (hc : c ∈ i.clbits)
    (href : r.handles.Refuses .result c e) : LowerFault s index i e :=
  .result hc ((resolveQubits_eq_ok hr).2.2.2.refuses_iff.1 href)

/-- **The errors of lowering.** Lowering an instruction fails for its name, its shape, its
guard, a capability the profile lacks, or an operand beyond a declared count. -/
theorem lower_eq_error {index : Nat} {i : Instruction} (h : s.lower index i = .error e) :
    LowerFault s index i e := by
  unfold lower at h
  cases hk : GateKind.ofName? i.name with
  | none =>
    simp only [hk] at h
    cases h
    exact .unsupported hk
  | some kind =>
    cases hsh : checkShape s.profile.capabilities s.handles.declaredResults kind i with
    | some r =>
      simp only [hk, hsh, throw_bind] at h
      cases h
      exact .shape hk hsh
    | none =>
      simp only [hk, hsh] at h
      cases hc : i.condition with
      | none =>
        simp only [hc, Option.isSome_none, Bool.false_eq_true, if_false] at h
        rw [bind_eq_error] at h
        rcases h with h | ⟨⟨r, qs⟩, hr, h⟩
        · exact .of_resolveQubits h
        · obtain ⟨-, c, hc', href⟩ := emit_eq_error h
          exact .of_resolved hr hc' href
      | some c =>
        by_cases hm : kind = .measure
        · simp [hm, hc, throw_bind] at h
          cases h
          exact .unavailable _
        by_cases hb : s.profile.capabilities.branchOnResult = true
        · simp only [hc, Option.isSome_some, if_true, hm, if_false, hb, Bool.not_true,
            Bool.false_eq_true] at h
          rw [bind_eq_error] at h
          rcases h with h | ⟨⟨r, qs⟩, hr, h⟩
          · exact .of_resolveQubits h
          · rcases emitConditional_eq_error h with ⟨r', hg, rfl⟩ | ⟨-, b, hb', href⟩
            · exact .guard hc hg
            · exact .of_resolved hr hb' href
        · simp [hm, hb, hc, throw_bind] at h
          cases h
          exact .unavailable _

/-- A fault of lowering is never the omission of a recorded result. -/
theorem LowerFault.ne_recordingOmission {index : Nat} {i : Instruction} (h : LowerFault s index i e)
    (c : Nat) : e ≠ .recordingOmission c := by
  cases h with
  | qubit _ href => rw [href.2.2.2]; nofun
  | result _ href => rw [href.2.2.2]; nofun
  | _ => nofun

end Lowering

open Lowering

/-- The lowering a translation starts from: a builder for its module and entry point, and
handles for the source's declared counts. -/
def translateStart (o : Options) (src : Source) : Lowering :=
  Lowering.new o.profile (Builder.new (sanitizeModuleName (o.moduleName.getD src.name)) o.entryPoint)
    src.qubitCount src.bitCount

/-- A pass over positions `index` to `index + n - 1` fails at a missing position, or at the
first instruction whose lowering fails, after the ones before it lowered. -/
theorem lowerFrom_eq_error {src : Source} :
    ∀ {index n : Nat} {s : Lowering} {e : TranslateError}, lowerFrom src index n s = .error e →
      (∃ m, m < n ∧ e = .program (.instructionOutOfRange (index + m) src.count)) ∨
      ∃ m s' i, m < n ∧ lowerFrom src index m s = .ok s' ∧ src.instructionAt? (index + m) = some i ∧
        s'.lower (index + m) i = .error e
  | index, 0, s, e, h => by cases h
  | index, n + 1, s, e, h => by
    unfold lowerFrom at h
    split at h
    · cases h
      exact .inl ⟨0, Nat.zero_lt_succ n, rfl⟩
    rename_i i hi
    rw [bind_eq_error] at h
    rcases h with h | ⟨s₁, h₁, h⟩
    · exact .inr ⟨0, s, i, Nat.zero_lt_succ n, rfl, hi, h⟩
    -- the rest of the pass starts one position later
    rcases lowerFrom_eq_error h with ⟨m, hm, rfl⟩ | ⟨m, s', i', hm, hpre, hi', h'⟩
    · exact .inl ⟨m + 1, by omega, by rw [Nat.add_right_comm, Nat.add_assoc]⟩
    · refine .inr ⟨m + 1, s', i', by omega, ?_, by rwa [Nat.add_right_comm, Nat.add_assoc] at hi',
        by rwa [Nat.add_right_comm, Nat.add_assoc] at h'⟩
      simp only [lowerFrom, hi]
      exact bind_eq_ok.2 ⟨s₁, h₁, hpre⟩

/-- A generation fails for its options, at a missing position, at the first instruction whose
lowering fails, or while recording. -/
theorem generate_eq_error {o : Options} {src : Source} {e : TranslateError}
    (h : generate o src = .error e) :
    o.validate = .error e ∨ (∃ k, e = .program (.instructionOutOfRange k src.count)) ∨
      (∃ m s i, lowerFrom src 0 m (translateStart o src) = .ok s ∧ src.instructionAt? m = some i ∧
        s.lower m i = .error e) ∨
      ∃ s, lowerFrom src 0 src.count (translateStart o src) = .ok s ∧ s.recordOutputs = .error e := by
  simp only [generate] at h
  rw [bind_eq_error] at h
  rcases h with h | ⟨⟨⟩, -, h⟩
  · exact .inl h
  rw [bind_eq_error] at h
  rcases h with h | ⟨s₁, h₁, h⟩
  · rcases lowerFrom_eq_error h with ⟨m, -, rfl⟩ | ⟨m, s, i, -, hpre, hi, h'⟩
    · exact .inr (.inl ⟨_, rfl⟩)
    · rw [Nat.zero_add] at hi h'
      exact .inr (.inr (.inl ⟨m, s, i, hpre, hi, h'⟩))
  rw [bind_eq_error] at h
  rcases h with h | ⟨s₂, -, h⟩
  · exact .inr (.inr (.inr ⟨s₁, h₁, h⟩))
  · cases h

end QirGen
