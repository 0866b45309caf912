import QirGen.Proofs.Lower.Errors
import QirGen.Proofs.Lower.Base

/-!
# No qubit is used after its measurement under the base profile

Where qubits cannot be reused, as under the base profile, lowering refuses an instruction that
acts on a measured qubit (every instruction acts on its qubits but barriers, identities and
delays), and the shape check refuses a measurement that repeats a qubit. The lowering state
tracks the measured qubits: one step adds those the instruction measures (`lower_frame`), so a
run acts on no qubit after measuring it (`FreshOperands`, `lowerList_fresh`).

Read through the base calls of each instruction, this says that in the entry block the constant
handle of a qubit is the qubit of at most one `mz` call, and that no call after it takes the
handle (`NoUseAfterMeasure`). Main statement: `base_measured_qubit_unused`.
-/

namespace QirGen

open Ir Circuit Lowering

/-! ### Constant handles and measurement calls -/

namespace Ir.Value

@[simp] theorem ty_pointer (t : Ty) (i : Nat) : (pointer t i).ty = t := by
  unfold pointer
  split <;> rfl

theorem pointer_inj {t : Ty} {i j : Nat} : pointer t i = pointer t j ↔ i = j := by
  constructor
  · intro h
    unfold pointer at h
    split at h <;> split at h <;> simp_all
  · rintro rfl
    rfl

theorem staticQubit_inj {i j : Nat} : staticQubit i = staticQubit j ↔ i = j := pointer_inj

theorem staticQubit_ne_staticResult (q c : Nat) : staticQubit q ≠ staticResult c := fun h => by
  simpa [staticQubit, staticResult] using congrArg Value.ty h

theorem staticQubit_ne_double (q : Nat) (x : Binary64) : staticQubit q ≠ .double x := fun h => by
  have hty := congrArg Value.ty h
  rw [staticQubit, ty_pointer] at hty
  cases hty

end Ir.Value

namespace Ir.Instr

/-- The arguments of an instruction: those of a call, none otherwise. -/
def args : Instr → List Value
  | .call _ _ args _ => args
  | _ => []

/-- Whether an instruction measures the qubit with constant handle `q`: a call of the
measurement function whose qubit argument, the first, is that handle. -/
def measuresStatic (q : Nat) (x : Instr) : Bool :=
  x.callee? == some Runtime.mz.name && x.args.head? == some (Value.staticQubit q)

theorem mem_args_of_measuresStatic {q : Nat} {x : Instr} (h : x.measuresStatic q = true) :
    Value.staticQubit q ∈ x.args := by
  simp only [measuresStatic, Bool.and_eq_true, beq_iff_eq] at h
  exact List.mem_of_mem_head? h.2

end Ir.Instr

/-- Once the qubit with constant handle `q` is measured in `is`, no later instruction takes
its handle. -/
def NoUseAfterMeasure (q : Nat) (is : List Instr) : Prop :=
  ∀ pre x post, is = pre ++ x :: post → x.measuresStatic q = true →
    ∀ y ∈ post, Value.staticQubit q ∉ y.args

namespace NoUseAfterMeasure

variable {q : Nat}

theorem nil : NoUseAfterMeasure q [] := by
  intro pre x post h
  simp at h

theorem singleton (x : Instr) : NoUseAfterMeasure q [x] := by
  intro pre y post h _ z hz
  have hlen := congrArg List.length h
  simp at hlen
  rw [List.eq_nil_of_length_eq_zero (by omega : post.length = 0)] at hz
  cases hz

theorem tail {x : Instr} {is : List Instr} (h : NoUseAfterMeasure q (x :: is)) :
    NoUseAfterMeasure q is :=
  fun pre y post hp => h (x :: pre) y post (by simp [hp])

/-- Two stretches free of uses after measurement join into one when the second does not take a
handle the first measures. -/
theorem append {A B : List Instr} (hA : NoUseAfterMeasure q A) (hB : NoUseAfterMeasure q B)
    (hAB : (∃ x ∈ A, x.measuresStatic q = true) → ∀ y ∈ B, Value.staticQubit q ∉ y.args) :
    NoUseAfterMeasure q (A ++ B) := by
  intro pre x post h hx y hy
  rcases List.append_eq_append_iff.1 h with ⟨a', -, hB'⟩ | ⟨c', hA', hpost⟩
  · exact hB a' x post hB' hx y hy
  · cases c' with
    | nil => exact hB [] x post (by simpa using hpost.symm) hx y hy
    | cons z c'' =>
      obtain ⟨rfl, rfl⟩ := List.cons_eq_cons.1 hpost
      rcases List.mem_append.1 hy with hy | hy
      · exact hA pre x c'' hA' hx y hy
      · exact hAB ⟨x, by simp [hA'], hx⟩ y hy

/-- Without uses after measurement, a handle is measured at most once. -/
theorem countP_le_one : ∀ {is : List Instr}, NoUseAfterMeasure q is →
    is.countP (·.measuresStatic q) ≤ 1
  | [], _ => by simp
  | x :: is, h => by
    by_cases hx : x.measuresStatic q = true
    · -- every later instruction misses the handle, so none measures it
      have hnone : is.countP (·.measuresStatic q) = 0 := by
        rw [List.countP_eq_zero]
        intro y hy hmy
        exact h [] x is rfl hx y hy (Instr.mem_args_of_measuresStatic hmy)
      simp [hx, hnone]
    · simpa [List.countP_cons, hx] using countP_le_one h.tail

end NoUseAfterMeasure

/-! ### The qubits a program measures and acts on -/

namespace Circuit.Instruction

/-- The qubits an instruction measures: the qubit of each measured pair. -/
def measuredQubits (i : Instruction) : List Nat :=
  if i.isMeasure then (i.qubits.zip i.clbits).map Prod.fst else []

/-- Whether an instruction acts on its qubits: every operation but barriers, identities and
delays does. -/
def actsOnQubits (i : Instruction) : Bool :=
  !(i.name == "barrier" || i.name == "id" || i.name == "delay")

end Circuit.Instruction

theorem GateKind.actsOnQubits_of_ofName? {kind : GateKind} {i : Instruction}
    (hk : ofName? i.name = some kind) : kind.actsOnQubits = i.actsOnQubits := by
  unfold ofName? at hk
  split at hk <;> cases hk <;> simp_all [actsOnQubits, Instruction.actsOnQubits]

/-- `FreshOperands M is`: after the qubits `M` are measured, no instruction of `is` acts on a
qubit measured before it. -/
def FreshOperands : List Nat → List Instruction → Prop
  | _, [] => True
  | M, i :: is => (i.actsOnQubits = true → ∀ q ∈ i.qubits, q ∉ M) ∧
      FreshOperands (M ++ i.measuredQubits) is

/-- The qubit operands of an instruction fit an arity: exactly `n` distinct qubits; at least one
qubit, all distinct, and as many as classical bits; or any qubits. -/
def Arity.Fits : Arity → List Nat → List Nat → Prop
  | .exact n, qs, _ => qs.length = n ∧ qs.Nodup
  | .paired, qs, cs => qs ≠ [] ∧ qs.length = cs.length ∧ qs.Nodup
  | .any, _, _ => True

theorem firstRepeat_eq_none_iff : ∀ {seen qs : List Nat},
    firstRepeat seen qs = none ↔ qs.Nodup ∧ ∀ q ∈ qs, q ∉ seen
  | _, [] => by simp [firstRepeat]
  | seen, q :: qs => by
    unfold firstRepeat
    split
    · rename_i hq
      simp only [reduceCtorEq, false_iff, not_and]
      exact fun _ h => h q List.mem_cons_self hq
    · rename_i hq
      rw [firstRepeat_eq_none_iff]
      simp only [List.nodup_cons, List.mem_cons, List.mem_append, List.not_mem_nil, or_false]
      constructor
      · rintro ⟨hnd, hout⟩
        exact ⟨⟨fun hm => hout q hm (.inr rfl), hnd⟩, by
          rintro x (rfl | hx)
          · exact hq
          · exact fun hs => hout x hx (.inl hs)⟩
      · rintro ⟨⟨hnotin, hnd⟩, hout⟩
        refine ⟨hnd, ?_⟩
        rintro x hx (hs | rfl)
        · exact hout x (.inr hx) hs
        · exact hnotin hx

/-- An instruction whose shape passes has qubits that fit its kind's arity. -/
theorem Arity.fits_of_checkShape {caps : Capabilities} {R : Nat} {kind : GateKind} {i : Instruction}
    (h : checkShape caps R kind i = none) : kind.arity.Fits i.qubits i.clbits := by
  unfold checkShape at h
  dsimp only at h
  split at h
  · cases h
  case h_2 hr =>
    split at hr
    case h_1 n ha =>
      split at hr
      · cases hr
      · rename_i hq
        rw [ha]
        exact ⟨by simpa using hq, (firstRepeat_eq_none_iff.1 (Option.map_eq_none_iff.1 hr)).1⟩
    case h_2 ha =>
      split at hr
      · cases hr
      · rename_i hq
        rw [ha]
        simp only [not_or, Decidable.not_not, List.length_eq_zero_iff] at hq
        exact ⟨hq.1, hq.2, (firstRepeat_eq_none_iff.1 (Option.map_eq_none_iff.1 hr)).1⟩
    case h_3 ha =>
      rw [ha]
      trivial

theorem zip_zip_map_fst {α β γ : Type} : ∀ (a : List α) (b : List β) (c : List γ),
    b.length = a.length → ((a.zip b).zip c).map (·.1.1) = (a.zip c).map Prod.fst
  | [], _, _, _ => rfl
  | _ :: _, [], _, h => by simp at h
  | _ :: _, _ :: _, [], _ => rfl
  | x :: a, y :: b, z :: c, h => by simp [zip_zip_map_fst a b c (by simpa using h)]

namespace Lowering

variable {s s' : Lowering} {kind : GateKind}

theorem length_resolveQubits : ∀ {s r : Lowering} {qs : List Nat} {vs : List Value},
    s.resolveQubits kind qs = .ok (r, vs) → vs.length = qs.length
  | s, r, [], vs, h => by
    simp only [resolveQubits, Except.ok.injEq, Prod.mk.injEq] at h
    simp [← h.2]
  | s, r, q :: qs, vs, h => by
    obtain ⟨-, h₁, b₁, v, vs', -, hrest, rfl⟩ := resolveQubits_cons_eq_ok h
    simp [length_resolveQubits hrest]

/-- Where qubits cannot be reused, the operands of a kind acting on them resolve only if none
was measured. -/
theorem resolveQubits_unmeasured : ∀ {s r : Lowering} {qs : List Nat} {vs : List Value},
    s.resolveQubits kind qs = .ok (r, vs) → kind.actsOnQubits = true →
      s.profile.capabilities.qubitReuse = false → ∀ q ∈ qs, q ∉ s.measuredQubits
  | s, r, [], vs, _, _, _ => by simp
  | s, r, q :: qs, vs, h, hk, hr => by
    obtain ⟨hfresh, h₁, b₁, v, vs', -, hrest, -⟩ := resolveQubits_cons_eq_ok h
    intro q' hq'
    rcases List.mem_cons.1 hq' with rfl | hq'
    · exact hfresh hk hr
    · exact resolveQubits_unmeasured hrest hk hr q' hq'

/-- What a step of lowering keeps: the profile and the shape of the handle table; the qubits
`ms` join the measured ones. -/
structure Frame (s s' : Lowering) (ms : List Nat) : Prop where
  profile_eq : s'.profile = s.profile
  measuredQubits_eq : s'.measuredQubits = s.measuredQubits ++ ms
  keeps : Handles.Keeps s.handles s'.handles

theorem Frame.trans {s₁ s₂ s₃ : Lowering} {ms ms' : List Nat} (h₁ : Frame s₁ s₂ ms)
    (h₂ : Frame s₂ s₃ ms') : Frame s₁ s₃ (ms ++ ms') :=
  ⟨h₂.profile_eq.trans h₁.profile_eq, by rw [h₂.measuredQubits_eq, h₁.measuredQubits_eq,
    List.append_assoc], h₁.keeps.trans h₂.keeps⟩

/-- Emitting adds the qubits of the measured pairs to the measured ones. -/
theorem emit_frame {i : Instruction} {vs : List Value} (h : s.emit kind i vs = .ok s')
    (hlen : vs.length = i.qubits.length) :
    Frame s s' (if kind = .measure then (i.qubits.zip i.clbits).map Prod.fst else []) := by
  unfold emit at h
  split at h
  case h_1 =>
    obtain ⟨hp, hm, -, hk⟩ := measurePairs_eq_ok h
    exact ⟨hp, by simp [hm, zip_zip_map_fst _ _ _ hlen], hk⟩
  case h_5 =>
    split at h <;> cases h <;> exact ⟨rfl, by simp_all, .refl _⟩
  all_goals
    cases h
    exact ⟨rfl, by simp, .refl _⟩

/-- A guarded region measures what its body does. -/
theorem emitConditional_frame {index : Nat} {i : Instruction} {c : Condition} {vs : List Value}
    (h : s.emitConditional kind index i c vs = .ok s') (hlen : vs.length = i.qubits.length) :
    Frame s s' (if kind = .measure then (i.qubits.zip i.clbits).map Prod.fst else []) := by
  obtain ⟨-, -, -, _, _, _, _, _, _, s₁, -, -, -, he, rfl⟩ := emitConditional_eq_ok h
  have hframe := emit_frame he hlen
  exact ⟨hframe.profile_eq, hframe.measuredQubits_eq, hframe.keeps⟩

/-- One lowering step adds the qubits the instruction measures to the measured ones. Where qubits
cannot be reused it succeeds only if the instruction acts on no measured qubit. -/
theorem lower_frame {index : Nat} {i : Instruction} (h : s.lower index i = .ok s') :
    Frame s s' i.measuredQubits ∧
      (s.profile.capabilities.qubitReuse = false → i.actsOnQubits = true →
        ∀ q ∈ i.qubits, q ∉ s.measuredQubits) := by
  obtain ⟨kind, hk, -, -, r, vs, hres, hemit⟩ := lower_eq_ok h
  obtain ⟨hp, hm, -, hkeep⟩ := resolveQubits_eq_ok hres
  have hlen := length_resolveQubits hres
  have hframe : Frame r s' (if kind = .measure then (i.qubits.zip i.clbits).map Prod.fst else []) := by
    cases hc : i.condition with
    | none =>
      rw [hc] at hemit
      exact emit_frame hemit hlen
    | some c =>
      rw [hc] at hemit
      exact emitConditional_frame hemit hlen
  have hms : (if kind = .measure then (i.qubits.zip i.clbits).map Prod.fst else []) =
      i.measuredQubits := by
    simp [Instruction.measuredQubits, GateKind.eq_measure_iff hk]
  refine ⟨⟨hframe.profile_eq.trans hp, ?_, hkeep.trans hframe.keeps⟩, ?_⟩
  · rw [hframe.measuredQubits_eq, hm, hms]
  · intro hr ha
    rw [← GateKind.actsOnQubits_of_ofName? hk] at ha
    exact resolveQubits_unmeasured hres ha hr

/-- A run adds the qubits its instructions measure to the measured ones. -/
theorem lowerList_frame : ∀ {index : Nat} {is : List Instruction} {s s' : Lowering},
    lowerList index is s = .ok s' → Frame s s' (is.flatMap Instruction.measuredQubits)
  | _, [], _, _, h => by
    simp only [Lowering.lowerList, Except.ok.injEq] at h
    subst h
    exact ⟨rfl, by simp, .refl _⟩
  | index, i :: is, s, s', h => by
    obtain ⟨s₁, h₁, h⟩ := lowerList_cons_eq_ok h
    simpa using (lower_frame h₁).1.trans (lowerList_frame h)

/-- An instruction that lowers measures distinct qubits. -/
theorem lower_nodup {index : Nat} {i : Instruction} (h : s.lower index i = .ok s') :
    i.measuredQubits.Nodup := by
  obtain ⟨kind, hk, hshape, -⟩ := lower_eq_ok h
  unfold Instruction.measuredQubits
  split
  case isTrue hm =>
    obtain rfl := (GateKind.eq_measure_iff hk).2 hm
    obtain ⟨-, hlen, hnd⟩ : Arity.Fits .paired i.qubits i.clbits := Arity.fits_of_checkShape hshape
    rwa [List.map_fst_zip (Nat.le_of_eq hlen)]
  case isFalse => exact List.nodup_nil

/-- Where qubits cannot be reused, a run acts on no qubit after measuring it, and measures only
distinct qubits in each instruction. -/
theorem lowerList_fresh : ∀ {index : Nat} {is : List Instruction} {s s' : Lowering},
    lowerList index is s = .ok s' → s.profile.capabilities.qubitReuse = false →
      FreshOperands s.measuredQubits is ∧ ∀ i ∈ is, i.measuredQubits.Nodup
  | _, [], _, _, _, _ => by simp [FreshOperands]
  | index, i :: is, s, s', h, hr => by
    obtain ⟨s₁, h₁, h⟩ := lowerList_cons_eq_ok h
    obtain ⟨hframe, hfresh⟩ := lower_frame h₁
    obtain ⟨ih, hnd⟩ := lowerList_fresh h (by rw [hframe.profile_eq]; exact hr)
    refine ⟨⟨hfresh hr, hframe.measuredQubits_eq ▸ ih⟩, ?_⟩
    intro x hx
    rcases List.mem_cons.1 hx with rfl | hx
    · exact lower_nodup h₁
    · exact hnd x hx

end Lowering

/-! ### What the base calls take and measure -/

theorem NoUseAfterMeasure.of_not_takes {q : Nat} {is : List Instr}
    (h : ∀ y ∈ is, Value.staticQubit q ∉ y.args) : NoUseAfterMeasure q is := by
  intro pre x post hp _ y hy
  exact h y (by simp [hp, hy])

theorem GateKind.actsOnQubits_of_callee? {kind : GateKind} {c : Callee} (h : kind.callee? = some c) :
    kind.actsOnQubits = true := by
  cases kind <;> simp_all [callee?, actsOnQubits]

/-- No gate is the measurement. -/
theorem GateKind.callee?_ne_mz {kind : GateKind} {c : Callee} (h : kind.callee? = some c) :
    c.name ≠ Runtime.mz.name := by
  cases kind <;> simp only [callee?, reduceCtorEq, Option.some.injEq] at h <;> subst h <;> decide

/-- A call a kind makes under the base profile: an `mz` of one of its measured pairs, the
barrier, or the kind's gate on its parameters and the constant handles of its qubits. -/
theorem GateKind.mem_baseCalls {kind : GateKind} {i : Instruction} {y : Instr}
    (hy : y ∈ kind.baseCalls i) :
    (kind = .measure ∧ ∃ p ∈ i.qubits.zip i.clbits,
        y = .call Runtime.mz.name .void [.staticQubit p.1, .staticResult p.2] none) ∨
      y = .call Runtime.barrier.name .void [] none ∨
      ∃ c, kind.callee? = some c ∧
        y = .call c.name .void (i.params.map .double ++ i.qubits.map .staticQubit) none := by
  unfold baseCalls at hy
  split at hy
  case h_1 =>
    obtain ⟨p, hp, rfl⟩ := List.mem_map.1 hy
    exact .inl ⟨rfl, p, hp, rfl⟩
  case h_2 => exact .inr (.inl (List.mem_singleton.1 hy))
  case h_3 c _ _ hc => exact .inr (.inr ⟨c, hc, List.mem_singleton.1 hy⟩)
  case h_4 => simp at hy

namespace Circuit.Instruction

variable {i : Instruction} {y : Instr} {q : Nat}

/-- A base call taking the constant handle of a qubit comes from an instruction acting on it. -/
theorem takes_of_baseCalls (hy : y ∈ i.baseCalls) (hq : Value.staticQubit q ∈ y.args) :
    q ∈ i.qubits ∧ i.actsOnQubits = true := by
  cases hk : GateKind.ofName? i.name with
  | none => simp [baseCalls, hk] at hy
  | some kind =>
    simp only [baseCalls, hk, Option.map_some, Option.getD_some] at hy
    rw [← GateKind.actsOnQubits_of_ofName? hk]
    rcases GateKind.mem_baseCalls hy with ⟨rfl, p, hp, rfl⟩ | rfl | ⟨c, hc, rfl⟩
    · simp only [Instr.args, List.mem_cons, List.not_mem_nil, or_false, Value.staticQubit_inj] at hq
      rcases hq with rfl | hq
      · exact ⟨(List.of_mem_zip hp).1, rfl⟩
      · exact absurd hq (Value.staticQubit_ne_staticResult _ _)
    · simp [Instr.args] at hq
    · simp only [Instr.args, List.mem_append, List.mem_map] at hq
      rcases hq with ⟨x, -, hx⟩ | ⟨q', hq', hx⟩
      · exact absurd hx.symm (Value.staticQubit_ne_double _ _)
      · rw [Value.staticQubit_inj] at hx
        exact ⟨hx ▸ hq', GateKind.actsOnQubits_of_callee? hc⟩

/-- A base call measuring a qubit comes from an instruction measuring it. -/
theorem measured_of_baseCalls (hy : y ∈ i.baseCalls) (hm : y.measuresStatic q = true) :
    q ∈ i.measuredQubits := by
  cases hk : GateKind.ofName? i.name with
  | none => simp [baseCalls, hk] at hy
  | some kind =>
    simp only [baseCalls, hk, Option.map_some, Option.getD_some] at hy
    rcases GateKind.mem_baseCalls hy with ⟨rfl, p, hp, rfl⟩ | rfl | ⟨c, hc, rfl⟩
    · simp only [Instr.measuresStatic, Instr.callee?, Instr.args, List.head?_cons, beq_self_eq_true,
        Bool.true_and, beq_iff_eq, Option.some.injEq, Value.staticQubit_inj] at hm
      rw [measuredQubits, if_pos ((GateKind.eq_measure_iff hk).1 rfl)]
      exact List.mem_map.2 ⟨p, hp, hm⟩
    · simp only [Instr.measuresStatic, Instr.callee?, beq_iff_eq, Option.some.injEq,
        Bool.and_eq_true] at hm
      exact absurd hm.1 (by decide)
    · simp only [Instr.measuresStatic, Instr.callee?, beq_iff_eq, Option.some.injEq,
        Bool.and_eq_true] at hm
      exact absurd hm.1 (GateKind.callee?_ne_mz hc)

end Circuit.Instruction

/-- The measurements of distinct qubits use no handle after measuring it. -/
theorem NoUseAfterMeasure.map_mz {q : Nat} : ∀ {ps : List (Nat × Nat)}, (ps.map Prod.fst).Nodup →
    NoUseAfterMeasure q (ps.map fun p =>
      .call Runtime.mz.name .void [.staticQubit p.1, .staticResult p.2] none)
  | [], _ => .nil
  | p :: ps, hnd => by
    rw [List.map_cons, List.nodup_cons] at hnd
    refine append (A := [_]) (singleton _) (map_mz hnd.2) ?_
    rintro ⟨x, hx, hmx⟩ y hy hqy
    obtain rfl := List.mem_singleton.1 hx
    obtain ⟨p', hp', rfl⟩ := List.mem_map.1 hy
    simp only [Instr.measuresStatic, Instr.callee?, Instr.args, List.head?_cons, beq_self_eq_true,
      Bool.true_and, beq_iff_eq, Option.some.injEq, Value.staticQubit_inj] at hmx
    simp only [Instr.args, List.mem_cons, List.not_mem_nil, or_false, Value.staticQubit_inj] at hqy
    rcases hqy with hq | hq
    · -- a later pair measures the same qubit, which the distinct qubits rule out
      exact hnd.1 (List.mem_map.2 ⟨p', hp', by rw [← hq, hmx]⟩)
    · exact Value.staticQubit_ne_staticResult _ _ hq

/-- Within the base calls of an instruction measuring distinct qubits, no handle is used after it is
measured. -/
theorem Circuit.Instruction.noUseAfterMeasure_baseCalls {i : Instruction}
    (hnd : i.measuredQubits.Nodup) (q : Nat) : NoUseAfterMeasure q i.baseCalls := by
  cases hk : GateKind.ofName? i.name with
  | none => simpa [baseCalls, hk] using NoUseAfterMeasure.nil
  | some kind =>
    simp only [baseCalls, hk, Option.map_some, Option.getD_some]
    unfold GateKind.baseCalls
    split
    case h_1 =>
      rw [measuredQubits, if_pos ((GateKind.eq_measure_iff hk).1 rfl)] at hnd
      exact NoUseAfterMeasure.map_mz hnd
    case h_4 => exact .nil
    all_goals exact .singleton _

/-- The run invariant read off the base calls: over instructions that act on no qubit measured
before them, measured first in `M`, the base calls use no handle after measuring it, and take no
handle of `M`. Induction on the instructions, with `M` growing by what each measures. -/
theorem noUseAfterMeasure_flatMap (q : Nat) : ∀ {M : List Nat} {P : List Instruction},
    FreshOperands M P → (∀ i ∈ P, i.measuredQubits.Nodup) →
      NoUseAfterMeasure q (P.flatMap Instruction.baseCalls) ∧
        (q ∈ M → ∀ y ∈ P.flatMap Instruction.baseCalls, Value.staticQubit q ∉ y.args)
  | _, [], _, _ => ⟨.nil, by simp⟩
  | M, i :: P, ⟨hi, hfresh⟩, hnd => by
    obtain ⟨ih, ihM⟩ := noUseAfterMeasure_flatMap q hfresh fun x hx => hnd x (List.mem_cons_of_mem _ hx)
    rw [List.flatMap_cons]
    refine ⟨(i.noUseAfterMeasure_baseCalls (hnd i List.mem_cons_self) q).append ih ?_, ?_⟩
    · rintro ⟨x, hx, hmx⟩
      exact ihM (List.mem_append_right _ (i.measured_of_baseCalls hx hmx))
    · intro hqM y hy hqy
      rcases List.mem_append.1 hy with hy | hy
      · obtain ⟨hq, ha⟩ := i.takes_of_baseCalls hy hqy
        exact hi ha q hq hqM
      · exact ihM (List.mem_append_left _ hqM) y hy hqy

/-- The end of the base entry block takes no qubit's handle. -/
theorem args_baseEpilogue (R q : Nat) : ∀ y ∈ baseEpilogue R, Value.staticQubit q ∉ y.args := by
  intro y hy
  simp only [baseEpilogue, List.mem_cons, List.mem_append, List.mem_map, List.mem_range,
    List.not_mem_nil, or_false] at hy
  rcases hy with (rfl | ⟨c, -, rfl⟩) | rfl | rfl
  · simp [Instr.args]
  · simpa [Instr.args] using Value.staticQubit_ne_staticResult q c
  all_goals simp [Instr.args]

/-- **Measured qubits are not reused under the base profile.** In the one block of the entry
point of a program that lowers under the base profile, the constant handle of each qubit is the
qubit of at most one `mz` call, and no call after that `mz` takes the handle. -/
theorem base_measured_qubit_unused {llvm : Llvm} {o : Options} {src : Source} {g : Generated}
    (hbase : o.profile = .base) (h : translate llvm o src = .ok g) :
    ∃ f b, g.module.entryPoint? = some f ∧ f.blocks = [b] ∧ ∀ q,
      b.instrs.countP (·.measuresStatic q) ≤ 1 ∧ NoUseAfterMeasure q b.instrs := by
  have hm := (translate_eq_ok h).1
  obtain ⟨s₁, s₂, h₁, -, -⟩ := generate_eq_ok hm
  obtain ⟨hfresh, hnd⟩ := lowerList_fresh h₁ (by simp [Lowering.new, hbase, Profile.capabilities])
  refine ⟨_, _, entryPoint?_base hbase hm, rfl, fun q => ?_⟩
  have hall : NoUseAfterMeasure q
      (src.instructions.flatMap Instruction.baseCalls ++ baseEpilogue src.bitCount) :=
    (noUseAfterMeasure_flatMap q hfresh hnd).1.append (.of_not_takes (args_baseEpilogue _ q))
      fun _ => args_baseEpilogue _ q
  exact ⟨hall.countP_le_one, hall⟩

/-- The Bell pair measures each of its qubits once, after its gates. -/
theorem base_measured_qubit_unused_bell :
    ∃ g, translate Llvm.acceptingAll (Options.ofProfile .base) (Program.bell).toSource = .ok g ∧
      ∃ f b, g.module.entryPoint? = some f ∧ f.blocks = [b] ∧ ∀ q,
        b.instrs.countP (·.measuresStatic q) ≤ 1 ∧ NoUseAfterMeasure q b.instrs :=
  ⟨_, rfl, @base_measured_qubit_unused Llvm.acceptingAll (Options.ofProfile .base)
    (Program.bell).toSource _ rfl rfl⟩

end QirGen
