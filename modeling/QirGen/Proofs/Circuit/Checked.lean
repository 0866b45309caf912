import QirGen.Circuit.Calls
import QirGen.Proofs.Lower.Reuse

/-!
# What the checked builder keeps

Every call of the builder keeps the operands of a program declared (`Program.Checked`): the
qubits of each instruction below the qubit count and distinct, and the bits it writes or
compares below the bit count. Counts only grow, and an append adds its instruction only after
the operand check passed (`check_eq_ok`). The fluent operations moreover append only
instructions that lowering takes as they are (`Instruction.Fluent`): a supported operation, not
guarded, whose operands and parameters its kind admits (`GateKind.Admits`, the rule of the shape
check, `checkShape_eq_none`).

`perform_cases` says what one call can do, `performAll_invariant` carries it over a sequence of
calls, and `Start.invariant` gives it at every start.
-/

namespace QirGen

open Circuit

/-! ### The operands a kind admits -/

/-- The operands and parameters a kind admits: qubits that fit its arity, classical bits only
where it pairs them with qubits, and a parameter count in its range. -/
structure GateKind.Admits (kind : GateKind) (i : Instruction) : Prop where
  fits : kind.arity.Fits i.qubits i.clbits
  clbits_nil : kind.arity ≠ .paired → i.clbits = []
  params_ge : kind.paramRange.1 ≤ i.params.length
  params_le : i.params.length ≤ kind.paramRange.2

/-- The shape check passes for operands the kind admits whose classical bits are declared
where register sizes are not static. -/
theorem checkShape_eq_none {caps : Capabilities} {R : Nat} {kind : GateKind} {i : Instruction}
    (h : kind.Admits i) (hR : caps.staticRegisterSizes = false → ∀ c ∈ i.clbits, c < R) :
    checkShape caps R kind i = none := by
  obtain ⟨hfit, hcl, hlo, hhi⟩ := h
  have hparams : ¬ (i.params.length < kind.paramRange.1 ∨ kind.paramRange.2 < i.params.length) := by
    omega
  unfold checkShape
  dsimp only
  cases ha : kind.arity with
  | exact n =>
    obtain ⟨hlen, hnd⟩ : i.qubits.length = n ∧ i.qubits.Nodup := by simpa [ha, Arity.Fits] using hfit
    have hdup : firstRepeat [] i.qubits = none := firstRepeat_eq_none_iff.2 ⟨hnd, by simp⟩
    simp [hlen, hdup, hcl (by simp [ha]), hparams]
  | paired =>
    obtain ⟨hne, hlen, hnd⟩ : i.qubits ≠ [] ∧ i.qubits.length = i.clbits.length ∧ i.qubits.Nodup := by
      simpa [ha, Arity.Fits] using hfit
    have hdup : firstRepeat [] i.qubits = none := firstRepeat_eq_none_iff.2 ⟨hnd, by simp⟩
    have hc0 : i.clbits.length ≠ 0 := by
      rw [← hlen]
      exact fun h => hne (List.eq_nil_of_length_eq_zero h)
    simp only [hlen, hc0, hdup, hparams, ne_eq, not_true_eq_false, or_self, if_false,
      Option.map_none]
    -- the classical bits pass the declared check, which only runs without static sizes
    cases hs : caps.staticRegisterSizes
    · simpa [List.find?_eq_none] using hR hs
    · simp
  | any =>
    simp [hcl (by simp [ha]), hparams]

/-! ### Declared operands -/

namespace Circuit

/-- The operands of an instruction are declared among `Q` qubits and `C` classical bits: its
qubits are below `Q` and distinct, and the bits it writes or compares are below `C`. -/
structure Instruction.Declared (Q C : Nat) (i : Instruction) : Prop where
  qubits_lt : ∀ q ∈ i.qubits, q < Q
  nodup : i.qubits.Nodup
  clbits_lt : ∀ c ∈ i.allClbits, c < C

theorem Instruction.Declared.mono {Q C Q' C' : Nat} {i : Instruction} (h : i.Declared Q C)
    (hQ : Q ≤ Q') (hC : C ≤ C') : i.Declared Q' C' :=
  ⟨fun q hq => Nat.lt_of_lt_of_le (h.qubits_lt q hq) hQ, h.nodup,
    fun c hc => Nat.lt_of_lt_of_le (h.clbits_lt c hc) hC⟩

namespace Program

theorem checkQubits_eq_ok {n : Nat} {gate : String} : ∀ {seen qs : List Nat},
    checkQubits n gate seen qs = .ok () ↔ (∀ q ∈ qs, q < n) ∧ qs.Nodup ∧ ∀ q ∈ qs, q ∉ seen
  | _, [] => by simp [checkQubits]
  | seen, q :: qs => by
    unfold checkQubits
    split
    · -- the first qubit is out of range
      rename_i hq
      simp only [reduceCtorEq, false_iff, not_and]
      exact fun h => absurd (h q List.mem_cons_self) (Nat.not_lt.2 hq)
    split
    · -- the first qubit was seen
      rename_i hs
      simp only [reduceCtorEq, false_iff, not_and]
      exact fun _ _ h => h q List.mem_cons_self hs
    rename_i hq hs
    rw [checkQubits_eq_ok]
    simp only [List.mem_cons, List.nodup_cons, List.mem_append, List.not_mem_nil, or_false,
      forall_eq_or_imp]
    constructor
    · rintro ⟨hlt, hnd, hout⟩
      exact ⟨⟨Nat.lt_of_not_le hq, hlt⟩, ⟨fun hm => hout q hm (.inr rfl), hnd⟩, hs,
        fun x hx hxs => hout x hx (.inl hxs)⟩
    · rintro ⟨⟨-, hlt⟩, ⟨hnotin, hnd⟩, -, hout⟩
      refine ⟨hlt, hnd, fun x hx => ?_⟩
      rintro (hxs | rfl)
      · exact hout x hx hxs
      · exact hnotin hx

theorem checkClbits_eq_ok {n : Nat} {gate : String} : ∀ {cs : List Nat},
    checkClbits n gate cs = .ok () ↔ ∀ c ∈ cs, c < n
  | [] => by simp [checkClbits]
  | c :: cs => by
    unfold checkClbits
    split
    · rename_i hc
      simp only [reduceCtorEq, false_iff, List.mem_cons, forall_eq_or_imp, not_and]
      exact fun h => absurd h (Nat.not_lt.2 hc)
    · rename_i hc
      rw [checkClbits_eq_ok]
      simp [Nat.lt_of_not_le hc]

/-- The operand check passes exactly for declared operands. -/
theorem check_eq_ok {p : Program} {i : Instruction} :
    p.check i = .ok () ↔ i.Declared p.numQubits p.numClbits := by
  unfold check
  cases hq : checkQubits p.numQubits i.name [] i.qubits with
  | error e =>
    simp only [bind, Except.bind, reduceCtorEq, false_iff]
    intro hd
    have hok : checkQubits p.numQubits i.name [] i.qubits = .ok () :=
      checkQubits_eq_ok.2 ⟨hd.qubits_lt, hd.nodup, fun q _ => List.not_mem_nil⟩
    rw [hq] at hok
    cases hok
  | ok u =>
    obtain ⟨hlt, hnd, -⟩ := checkQubits_eq_ok.1 hq
    simp only [bind, Except.bind, checkClbits_eq_ok]
    exact ⟨fun hc => ⟨hlt, hnd, hc⟩, fun hd => hd.clbits_lt⟩

/-- An append extends the program by the instruction, or fails and keeps it. -/
theorem orKeep_append (p : Program) (i : Instruction) :
    p.orKeep (p.append i) = p ∨ i.Declared p.numQubits p.numClbits ∧
      p.orKeep (p.append i) = { p with instructions := p.instructions ++ [i] } := by
  unfold append
  cases hc : p.check i with
  | error e => exact .inl rfl
  | ok u => exact .inr ⟨check_eq_ok.1 hc, rfl⟩

/-- Every instruction of the program has declared operands. -/
def Checked (p : Program) : Prop := ∀ i ∈ p.instructions, i.Declared p.numQubits p.numClbits

end Program

/-- An instruction of the kind the fluent operations append: a supported operation, not guarded,
whose operands and parameters its kind admits. -/
structure Instruction.Fluent (i : Instruction) : Prop where
  admitted : ∃ kind, GateKind.ofName? i.name = some kind ∧ kind.Admits i
  unguarded : i.condition = none

/-- Every instruction of the program is of the kind the fluent operations append. -/
def Program.Fluent (p : Program) : Prop := ∀ i ∈ p.instructions, i.Fluent

/-! ### What each call appends -/

theorem OneQubitOp.fluent (op : OneQubitOp) (q : Nat) :
    Instruction.Fluent { name := op.name, qubits := [q], params := [] } := by
  refine ⟨?_, rfl⟩
  cases op <;> exact ⟨_, rfl, by constructor <;> simp [GateKind.arity, GateKind.paramRange, Arity.Fits]⟩

theorem RotationOp.fluent (op : RotationOp) (theta : Binary64) (q : Nat) :
    Instruction.Fluent { name := op.name, qubits := [q], params := [theta] } := by
  refine ⟨?_, rfl⟩
  cases op <;> exact ⟨_, rfl, by constructor <;> simp [GateKind.arity, GateKind.paramRange, Arity.Fits]⟩

/-- A gate on distinct qubits among two or three is of the fluent kind. -/
theorem Instruction.fluent_gate {name : String} {kind : GateKind} {qs : List Nat}
    (hk : GateKind.ofName? name = some kind) (ha : kind.arity = .exact qs.length)
    (hp : kind.paramRange = (0, 0)) (hnd : qs.Nodup) :
    Instruction.Fluent { name, qubits := qs, params := [] } :=
  ⟨⟨kind, hk, ⟨by simpa [ha, Arity.Fits] using hnd, by simp [ha], by simp [hp], by simp [hp]⟩⟩, rfl⟩

theorem Instruction.fluent_measure {qs cs : List Nat} (hne : qs ≠ []) (hlen : qs.length = cs.length)
    (hnd : qs.Nodup) : Instruction.Fluent { name := "measure", qubits := qs, clbits := cs } :=
  ⟨⟨.measure, rfl, ⟨⟨hne, hlen, hnd⟩, fun h => absurd rfl h, by simp [GateKind.paramRange],
    by simp [GateKind.paramRange]⟩⟩, rfl⟩

theorem Instruction.fluent_barrier (qs : List Nat) : (Instruction.barrier qs).Fluent :=
  ⟨⟨.barrier, rfl, ⟨trivial, fun _ => rfl, by simp [GateKind.paramRange],
    by simp [Instruction.barrier, GateKind.paramRange]⟩⟩, rfl⟩

theorem Instruction.fluent_delay (q : Nat) (x : Binary64) :
    Instruction.Fluent { name := "delay", qubits := [q], params := [x] } :=
  ⟨⟨.delay, rfl, ⟨by simp [GateKind.arity, Arity.Fits], fun _ => rfl,
    by simp [GateKind.paramRange], by simp [GateKind.paramRange]⟩⟩, rfl⟩

namespace Program

variable {p p' : Program}

theorem eq_of_word_add {a b n : Nat} (h : Word.add a b = .ok n) : n = a + b := by
  unfold Word.add at h
  split at h
  · exact (Except.ok.inj h).symm
  · cases h

/-- A count grown by a checked addition: the program is built from the sum. -/
theorem grow_eq_ok {α : Type} {a b : Nat} {g : Nat → Program × α}
    (h : Prod.fst <$> (do let n ← Word.add a b; return g n) = (Except.ok p' : Except Fault Program)) :
    p' = (g (a + b)).1 := by
  cases hw : Word.add a b <;>
    simp [hw, bind, Except.bind, Functor.map, Except.map, pure, Except.pure] at h
  rw [← h, eq_of_word_add hw]

theorem fst_map_eq_ok {ε α β : Type} {x : Except ε (α × β)} {a : α} :
    Prod.fst <$> x = .ok a ↔ ∃ b, x = .ok (a, b) := by
  rcases x with _ | ⟨a', b⟩ <;> simp [Functor.map, Except.map]

/-- Growing an index space by a register: a checked sum for the new count, the register placed
after the elements there are, and the run of indices it covers. -/
theorem growRegister_eq_ok {count size n : Nat} {name : String} {r : Register} {ns : List Nat}
    (h : Program.growRegister count name size = .ok (n, r, ns)) :
    Word.add count size = .ok n ∧ r = ⟨name, count, size⟩ ∧ ns = List.range' count size := by
  obtain ⟨m, hw, h⟩ := bind_eq_ok.1 h
  cases h
  exact ⟨hw, rfl, rfl⟩

/-- Adding a register of qubits places it after the qubits there are and grows their count by
its size. -/
theorem perform_addQreg {name : String} {size : Nat} (h : p.perform (.addQreg name size) = .ok p') :
    p' = { p with numQubits := p.numQubits + size,
                  qregs := p.qregs ++ [⟨name, p.numQubits, size⟩] } := by
  obtain ⟨_, h⟩ := fst_map_eq_ok.1 h
  obtain ⟨⟨n, r, ns⟩, hg, h⟩ := bind_eq_ok.1 h
  obtain ⟨hw, rfl, rfl⟩ := growRegister_eq_ok hg
  cases h
  rw [eq_of_word_add hw]

/-- Adding a register of classical bits places it after the bits there are and grows their
count by its size. -/
theorem perform_addCreg {name : String} {size : Nat} (h : p.perform (.addCreg name size) = .ok p') :
    p' = { p with numClbits := p.numClbits + size,
                  cregs := p.cregs ++ [⟨name, p.numClbits, size⟩] } := by
  obtain ⟨_, h⟩ := fst_map_eq_ok.1 h
  obtain ⟨⟨n, r, ns⟩, hg, h⟩ := bind_eq_ok.1 h
  obtain ⟨hw, rfl, rfl⟩ := growRegister_eq_ok hg
  cases h
  rw [eq_of_word_add hw]

/-- What one builder call does: it grows the counts and keeps the instructions, or it is a
checked append; the instruction a fluent call appends is of the fluent kind when its qubits are
distinct. -/
theorem perform_cases {c : BuildCall} (h : p.perform c = .ok p') :
    (p.numQubits ≤ p'.numQubits ∧ p.numClbits ≤ p'.numClbits ∧ p'.instructions = p.instructions) ∨
      ∃ i, p' = p.orKeep (p.append i) ∧ (c.isFluent = true → i.qubits.Nodup → i.Fluent) := by
  cases c with
  | addQubit =>
    obtain rfl := grow_eq_ok h
    exact .inl (by simp)
  | addClbit =>
    obtain rfl := grow_eq_ok h
    exact .inl (by simp)
  | addQreg name size =>
    obtain rfl := perform_addQreg h
    exact .inl (by simp)
  | addCreg name size =>
    obtain rfl := perform_addCreg h
    exact .inl (by simp)
  | oneQubit op q => exact .inr ⟨_, (Except.ok.inj h).symm, fun _ _ => OneQubitOp.fluent op q⟩
  | rotation op theta q =>
    exact .inr ⟨_, (Except.ok.inj h).symm, fun _ _ => RotationOp.fluent op theta q⟩
  | twoQubit op a b =>
    refine .inr ⟨_, (Except.ok.inj h).symm, fun _ hnd => ?_⟩
    cases op <;> exact Instruction.fluent_gate rfl rfl rfl hnd
  | ccx a b c => exact .inr ⟨_, (Except.ok.inj h).symm, fun _ hnd => Instruction.fluent_gate rfl rfl rfl hnd⟩
  | measure q c =>
    exact .inr ⟨_, (Except.ok.inj h).symm, fun _ _ => Instruction.fluent_measure (by simp) rfl (by simp)⟩
  | measureAll =>
    simp only [perform, Except.ok.injEq] at h
    unfold measureAll at h
    dsimp only at h
    split at h
    · subst h
      exact .inl ⟨Nat.le_refl _, Nat.le_refl _, rfl⟩
    · rename_i hn
      refine .inr ⟨_, h.symm, fun _ _ => Instruction.fluent_measure ?_ (by simp) List.nodup_range⟩
      simpa using hn
  | barrier qs => exact .inr ⟨_, (Except.ok.inj h).symm, fun _ _ => Instruction.fluent_barrier qs⟩
  | barrierAll => exact .inr ⟨_, (Except.ok.inj h).symm, fun _ _ => Instruction.fluent_barrier _⟩
  | delay q d => exact .inr ⟨_, (Except.ok.inj h).symm, fun _ _ => Instruction.fluent_delay q _⟩
  | append i => exact .inr ⟨i, (Except.ok.inj h).symm, fun h => by cases h⟩

/-- Every call keeps the operands of the program declared. -/
theorem Checked.perform {c : BuildCall} (hp : p.Checked) (h : p.perform c = .ok p') : p'.Checked := by
  rcases perform_cases h with ⟨hq, hc, hi⟩ | ⟨i, rfl, -⟩
  · intro j hj
    rw [hi] at hj
    exact (hp j hj).mono hq hc
  · rcases orKeep_append p i with heq | ⟨hd, heq⟩
    · rwa [heq]
    · rw [heq]
      intro j hj
      rcases List.mem_append.1 hj with hj | hj
      · exact hp j hj
      · rwa [List.mem_singleton.1 hj]

/-- Every fluent call keeps the program's instructions of the fluent kind. -/
theorem Fluent.perform {c : BuildCall} (hp : p.Fluent) (hc : c.isFluent = true)
    (h : p.perform c = .ok p') : p'.Fluent := by
  rcases perform_cases h with ⟨-, -, hi⟩ | ⟨i, rfl, hi⟩
  · rwa [Fluent, hi]
  · rcases orKeep_append p i with heq | ⟨hd, heq⟩
    · rwa [heq]
    · rw [heq]
      intro j hj
      rcases List.mem_append.1 hj with hj | hj
      · exact hp j hj
      · rw [List.mem_singleton.1 hj]
        exact hi hc hd.nodup

theorem performAll_cons (p : Program) (c : BuildCall) (calls : List BuildCall) :
    p.performAll (c :: calls) = p.perform c >>= (·.performAll calls) := rfl

end Program

/-! ### The starts -/

/-- The GHZ instructions over `n` qubits have declared operands and are of the fluent kind. -/
theorem Program.ghz_invariant (n : Nat) : (Program.ghz n).Checked ∧ (Program.ghz n).Fluent := by
  unfold Program.ghz
  split
  · exact ⟨fun _ hi => absurd hi List.not_mem_nil, fun _ hi => absurd hi List.not_mem_nil⟩
  rename_i hn
  constructor
  · intro i hi
    simp only [List.mem_append, List.mem_singleton, List.mem_map, List.mem_range] at hi
    rcases hi with (rfl | ⟨k, hk, rfl⟩) | ⟨k, hk, rfl⟩
    · exact ⟨by simp [Instruction.single, Program.withSize]; omega, by simp [Instruction.single],
        by simp [Instruction.single, Instruction.allClbits]⟩
    · exact ⟨by simp [Program.withSize]; omega, by simp, by simp [Instruction.allClbits]⟩
    · exact ⟨by simp [Instruction.measure, Program.withSize, hk], by simp [Instruction.measure],
        by simp [Instruction.measure, Instruction.allClbits, Program.withSize, hk]⟩
  · intro i hi
    simp only [List.mem_append, List.mem_singleton, List.mem_map, List.mem_range] at hi
    rcases hi with (rfl | ⟨k, hk, rfl⟩) | ⟨k, hk, rfl⟩
    · exact OneQubitOp.fluent .h 0
    · exact Instruction.fluent_gate rfl rfl rfl (by simp)
    · exact Instruction.fluent_measure (by simp) rfl (by simp)

/-- Every start has declared operands, with instructions of the fluent kind. -/
theorem Start.invariant (st : Start) : st.program.Checked ∧ st.program.Fluent := by
  cases st with
  | new name => exact ⟨fun _ hi => absurd hi List.not_mem_nil, fun _ hi => absurd hi List.not_mem_nil⟩
  | withSize name q c =>
    exact ⟨fun _ hi => absurd hi List.not_mem_nil, fun _ hi => absurd hi List.not_mem_nil⟩
  | bell =>
    -- the Bell pair holds the instructions of the GHZ state over two qubits
    have h := Program.ghz_invariant 2
    exact ⟨fun i hi => h.1 i hi, fun i hi => h.2 i hi⟩
  | ghz n => exact Program.ghz_invariant n

end Circuit

end QirGen
