import QirGen.Proofs.Circuit.Checked

/-!
# The invariant of the program builder

From every start, a sequence of builder calls that completes gives a program whose
instructions have declared operands and whose registers are laid out in order within the
index spaces (`Program.Wellbuilt`), and no call lowers a count. A failing append names the
first operand that is not declared (`FirstOffence`: the qubits in order, each first for
range and then for repetition, then the written bits followed by the condition's bits), and
the call that made it leaves the program as it was. A register addition returns the flat
indices of the new register, and the stock circuits pass every check of the builder.

`perform_eq_ok_cases` says once what a call can do; the invariant and the counts follow from
it call by call, and over a sequence by induction.
-/

namespace QirGen

theorem Word.add_eq_ok {a b n : Nat} : Word.add a b = .ok n ↔ a + b < Word.size ∧ n = a + b := by
  unfold Word.add
  split
  · simp [*, eq_comm]
  · simp [*]

namespace Circuit

/-! ### The first operand that is not declared -/

/-- The error of the first operand of `i` not declared among `Q` qubits and `C` classical bits:
a qubit out of range, or equal to one before it, after qubits that are in range and distinct;
or, with every qubit declared, a written or compared bit out of range after bits in range. -/
inductive FirstOffence (Q C : Nat) (i : Instruction) : BuildError → Prop
  | qubitNotFound {pre post : List Nat} {q : Nat} (split : i.qubits = pre ++ q :: post)
      (pre_lt : ∀ x ∈ pre, x < Q) (pre_nodup : pre.Nodup) (out : Q ≤ q) :
      FirstOffence Q C i (.qubitNotFound q (some i.name))
  | duplicateQubit {pre post : List Nat} {q : Nat} (split : i.qubits = pre ++ q :: post)
      (pre_lt : ∀ x ∈ pre, x < Q) (pre_nodup : pre.Nodup) (lt : q < Q) (repeated : q ∈ pre) :
      FirstOffence Q C i (.duplicateQubit q (some i.name))
  | clbitNotFound {pre post : List Nat} {c : Nat} (qubits_lt : ∀ q ∈ i.qubits, q < Q)
      (nodup : i.qubits.Nodup) (split : i.allClbits = pre ++ c :: post)
      (pre_lt : ∀ x ∈ pre, x < C) (out : C ≤ c) :
      FirstOffence Q C i (.clbitNotFound c (some i.name))

namespace Program

variable {n : Nat} {gate : String}

/-- Qubits that pass the check are taken into the ones seen. -/
theorem checkQubits_append {seen pre : List Nat} (hlt : ∀ x ∈ pre, x < n)
    (hnd : pre.Nodup) (hout : ∀ x ∈ pre, x ∉ seen) (rest : List Nat) :
    checkQubits n gate seen (pre ++ rest) = checkQubits n gate (seen ++ pre) rest := by
  induction pre generalizing seen with
  | nil => simp
  | cons x pre ih =>
    simp only [List.mem_cons, forall_eq_or_imp, List.nodup_cons] at hlt hnd hout
    rw [List.cons_append, checkQubits, if_neg (Nat.not_le.2 hlt.1), if_neg hout.1,
      ih hlt.2 hnd.2 fun y hy hs => ?_, List.append_assoc, List.singleton_append]
    rcases List.mem_append.1 hs with hs | hs
    · exact hout.2 y hy hs
    · exact hnd.1 (List.mem_singleton.1 hs ▸ hy)

/-- The qubit check fails at the first qubit out of range or seen before. -/
theorem checkQubits_eq_error {e : BuildError} : ∀ {seen qs : List Nat},
    checkQubits n gate seen qs = .error e ↔
      ∃ pre q post, qs = pre ++ q :: post ∧ (∀ x ∈ pre, x < n) ∧ pre.Nodup ∧ (∀ x ∈ pre, x ∉ seen) ∧
        (n ≤ q ∧ e = .qubitNotFound q (some gate) ∨
          q < n ∧ q ∈ seen ++ pre ∧ e = .duplicateQubit q (some gate))
  | _, [] => by simp [checkQubits]
  | seen, q :: qs => by
    constructor
    · intro h
      unfold checkQubits at h
      split at h
      · exact ⟨[], q, qs, rfl, by simp, .nil, by simp, .inl ⟨‹_›, (Except.error.inj h).symm⟩⟩
      split at h
      · exact ⟨[], q, qs, rfl, by simp, .nil, by simp,
          .inr ⟨Nat.lt_of_not_le ‹_›, by simpa using ‹_›, (Except.error.inj h).symm⟩⟩
      rename_i hq hs
      obtain ⟨pre, q', post, rfl, hlt, hnd, hout, hbad⟩ := checkQubits_eq_error.1 h
      refine ⟨q :: pre, q', post, rfl, ?_, ?_, ?_, ?_⟩
      · simpa [Nat.lt_of_not_le hq] using hlt
      · exact List.nodup_cons.2 ⟨fun hm => hout q hm (by simp), hnd⟩
      · simp only [List.mem_cons, forall_eq_or_imp]
        exact ⟨hs, fun x hx hxs => hout x hx (List.mem_append_left _ hxs)⟩
      · simpa using hbad
    · rintro ⟨pre, q', post, hsplit, hlt, hnd, hout, hbad⟩
      rw [hsplit, checkQubits_append hlt hnd hout, checkQubits]
      rcases hbad with ⟨hle, rfl⟩ | ⟨hlt', hmem, rfl⟩
      · rw [if_pos hle]
      · rw [if_neg (Nat.not_le.2 hlt'), if_pos hmem]

/-- The bit check fails at the first bit out of range. -/
theorem checkClbits_eq_error {e : BuildError} : ∀ {cs : List Nat},
    checkClbits n gate cs = .error e ↔
      ∃ pre c post, cs = pre ++ c :: post ∧ (∀ x ∈ pre, x < n) ∧ n ≤ c ∧
        e = .clbitNotFound c (some gate)
  | [] => by simp [checkClbits]
  | c :: cs => by
    unfold checkClbits
    split
    · rename_i hc
      constructor
      · intro h
        exact ⟨[], c, cs, rfl, by simp, hc, (Except.error.inj h).symm⟩
      · rintro ⟨_ | ⟨x, pre⟩, c', post, hsplit, hlt, hle, rfl⟩
        · obtain ⟨rfl, -⟩ := List.cons.inj hsplit
          rfl
        · obtain ⟨rfl, -⟩ := List.cons.inj hsplit
          exact absurd (hlt _ List.mem_cons_self) (Nat.not_lt.2 hc)
    · rename_i hc
      rw [checkClbits_eq_error]
      constructor
      · rintro ⟨pre, c', post, rfl, hlt, hle, rfl⟩
        exact ⟨c :: pre, c', post, rfl, by simpa [Nat.lt_of_not_le hc] using hlt, hle, rfl⟩
      · rintro ⟨_ | ⟨x, pre⟩, c', post, hsplit, hlt, hle, rfl⟩
        · obtain ⟨rfl, -⟩ := List.cons.inj hsplit
          exact absurd hle hc
        · obtain ⟨rfl, rfl⟩ := List.cons.inj hsplit
          exact ⟨pre, c', post, rfl, fun y hy => hlt y (List.mem_cons_of_mem _ hy), hle, rfl⟩

/-- A failing check names the first operand that is not declared. -/
theorem check_eq_error_iff {p : Program} {i : Instruction} {e : BuildError} :
    p.check i = .error e ↔ FirstOffence p.numQubits p.numClbits i e := by
  unfold check
  constructor
  · intro h
    cases hq : checkQubits p.numQubits i.name [] i.qubits with
    | error e' =>
      rw [hq] at h
      cases h
      obtain ⟨pre, q, post, hsplit, hlt, hnd, -, hbad⟩ := checkQubits_eq_error.1 hq
      rcases hbad with ⟨hle, rfl⟩ | ⟨hlt', hmem, rfl⟩
      · exact .qubitNotFound hsplit hlt hnd hle
      · exact .duplicateQubit hsplit hlt hnd hlt' (by simpa using hmem)
    | ok u =>
      rw [hq] at h
      obtain ⟨hlt, hnd, -⟩ := checkQubits_eq_ok.1 hq
      obtain ⟨pre, c, post, hsplit, hpre, hle, rfl⟩ := checkClbits_eq_error.1 h
      exact .clbitNotFound hlt hnd hsplit hpre hle
  · intro h
    cases h with
    | qubitNotFound hsplit hlt hnd hle =>
      rw [checkQubits_eq_error.2 ⟨_, _, _, hsplit, hlt, hnd, by simp, .inl ⟨hle, rfl⟩⟩]
      rfl
    | duplicateQubit hsplit hlt hnd hlt' hmem =>
      rw [checkQubits_eq_error.2
        ⟨_, _, _, hsplit, hlt, hnd, by simp, .inr ⟨hlt', by simpa using hmem, rfl⟩⟩]
      rfl
    | clbitNotFound hqs hnd hsplit hpre hle =>
      have hok : checkQubits p.numQubits i.name [] i.qubits = .ok () :=
        checkQubits_eq_ok.2 ⟨hqs, hnd, fun _ _ => List.not_mem_nil⟩
      rw [hok]
      exact checkClbits_eq_error.2 ⟨_, _, _, hsplit, hpre, hle, rfl⟩

/-- A failing append names the first operand that is not declared. -/
theorem append_eq_error_iff {p : Program} {i : Instruction} {e : BuildError} :
    p.append i = .error e ↔ FirstOffence p.numQubits p.numClbits i e := by
  rw [← check_eq_error_iff]
  unfold append
  cases p.check i <;> simp [bind, Except.bind, pure, Except.pure]

end Program

/-! ### What a call does -/

/-- The instruction a call appends through the check, if it appends one: every fluent operation
and the generic append do, but `measureAll` on a program with no qubit paired with a bit; the
calls that grow the program do not. -/
def BuildCall.appended (p : Program) : BuildCall → Option Instruction
  | .addQubit | .addClbit | .addQreg .. | .addCreg .. => none
  | .oneQubit op q => some { name := op.name, qubits := [q], params := [] }
  | .rotation op theta q => some { name := op.name, qubits := [q], params := [theta] }
  | .twoQubit op a b => some { name := op.name, qubits := [a, b], params := [] }
  | .ccx a b c => some { name := "ccx", qubits := [a, b, c], params := [] }
  | .measure q c => some (Instruction.measure q c)
  | .measureAll =>
    let n := min p.numQubits p.numClbits
    if n = 0 then none else some { name := "measure", qubits := List.range n, clbits := List.range n }
  | .barrier qs => some (Instruction.barrier qs)
  | .barrierAll => some (Instruction.barrier (List.range p.numQubits))
  | .delay q duration => some { name := "delay", qubits := [q], params := [Binary64.ofNat duration] }
  | .append i => some i

namespace Program

variable {p p' : Program} {c : BuildCall}

/-- A call that appends is the checked append of its instruction: the program grows by it, or
stays as it was when the check fails. -/
theorem perform_of_appended {i : Instruction} (h : c.appended p = some i) :
    p.perform c = .ok (p.orKeep (p.append i)) := by
  cases c with
  | addQubit | addClbit | addQreg | addCreg => cases h
  | measureAll =>
    simp only [BuildCall.appended] at h
    split at h
    · cases h
    · rename_i hn
      cases h
      simp [perform, measureAll, hn]
  | _ =>
    simp only [BuildCall.appended, Option.some.injEq] at h
    subst h
    rfl

/-- An append changes the instructions only. -/
theorem orKeep_append_eq (p : Program) (i : Instruction) :
    ∃ is, p.orKeep (p.append i) = { p with instructions := is } := by
  rcases orKeep_append p i with h | ⟨-, h⟩
  · exact ⟨p.instructions, h⟩
  · exact ⟨_, h⟩

/-- What one call can do: change the instructions, add a qubit or a bit, or add a register at
the end of its index space. -/
theorem perform_eq_ok_cases (h : p.perform c = .ok p') :
    (∃ is, p' = { p with instructions := is }) ∨
      p' = { p with numQubits := p.numQubits + 1 } ∨
      p' = { p with numClbits := p.numClbits + 1 } ∨
      (∃ name size, p' = { p with numQubits := p.numQubits + size,
                                  qregs := p.qregs ++ [⟨name, p.numQubits, size⟩] }) ∨
      (∃ name size, p' = { p with numClbits := p.numClbits + size,
                                  cregs := p.cregs ++ [⟨name, p.numClbits, size⟩] }) := by
  cases ha : c.appended p with
  | some i =>
    rw [perform_of_appended ha, Except.ok.injEq] at h
    obtain ⟨is, his⟩ := orKeep_append_eq p i
    exact .inl ⟨is, h ▸ his⟩
  | none =>
    cases c with
    | addQubit => exact .inr (.inl (grow_eq_ok h))
    | addClbit => exact .inr (.inr (.inl (grow_eq_ok h)))
    | addQreg name size => exact .inr (.inr (.inr (.inl ⟨name, size, perform_addQreg h⟩)))
    | addCreg name size => exact .inr (.inr (.inr (.inr ⟨name, size, perform_addCreg h⟩)))
    | measureAll =>
      -- without a qubit paired with a bit, `measureAll` leaves the program as it is
      simp only [BuildCall.appended] at ha
      split at ha
      · rename_i hn
        simp only [perform, measureAll, hn, if_true, Except.ok.injEq, orKeep] at h
        exact .inl ⟨p.instructions, h.symm⟩
      · cases ha
    | _ => simp [BuildCall.appended] at ha

/-- A call never lowers a count. -/
theorem perform_counts (h : p.perform c = .ok p') :
    p.numQubits ≤ p'.numQubits ∧ p.numClbits ≤ p'.numClbits := by
  rcases perform_eq_ok_cases h with ⟨is, rfl⟩ | rfl | rfl | ⟨_, _, rfl⟩ | ⟨_, _, rfl⟩ <;> simp

/-- A sequence of calls never lowers a count. -/
theorem performAll_counts : ∀ {calls : List BuildCall} {p p' : Program},
    p.performAll calls = .ok p' → p.numQubits ≤ p'.numQubits ∧ p.numClbits ≤ p'.numClbits
  | [], p, p', h => by
    cases h
    exact ⟨Nat.le_refl _, Nat.le_refl _⟩
  | c :: calls, p, p', h => by
    rw [performAll_cons] at h
    obtain ⟨p₁, h₁, h⟩ := bind_eq_ok.1 h
    obtain ⟨hq₁, hc₁⟩ := perform_counts h₁
    obtain ⟨hq, hc⟩ := performAll_counts h
    exact ⟨Nat.le_trans hq₁ hq, Nat.le_trans hc₁ hc⟩

end Program

/-! ### Registers -/

/-- Registers laid out in order within `n` indices: each ends at or before the start of every
later one, so that they are disjoint and ordered by offset, and each ends within `n`. -/
structure Register.LaidOut (n : Nat) (rs : List Register) : Prop where
  ordered : rs.Pairwise fun r s => r.offset + r.size ≤ s.offset
  within : ∀ r ∈ rs, r.offset + r.size ≤ n

namespace Register.LaidOut

variable {n : Nat} {rs : List Register}

theorem nil (n : Nat) : LaidOut n [] := ⟨List.Pairwise.nil, fun _ h => absurd h List.not_mem_nil⟩

theorem mono (h : LaidOut n rs) {n' : Nat} (hn : n ≤ n') : LaidOut n' rs :=
  ⟨h.ordered, fun r hr => Nat.le_trans (h.within r hr) hn⟩

/-- A register of `size` indices from `n` on goes after every register within `n`. -/
theorem push (h : LaidOut n rs) (name : String) (size : Nat) :
    LaidOut (n + size) (rs ++ [⟨name, n, size⟩]) := by
  refine ⟨List.pairwise_append.2 ⟨h.ordered, List.pairwise_singleton _ _, ?_⟩, ?_⟩
  · intro r hr s hs
    rw [List.mem_singleton.1 hs]
    exact h.within r hr
  · intro r hr
    rcases List.mem_append.1 hr with hr | hr
    · exact Nat.le_trans (h.within r hr) (Nat.le_add_right n size)
    · obtain rfl := List.mem_singleton.1 hr
      exact Nat.le_refl _

end Register.LaidOut

/-- An element of a register inside the word range has its flat index. -/
theorem Register.flatIndex_eq {r : Register} (hw : r.offset + r.size < Word.size) {j : Nat}
    (hj : j < r.size) : r.flatIndex j = .ok (some (r.offset + j)) := by
  rw [flatIndex, if_pos hj, Word.add_ok (by omega)]
  rfl

/-- A register added at the end of an index space of `n` elements, inside the word range,
has the run of indices from `n` on as its flat indices. -/
theorem Register.mapM_flatIndex_of_add {name : String} {n size m : Nat}
    (hw : Word.add n size = .ok m) :
    (List.range size).mapM (Register.flatIndex ⟨name, n, size⟩) =
      .ok ((List.range' n size).map some) := by
  rw [List.range'_eq_map_range, List.map_map]
  exact Lowering.mapM_ok fun j hj => flatIndex_eq (Word.add_eq_ok.1 hw).1 (List.mem_range.1 hj)

namespace Program

variable {p p' : Program} {name : String} {size : Nat} {ns : List Nat}

/-- A register grown at the end of an index space of `count` elements is placed after them, and
the indices it returns are the flat indices of its elements. -/
theorem growRegister_flatIndex {count n : Nat} {r : Register}
    (h : growRegister count name size = .ok (n, r, ns)) :
    r = ⟨name, count, size⟩ ∧ (List.range size).mapM (Register.flatIndex r) = .ok (ns.map some) := by
  obtain ⟨hw, rfl, rfl⟩ := growRegister_eq_ok h
  exact ⟨rfl, Register.mapM_flatIndex_of_add hw⟩

/-- Adding a register of qubits appends it after the qubits there are and returns the flat
indices of its elements. -/
theorem addQreg_eq_ok (h : p.addQreg name size = .ok (p', ns)) :
    p'.qregs = p.qregs ++ [⟨name, p.numQubits, size⟩] ∧
      (List.range size).mapM (Register.flatIndex ⟨name, p.numQubits, size⟩) = .ok (ns.map some) := by
  obtain ⟨⟨n, r, ns'⟩, hg, h⟩ := bind_eq_ok.1 h
  obtain ⟨rfl, hmap⟩ := growRegister_flatIndex hg
  cases h
  exact ⟨rfl, hmap⟩

/-- Adding a register of classical bits appends it after the bits there are and returns the
flat indices of its elements. -/
theorem addCreg_eq_ok (h : p.addCreg name size = .ok (p', ns)) :
    p'.cregs = p.cregs ++ [⟨name, p.numClbits, size⟩] ∧
      (List.range size).mapM (Register.flatIndex ⟨name, p.numClbits, size⟩) = .ok (ns.map some) := by
  obtain ⟨⟨n, r, ns'⟩, hg, h⟩ := bind_eq_ok.1 h
  obtain ⟨rfl, hmap⟩ := growRegister_flatIndex hg
  cases h
  exact ⟨rfl, hmap⟩

/-! ### The invariant -/

/-- What every program the builder makes satisfies: its instructions have declared operands,
and its registers are laid out within the index spaces. -/
structure Wellbuilt (p : Program) : Prop where
  checked : p.Checked
  qregs : Register.LaidOut p.numQubits p.qregs
  cregs : Register.LaidOut p.numClbits p.cregs

variable {c : BuildCall}

theorem Wellbuilt.perform (hp : p.Wellbuilt) (h : p.perform c = .ok p') : p'.Wellbuilt := by
  have hc := hp.checked.perform h
  rcases perform_eq_ok_cases h with ⟨is, rfl⟩ | rfl | rfl | ⟨name, size, rfl⟩ | ⟨name, size, rfl⟩
  · exact ⟨hc, hp.qregs, hp.cregs⟩
  · exact ⟨hc, hp.qregs.mono (Nat.le_succ _), hp.cregs⟩
  · exact ⟨hc, hp.qregs, hp.cregs.mono (Nat.le_succ _)⟩
  · exact ⟨hc, hp.qregs.push name size, hp.cregs⟩
  · exact ⟨hc, hp.qregs, hp.cregs.push name size⟩

theorem Wellbuilt.performAll : ∀ {calls : List BuildCall} {p p' : Program},
    p.Wellbuilt → p.performAll calls = .ok p' → p'.Wellbuilt
  | [], _, _, hp, h => by
    cases h
    exact hp
  | c :: calls, p, p', hp, h => by
    rw [performAll_cons] at h
    obtain ⟨p₁, h₁, h⟩ := bind_eq_ok.1 h
    exact (hp.perform h₁).performAll h

end Program

/-- Every start is built well: its instructions have declared operands and it has no
registers. -/
theorem Start.wellbuilt (st : Start) : st.program.Wellbuilt := by
  have hregs : st.program.qregs = [] ∧ st.program.cregs = [] := by
    cases st with
    | ghz n =>
      by_cases hn : n = 0 <;> simp [Start.program, Program.ghz, hn, Program.new, Program.withSize]
    | _ => exact ⟨rfl, rfl⟩
  refine ⟨(Start.invariant st).1, ?_, ?_⟩
  · rw [hregs.1]
    exact .nil _
  · rw [hregs.2]
    exact .nil _

namespace Program

/-! ### The stock circuits -/

variable {p : Program} {i : Instruction}

/-- An instruction with declared operands is appended. -/
theorem append_of_declared (h : i.Declared p.numQubits p.numClbits) :
    p.append i = .ok { p with instructions := p.instructions ++ [i] } := by
  rw [append, check_eq_ok.2 h]
  rfl

/-- Instructions with declared operands are all appended, in order. -/
theorem appendAll_of_declared : ∀ {is : List Instruction} {p : Program},
    (∀ i ∈ is, i.Declared p.numQubits p.numClbits) →
      p.appendAll is = .ok { p with instructions := p.instructions ++ is }
  | [], p, _ => by simp [appendAll, pure, Except.pure]
  | i :: is, p, h => by
    have hrest := @appendAll_of_declared is { p with instructions := p.instructions ++ [i] }
      fun j hj => h j (List.mem_cons_of_mem i hj)
    rw [appendAll, List.foldlM_cons, append_of_declared (h i List.mem_cons_self), ok_bind]
    simpa [appendAll] using hrest

/-- The Bell pair passes every check of the builder. -/
theorem buildBell_eq : buildBell = .ok bell := by
  have hdecl : bell.Checked := (Start.invariant .bell).1
  rw [buildBell, appendAll_of_declared (p := withSize "bell" 2 2) hdecl]
  rfl

/-- The GHZ state passes every check of the builder, for every number of qubits. -/
theorem buildGhz_eq (n : Nat) : buildGhz n = .ok (ghz n) := by
  unfold buildGhz
  split
  · rename_i hn
    simp [ghz, hn]
  · rename_i hn
    have hdecl : (ghz n).Checked := (Start.invariant (.ghz n)).1
    have hq : (ghz n).numQubits = n := by simp [ghz, hn, withSize]
    have hc : (ghz n).numClbits = n := by simp [ghz, hn, withSize]
    rw [appendAll_of_declared (p := withSize "ghz" n n) fun i hi => by
      simpa [hq, hc, withSize] using hdecl i hi]
    simp [ghz, hn, withSize]

/-! ### The contract -/

/-- The contract of the program builder. From every start, a sequence of calls that completes
gives a well-built program, and no sequence lowers a count; a failing append is the error of
the first operand that is not declared, and a call whose append fails leaves the program as it
was; a register addition appends the register after the elements there are and returns the
flat indices of its elements; and the stock circuits pass every check. -/
theorem builder_invariant :
    (∀ (st : Start) (calls : List BuildCall) (p : Program),
      st.program.performAll calls = .ok p → p.Wellbuilt) ∧
    (∀ (p p' : Program) (calls : List BuildCall), p.performAll calls = .ok p' →
      p.numQubits ≤ p'.numQubits ∧ p.numClbits ≤ p'.numClbits) ∧
    (∀ (p : Program) (i : Instruction) (e : BuildError),
      p.append i = .error e ↔ FirstOffence p.numQubits p.numClbits i e) ∧
    (∀ (p : Program) (c : BuildCall) (i : Instruction) (e : BuildError),
      c.appended p = some i → p.append i = .error e → p.perform c = .ok p) ∧
    (∀ (p p' : Program) (name : String) (size : Nat) (ns : List Nat),
      p.addQreg name size = .ok (p', ns) →
        p'.qregs = p.qregs ++ [⟨name, p.numQubits, size⟩] ∧
          (List.range size).mapM (Register.flatIndex ⟨name, p.numQubits, size⟩) =
            .ok (ns.map some)) ∧
    (∀ (p p' : Program) (name : String) (size : Nat) (ns : List Nat),
      p.addCreg name size = .ok (p', ns) →
        p'.cregs = p.cregs ++ [⟨name, p.numClbits, size⟩] ∧
          (List.range size).mapM (Register.flatIndex ⟨name, p.numClbits, size⟩) =
            .ok (ns.map some)) ∧
    buildBell = .ok bell ∧ ∀ n, buildGhz n = .ok (ghz n) := by
  refine ⟨fun st _ _ h => (Start.wellbuilt st).performAll h, fun _ _ _ h => performAll_counts h,
    fun _ _ _ => append_eq_error_iff, fun p c i e hc he => ?_, fun _ _ _ _ _ => addQreg_eq_ok,
    fun _ _ _ _ _ => addCreg_eq_ok, buildBell_eq, buildGhz_eq⟩
  rw [perform_of_appended hc, he]
  rfl

end Program
end Circuit
end QirGen
