import QirGen.Proofs.Lower.Emission
import QirGen.Proofs.Circuit.Condition
import Mathlib.Data.List.Induction

/-!
# Lowering under the adaptive profile

Under the adaptive profile handles come from the runtime. The first reference to a qubit
allocates it (`%q<i> = call @__quantum__rt__qubit_allocate()`) in the block being written,
before anything else of that instruction; later references reuse the handle. The `k`-th
measured pair of the program binds a fresh result `%r<k>`, and a classical bit stands for
the result of the latest measurement into it. A guarded instruction becomes a region: a
chain of tests, the body in `then<r>`, and the join block `continue<r>` where lowering goes
on.

This module states all of it as a linear description, `adaptiveSegment P i`, of the lines
that lowering instruction `i` writes after the instructions `P`, and proves that lowering
writes exactly that (`AdaptiveState.lowerList`); allocation, regions and well-formedness are
then read off the segments.
-/

namespace QirGen

open Ir Circuit Lowering

/-! ### Names and handles under dynamic addressing -/

/-- The handle of qubit `q`: the name its allocation binds. -/
def qubitHandle (q : Nat) : Value := .named .qubit ("q" ++ toString q)

/-- The result bound by the `k`-th measurement of the program. -/
def resultHandle (k : Nat) : Value := .named .result ("r" ++ toString k)

/-- The allocation of qubit `q`. -/
def allocCall (q : Nat) : Instr := .call Runtime.qubitAllocate.name .qubit [] (some ("q" ++ toString q))

/-- The qubits of `qs` not in `seen`, each once, in order of first occurrence. -/
def newQubits : List Nat → List Nat → List Nat
  | _, [] => []
  | seen, q :: qs => if q ∈ seen then newQubits seen qs else q :: newQubits (seen ++ [q]) qs

/-- The qubits the instructions refer to, each once, in order of first reference. -/
def firstUses (P : List Instruction) : List Nat := newQubits [] (P.flatMap (·.qubits))

/-- The classical bits measured by the instructions, one per measured pair, in order. -/
def measuredBits (P : List Instruction) : List Nat :=
  P.flatMap fun i => if i.isMeasure then (i.qubits.zip i.clbits).map Prod.snd else []

/-- The position, among measurements `ms`, of the latest one into bit `c`. -/
def lastIndex (ms : List Nat) (c : Nat) : Option Nat :=
  ms.zipIdx.foldl (fun acc p => if p.1 = c then some p.2 else acc) none

/-- The number of guarded instructions. -/
def guardedCount (P : List Instruction) : Nat := (P.filter (·.condition.isSome)).length

theorem newQubits_append (seen : List Nat) :
    ∀ xs ys : List Nat,
      newQubits seen (xs ++ ys) = newQubits seen xs ++ newQubits (seen ++ newQubits seen xs) ys
  | [], ys => by simp [newQubits]
  | x :: xs, ys => by
    by_cases hx : x ∈ seen
    · simp [newQubits, hx, newQubits_append seen xs ys]
    · simp [newQubits, hx, newQubits_append (seen ++ [x]) xs ys]

/-- The new qubits of `qs` are those of `qs` not in `seen`. -/
theorem mem_newQubits {q : Nat} : ∀ {seen qs : List Nat}, q ∈ newQubits seen qs ↔ q ∈ qs ∧ q ∉ seen
  | _, [] => by simp [newQubits]
  | seen, x :: qs => by
    by_cases hx : x ∈ seen
    · have := @mem_newQubits q seen qs
      by_cases hq : q = x
      · subst hq
        simp [newQubits, hx, this]
      · simp [newQubits, hx, this, hq]
    · have := @mem_newQubits q (seen ++ [x]) qs
      by_cases hq : q = x
      · subst hq
        simp [newQubits, hx]
      · simp [newQubits, hx, this, hq]

/-- Each new qubit is listed once. -/
theorem nodup_newQubits : ∀ (seen qs : List Nat), (newQubits seen qs).Nodup
  | _, [] => List.nodup_nil
  | seen, x :: qs => by
    by_cases hx : x ∈ seen
    · simpa [newQubits, hx] using nodup_newQubits seen qs
    · simp only [newQubits, hx, if_false, List.nodup_cons, mem_newQubits]
      exact ⟨by simp, nodup_newQubits (seen ++ [x]) qs⟩

theorem nodup_firstUses (P : List Instruction) : (firstUses P).Nodup := nodup_newQubits _ _

/-- The qubits referenced by the instructions, each listed once. -/
theorem mem_firstUses {q : Nat} {P : List Instruction} : q ∈ firstUses P ↔ ∃ i ∈ P, q ∈ i.qubits := by
  simp [firstUses, mem_newQubits]

theorem firstUses_append_singleton (P : List Instruction) (i : Instruction) :
    firstUses (P ++ [i]) = firstUses P ++ newQubits (firstUses P) i.qubits := by
  simp [firstUses, newQubits_append]

theorem measuredBits_append_singleton (P : List Instruction) (i : Instruction) :
    measuredBits (P ++ [i]) =
      measuredBits P ++ if i.isMeasure then (i.qubits.zip i.clbits).map Prod.snd else [] := by
  simp [measuredBits]

theorem guardedCount_append_singleton (P : List Instruction) (i : Instruction) :
    guardedCount (P ++ [i]) = guardedCount P + if i.condition.isSome then 1 else 0 := by
  by_cases h : i.condition.isSome <;> simp [guardedCount, h]

theorem lastIndex_append_singleton (ms : List Nat) (b c : Nat) :
    lastIndex (ms ++ [b]) c = if b = c then some ms.length else lastIndex ms c := by
  simp [lastIndex, List.zipIdx_append]

/-- The latest measurement into a bit is one of the measurements. -/
theorem lastIndex_lt {c j : Nat} {ms : List Nat} (h : lastIndex ms c = some j) : j < ms.length := by
  induction ms using List.reverseRecOn generalizing j with
  | nil => simp [lastIndex] at h
  | append_singleton ms b ih =>
    rw [lastIndex_append_singleton] at h
    split at h
    · cases h
      simp
    · have := ih h
      simp
      omega

/-! ### The dynamic handle table -/

namespace Handles

theorem lookup_bind_self (c : Nat) (v : Value) :
    ∀ l : List (Nat × Value), lookup c (bind c v l) = some v
  | [] => by simp [lookup, bind]
  | (k, w) :: l => by
    by_cases h : k = c
    · simp [lookup, bind, h]
    · simpa [lookup, bind, h] using lookup_bind_self c v l

theorem lookup_bind_ne {c d : Nat} (h : d ≠ c) (v : Value) :
    ∀ l : List (Nat × Value), lookup d (bind c v l) = lookup d l
  | [] => by simp [lookup, bind, Ne.symm h]
  | (k, w) :: l => by
    by_cases hk : k = c
    · subst hk
      simp [lookup, bind, Ne.symm h]
    · by_cases hd : k = d
      · subst hd
        simp [lookup, bind, hk]
      · simpa [lookup, bind, hk, hd] using lookup_bind_ne h v l

/-- An allocation list of handles named after their qubits finds exactly its qubits. -/
theorem lookup_allocated (q : Nat) (alloc : List Nat) :
    lookup q (alloc.map fun x => (x, qubitHandle x)) =
      if q ∈ alloc then some (qubitHandle q) else none := by
  induction alloc with
  | nil => simp [lookup]
  | cons x xs ih =>
    simp only [lookup] at ih ⊢
    by_cases hx : x = q
    · subst hx
      simp
    · have hxq : (x == q) = false := by simpa using hx
      simp only [List.map_cons, List.find?_cons, hxq, ih, List.mem_cons]
      simp [Ne.symm hx]

variable {h : Handles}

/-- Under dynamic addressing a qubit already allocated keeps its handle, and a new one is
allocated by a call binding its name. -/
theorem qubit_dynamic (hm : h.mode = .dynamic) (b : Builder) (q : Nat) :
    h.qubit b q = match lookup q h.allocated with
      | some v => .ok (h, b, v)
      | none => .ok ({ h with allocated := h.allocated ++ [(q, qubitHandle q)],
                              requiredQubits := h.requiredQubits + 1 },
                     (b.call Runtime.qubitAllocate [] (some ("q" ++ toString q))).1, qubitHandle q) := by
  simp only [qubit, hm]
  rfl

/-- Under dynamic addressing a measurement binds the next numbered result to the bit. -/
theorem measure_dynamic (hm : h.mode = .dynamic) (b : Builder) (v : Value) (c : Nat) :
    h.measure b v c =
      .ok ({ h with requiredResults := h.requiredResults + 1,
                    results := bind c (resultHandle h.requiredResults) h.results },
           (b.call Runtime.m [v] (some ("r" ++ toString h.requiredResults))).1) := by
  simp only [measure, hm]
  rfl

end Handles

/-- A dynamic table for `R` declared bits that has allocated the qubits `alloc`, in order,
and measured into the bits `ms`, in order: each bit holds the result of its latest
measurement. -/
structure DynamicHandles (h : Handles) (R : Nat) (alloc ms : List Nat) : Prop where
  mode_eq : h.mode = .dynamic
  declaredResults_eq : h.declaredResults = R
  allocated_eq : h.allocated = alloc.map fun q => (q, qubitHandle q)
  requiredQubits_eq : h.requiredQubits = alloc.length
  requiredResults_eq : h.requiredResults = ms.length
  results_eq : ∀ c, Handles.lookup c h.results = (lastIndex ms c).map resultHandle

theorem dynamicHandles_new (Q R : Nat) (bounded : Bool) :
    DynamicHandles ((Handles.new .dynamic Q R).withBounds bounded) R [] [] :=
  ⟨rfl, rfl, rfl, rfl, rfl, fun c => by simp [Handles.lookup, lastIndex, Handles.withBounds, Handles.new]⟩

namespace DynamicHandles

variable {h : Handles} {R : Nat} {alloc ms : List Nat}

/-- An allocated qubit resolves to its handle, and nothing changes. -/
theorem qubit_of_mem (hs : DynamicHandles h R alloc ms) (b : Builder) {q : Nat} (hq : q ∈ alloc) :
    h.qubit b q = .ok (h, b, qubitHandle q) := by
  rw [Handles.qubit_dynamic hs.mode_eq, hs.allocated_eq, Handles.lookup_allocated]
  simp [hq]

/-- A qubit not yet allocated is allocated by a call that binds its name, and joins the
allocated qubits. -/
theorem qubit_of_not_mem (hs : DynamicHandles h R alloc ms) (b : Builder) {q : Nat}
    (hq : q ∉ alloc) :
    ∃ h', h.qubit b q =
        .ok (h', (b.call Runtime.qubitAllocate [] (some ("q" ++ toString q))).1, qubitHandle q) ∧
      DynamicHandles h' R (alloc ++ [q]) ms := by
  refine ⟨{ h with
    allocated := h.allocated ++ [(q, qubitHandle q)]
    requiredQubits := h.requiredQubits + 1 }, ?_, ?_⟩
  · rw [Handles.qubit_dynamic hs.mode_eq, hs.allocated_eq, Handles.lookup_allocated]
    simp [hq]
  · exact ⟨hs.mode_eq, hs.declaredResults_eq, by simp [hs.allocated_eq],
      by simp [hs.requiredQubits_eq], hs.requiredResults_eq, hs.results_eq⟩

/-- A measurement binds the next numbered result to its bit, by an `m` call; that result is
then the bit's latest. -/
theorem measure_eq (hs : DynamicHandles h R alloc ms) (b : Builder) (v : Value) (c : Nat) :
    ∃ h', h.measure b v c = .ok (h', (b.call Runtime.m [v] (some ("r" ++ toString ms.length))).1) ∧
      DynamicHandles h' R alloc (ms ++ [c]) := by
  refine ⟨{ h with
    requiredResults := h.requiredResults + 1
    results := Handles.bind c (resultHandle h.requiredResults) h.results }, ?_, ?_⟩
  · rw [Handles.measure_dynamic hs.mode_eq, hs.requiredResults_eq]
  · refine ⟨hs.mode_eq, hs.declaredResults_eq, hs.allocated_eq, hs.requiredQubits_eq,
      by simp [hs.requiredResults_eq], fun d => ?_⟩
    -- the new result is the latest measurement into `c`, and every other bit keeps its own
    by_cases hd : d = c
    · subst hd
      simp [Handles.lookup_bind_self, lastIndex_append_singleton, hs.requiredResults_eq]
    · simp [Handles.lookup_bind_ne hd, lastIndex_append_singleton, Ne.symm hd, hs.results_eq]

end DynamicHandles

/-- What a kind of instruction becomes under the adaptive profile after `n` measured pairs:
one `m` per measured pair, binding the next numbered results; otherwise the same calls as
under the base profile, with the qubits' allocated handles. -/
def GateKind.adaptiveCalls (kind : GateKind) (n : Nat) (i : Instruction) : List Instr :=
  match kind, kind.callee? with
  | .measure, _ => ((i.qubits.zip i.clbits).zipIdx n).map fun pk =>
      .call Runtime.m.name .result [qubitHandle pk.1.1] (some ("r" ++ toString pk.2))
  | .barrier, _ => [.call Runtime.barrier.name .void [] none]
  | _, some c => [.call c.name .void (i.params.map .double ++ i.qubits.map qubitHandle) none]
  | _, none => []

/-! ### Conditional regions -/

/-- The label of the block of test `k` (from `1` on) of region `r`. -/
def condLabel (r k : Nat) : String := "cond" ++ toString r ++ "." ++ toString k

/-- The label of the block holding the guarded body of region `r`. -/
def thenLabel (r : Nat) : String := "then" ++ toString r

/-- The label of the join block of region `r`, where lowering continues. -/
def continueLabel (r : Nat) : String := "continue" ++ toString r

/-- The name the read of test `k` of region `r` binds. -/
def testName (r k : Nat) : String := "c" ++ toString r ++ "." ++ toString k

/-- Where the `n` tests of region `r` go on a match: test `k` to the block of test `k + 1`,
the last one to the body. -/
def testTargets (r n : Nat) : List String :=
  ((List.range (n - 1)).map fun k => condLabel r (k + 1)) ++ [thenLabel r]

/-- The lines of the tests of region `r` from test `k` on: each reads its result, branches
to its target on a match and to `join` otherwise, and the target block starts. -/
def testLines (r : Nat) (join : String) : Nat → List ((Value × Bool) × String) → List Line
  | _, [] => []
  | k, ((v, e), t) :: rest =>
    .instr (.call Runtime.readResult.name .bool [v] (some (testName r k))) ::
    .instr (.condBr (.named .bool (testName r k)) (if e then t else join) (if e then join else t)) ::
    .label t :: testLines r join (k + 1) rest

/-- The lines of region `r`: the tests, the body and its branch to the join block, which
then starts. -/
def regionLines (r : Nat) (tests : List (Value × Bool)) (body : List Instr) : List Line :=
  testLines r (continueLabel r) 0 (tests.zip (testTargets r tests.length)) ++
    body.map .instr ++ [.instr (.br (continueLabel r)), .label (continueLabel r)]

/-- The bits a kind of instruction measures into: one per measured pair. -/
def GateKind.measuredBits (kind : GateKind) (i : Instruction) : List Nat :=
  if kind = .measure then (i.qubits.zip i.clbits).map Prod.snd else []

namespace Lowering

variable {s s' : Lowering} {name : String} {done todo : List Block} {cur : Block} {R : Nat}
  {alloc ms : List Nat}

/-- Under dynamic addressing, with qubits reusable, resolving allocates the qubits not yet
allocated, in order of first reference, and every qubit resolves to its named handle. -/
theorem resolveQubits_dynamic (hr : s.profile.capabilities.qubitReuse = true)
    (hs : DynamicHandles s.handles R alloc ms) (hb : s.builder.At name done cur todo)
    (kind : GateKind) (qs : List Nat) :
    ∃ r, s.resolveQubits kind qs = .ok (r, qs.map qubitHandle) ∧
      DynamicHandles r.handles R (alloc ++ newQubits alloc qs) ms ∧
      r.profile = s.profile ∧ r.regions = s.regions ∧
      r.builder.At name done (cur.pushAll ((newQubits alloc qs).map allocCall)) todo := by
  induction qs generalizing s alloc cur with
  | nil => exact ⟨s, rfl, by simpa [newQubits] using hs, rfl, rfl, by simpa [newQubits] using hb⟩
  | cons q qs ih =>
    have hreuse : (kind.actsOnQubits && !s.profile.capabilities.qubitReuse &&
        s.measuredQubits.contains q) = false := by simp [hr]
    by_cases hq : q ∈ alloc
    · -- an allocated qubit keeps its handle and nothing is written
      have hqv := hs.qubit_of_mem s.builder hq
      obtain ⟨r, hres, hr', hp, hreg, hb'⟩ := ih hr hs hb
      refine ⟨r, ?_, by simpa [newQubits, hq] using hr', hp, hreg, by simpa [newQubits, hq] using hb'⟩
      simp only [resolveQubits, hreuse, hqv, Bool.false_eq_true, if_false]
      simp [bind, Except.bind, hres, pure, Except.pure]
    · -- a new qubit is allocated into the insertion block
      let b₁ := (s.builder.call Runtime.qubitAllocate [] (some ("q" ++ toString q))).1
      obtain ⟨h₁, hq₁, hs'⟩ := hs.qubit_of_not_mem s.builder hq
      have hqv : s.handles.qubit s.builder q = .ok (h₁, b₁, qubitHandle q) := hq₁
      obtain ⟨r, hres, hr', hp, hreg, hb'⟩ :=
        ih (s := { s with handles := h₁, builder := b₁ }) hr hs' (hb.call _ _ _)
      refine ⟨r, ?_, by simpa [newQubits, hq] using hr', hp, hreg, ?_⟩
      · simp only [resolveQubits, hreuse, hqv, Bool.false_eq_true, if_false]
        simp [bind, Except.bind, hres, pure, Except.pure]
      · simpa [newQubits, hq, Block.push_pushAll, allocCall, Builder.callInstr,
          Runtime.qubitAllocate] using hb'

/-- Under dynamic addressing each measured pair binds the next numbered result to its bit,
by an `m` call on the qubit's handle. -/
theorem measurePairs_dynamic :
    ∀ (ps : List ((Nat × Value) × Nat)) {s : Lowering} {cur : Block} {ms : List Nat},
      DynamicHandles s.handles R alloc ms → s.builder.At name done cur todo →
      ∃ s', s.measurePairs ps = .ok s' ∧ DynamicHandles s'.handles R alloc (ms ++ ps.map Prod.snd) ∧
        s'.profile = s.profile ∧ s'.regions = s.regions ∧
        s'.builder.At name done (cur.pushAll ((ps.zipIdx ms.length).map fun pk =>
          .call Runtime.m.name .result [pk.1.1.2] (some ("r" ++ toString pk.2)))) todo
  | [], s, cur, ms, hs, hb => ⟨s, rfl, by simpa using hs, rfl, rfl, by simpa using hb⟩
  | ((q, v), c) :: ps, s, cur, ms, hs, hb => by
    let b₁ := (s.builder.call Runtime.m [v] (some ("r" ++ toString ms.length))).1
    obtain ⟨h₁, hm₁, hs₁⟩ := hs.measure_eq s.builder v c
    have hm₁ : s.handles.measure s.builder v c = .ok (h₁, b₁) := hm₁
    obtain ⟨s', hm, hs', hp, hreg, hb'⟩ := measurePairs_dynamic ps
      (s := { s with handles := h₁, builder := b₁, measuredQubits := s.measuredQubits ++ [q] })
      hs₁ (hb.call _ _ _)
    refine ⟨s', ?_, by simpa using hs', hp, hreg, ?_⟩
    · simp only [measurePairs, hm₁]
      exact hm
    · simpa [Block.push_pushAll, Builder.callInstr, Runtime.m, Nat.add_comm 1] using hb'

/-- Emitting an unguarded instruction whose qubits resolved to their handles writes its
adaptive calls and measures into its bits. -/
theorem emit_dynamic (hs : DynamicHandles s.handles R alloc ms) (hb : s.builder.At name done cur todo)
    (kind : GateKind) (i : Instruction) :
    ∃ s', s.emit kind i (i.qubits.map qubitHandle) = .ok s' ∧
      DynamicHandles s'.handles R alloc (ms ++ kind.measuredBits i) ∧
      s'.profile = s.profile ∧ s'.regions = s.regions ∧
      s'.builder.At name done (cur.pushAll (kind.adaptiveCalls ms.length i)) todo := by
  cases kind
  case measure =>
    obtain ⟨s', hm, hs', hp, hreg, hb'⟩ :=
      measurePairs_dynamic ((i.qubits.zip (i.qubits.map qubitHandle)).zip i.clbits) hs hb
    refine ⟨s', hm, ?_, hp, hreg, ?_⟩
    · simpa [GateKind.measuredBits, zip_map_self_zip, Function.comp_def] using hs'
    · simpa [GateKind.adaptiveCalls, zip_map_self_zip, List.zipIdx_map, Function.comp_def] using hb'
  case barrier =>
    refine ⟨_, rfl, by simpa [GateKind.measuredBits] using hs, rfl, rfl, ?_⟩
    simpa [Block.push, GateKind.adaptiveCalls, Builder.callInstr, Runtime.barrier, Runtime.ret_gate,
      Block.pushAll] using hb.callUnit Runtime.barrier []
  case id | delay =>
    exact ⟨s, rfl, by simpa [GateKind.measuredBits] using hs, rfl, rfl,
      by simpa [GateKind.adaptiveCalls, GateKind.callee?] using hb⟩
  all_goals
    refine ⟨_, rfl, by simpa [GateKind.measuredBits] using hs, rfl, rfl, ?_⟩
    simpa [Block.push, Block.pushAll, GateKind.adaptiveCalls, GateKind.callee?, Builder.callInstr,
      Runtime.ret_gate, Runtime.h, Runtime.x, Runtime.y, Runtime.z, Runtime.s, Runtime.sAdj, Runtime.t,
      Runtime.tAdj, Runtime.rx, Runtime.ry, Runtime.rz, Runtime.cnot, Runtime.cz, Runtime.swap,
      Runtime.ccx, Runtime.reset] using hb.callUnit (Runtime.gate _ _) _

/-- Writing instructions into the last block appends their lines. -/
theorem linesOf_pushAll (done : List Block) (cur : Block) (is : List Instr) :
    linesOf (done ++ [cur.pushAll is]) = linesOf (done ++ [cur]) ++ is.map .instr := by
  simp [Block.lines, Block.pushAll]

/-- Appended blocks go after every block, and their references are their positions. -/
theorem appendBlocks_at :
    ∀ (labels : List String) {b : Builder} {todo : List Block}, b.At name done cur todo →
      (appendBlocks b labels).1.At name done cur (todo ++ labels.map fun l => { label := l }) ∧
      (appendBlocks b labels).2 = List.range' (done.length + 1 + todo.length) labels.length
  | [], b, todo, hb => by simpa [appendBlocks] using hb
  | l :: ls, b, todo, hb => by
    obtain ⟨hb₁, hr⟩ := hb.appendBlock l
    obtain ⟨hb₂, hrs⟩ := appendBlocks_at ls hb₁
    refine ⟨by simpa [appendBlocks] using hb₂, ?_⟩
    simp [appendBlocks, hr, hrs, List.range'_succ, Nat.add_assoc]

/-- The tests of a region, each target block being the next one appended ahead of them, write
their lines, and leave the builder at the last target. -/
theorem emitTests_at {region join : Nat} {jb : Block} {rest : List Block} :
    ∀ (ts : List ((Value × Bool) × Nat)) (labels : List String) (k : Nat) {b : Builder}
      {done : List Block} {cur : Block},
      b.At name done cur (labels.map (fun l => { label := l }) ++ jb :: rest) →
      ts.map Prod.snd = List.range' (done.length + 1) ts.length →
      labels.length = ts.length → join = done.length + 1 + labels.length →
      ∃ done' cur', (emitTests region join b k ts).At name done' cur' (jb :: rest) ∧
        done'.length = done.length + ts.length ∧
        linesOf (done' ++ [cur']) =
          linesOf (done ++ [cur]) ++ testLines region jb.label k ((ts.map Prod.fst).zip labels)
  | [], labels, k, b, done, cur, hb, _, hl, _ => by
    obtain rfl : labels = [] := List.eq_nil_of_length_eq_zero hl
    exact ⟨done, cur, by simpa [emitTests] using hb, by simp, by simp [testLines]⟩
  | ((v, e), t) :: ts, l :: labels, k, b, done, cur, hb, ht, hl, hj => by
    simp only [List.map_cons, List.length_cons, List.range'_succ, List.cons.injEq] at ht
    obtain ⟨rfl, ht⟩ := ht
    simp only [List.length_cons, Nat.add_right_cancel_iff] at hl
    let name_k := "c" ++ toString region ++ "." ++ toString k
    have hb₁ := hb.call Runtime.readResult [v] (some name_k)
    have hbit : (b.call Runtime.readResult [v] (some name_k)).2 = some (.named .bool name_k) :=
      Builder.call_bound _ _ _ (by decide)
    -- the match target is the next appended block, the mismatch target the join block
    let cur₁ := cur.push (Builder.callInstr Runtime.readResult [v] (some name_k))
    have hlt : (b.call Runtime.readResult [v] (some name_k)).1.label (done.length + 1) = l := by
      simpa using hb₁.label_of_eq (done ++ [cur₁]) { label := l }
        (labels.map (fun l => { label := l }) ++ jb :: rest) (by simp [cur₁])
    have hlj : (b.call Runtime.readResult [v] (some name_k)).1.label join = jb.label := by
      have := hb₁.label_of_eq
        (done ++ cur₁ :: { label := l } :: labels.map fun l => { label := l }) jb rest (by simp [cur₁])
      have hlen : (done ++ cur₁ :: { label := l } :: labels.map fun l => { label := l }).length =
          join := by
        simp [hj]
        omega
      rwa [hlen] at this
    -- the branch on the read bit, with the targets in the order the expected value gives
    let br := Instr.condBr (.named .bool name_k) (if e then l else jb.label) (if e then jb.label else l)
    have hb₂ : (if e then (b.call Runtime.readResult [v] (some name_k)).1.condBr
          (.named .bool name_k) (done.length + 1) join
        else (b.call Runtime.readResult [v] (some name_k)).1.condBr
          (.named .bool name_k) join (done.length + 1)).At name done (cur₁.push br)
          (({ label := l } : Block) :: (labels.map (fun l => { label := l }) ++ jb :: rest)) := by
      cases e
      · simpa [br, hlt, hlj] using hb₁.condBr (.named .bool name_k) join (done.length + 1)
      · simpa [br, hlt, hlj] using hb₁.condBr (.named .bool name_k) (done.length + 1) join
    obtain ⟨done', cur', hb', hlen', hlines⟩ :=
      @emitTests_at region join jb rest ts labels (k + 1) _ _ _ hb₂.next
      (by simpa using ht) hl (by simp [hj]; omega)
    refine ⟨done', cur', ?_, by simp [hlen']; omega, ?_⟩
    · simp only [emitTests]
      rw [hbit]
      exact hb'
    · rw [hlines]
      simp [cur₁, br, testLines, testName, name_k, Builder.callInstr, Runtime.readResult,
        Block.lines]

/-- The result handle a condition bit is read from: that of the latest measurement into it. -/
def latestResult (ms : List Nat) (c : Nat) : Value :=
  ((lastIndex ms c).map resultHandle).getD (.bool false)

/-- The tests of a guard after the measurements `ms`: the latest result of each compared bit,
with the value expected of it. -/
def guardTests (ms : List Nat) (c : Condition) : List (Value × Bool) :=
  c.expectations.map fun p => (latestResult ms p.1, p.2)

/-- Under dynamic addressing a guarded instruction lowers to its region: the tests of its
guard, each reading the latest result of its bit, then its body, and lowering goes on in the
join block. Every compared bit was measured before. -/
theorem emitConditional_dynamic (hs : DynamicHandles s.handles R alloc ms)
    (hb : s.builder.At name done cur []) {kind : GateKind} (hk : kind ≠ .measure)
    {index : Nat} {i : Instruction} {c : Condition}
    (h : s.emitConditional kind index i c (i.qubits.map qubitHandle) = .ok s') :
    c.bits ≠ [] ∧ (∀ b ∈ c.bits, (lastIndex ms b).isSome) ∧ DynamicHandles s'.handles R alloc ms ∧
      s'.profile = s.profile ∧ s'.regions = s.regions + 1 ∧
      ∃ done', s'.builder.At name done' { label := continueLabel s.regions } [] ∧
        linesOf (done' ++ [{ label := continueLabel s.regions }]) = linesOf (done ++ [cur]) ++
          regionLines s.regions (guardTests ms c) (kind.adaptiveCalls ms.length i) := by
  obtain ⟨hne, -, hmeas, b₁, refs, b₂, body, b₃, join, s₅, hab₁, hab₂, hab₃, he, rfl⟩ :=
    emitConditional_eq_ok h
  -- each compared bit reads its latest result, so every one was measured
  have hread : ∀ b, s.handles.measured b = (lastIndex ms b).map resultHandle := hs.results_eq
  have htests : s.handles.readTests c = guardTests ms c := by
    simp [Handles.readTests, guardTests, latestResult, hread]
  have hmeasured : ∀ b ∈ c.bits, (lastIndex ms b).isSome := by
    intro b hb'
    simpa [hread] using hmeas b hb'
  rw [htests] at he
  obtain ⟨n, hn⟩ : ∃ n, c.bits.length = n + 1 :=
    Nat.exists_eq_succ_of_ne_zero (by simpa [List.length_eq_zero_iff] using hne)
  rw [hn, Nat.add_sub_cancel] at hab₁
  -- the test blocks, the body block and the join block are appended ahead of the tests
  obtain ⟨hb₁, hr₁⟩ := appendBlocks_at
    ((List.range n).map fun k => "cond" ++ toString s.regions ++ "." ++ toString (k + 1)) hb
  simp only [hab₁] at hb₁ hr₁
  obtain ⟨hb₂, hr₂⟩ := hb₁.appendBlock ("then" ++ toString s.regions)
  simp only [hab₂] at hb₂ hr₂
  obtain ⟨hb₃, hr₃⟩ := hb₂.appendBlock ("continue" ++ toString s.regions)
  simp only [hab₃] at hb₃ hr₃
  simp only [List.nil_append, List.length_map, List.length_range, List.length_nil,
    Nat.add_zero, List.length_append, List.length_cons] at hr₁ hb₂ hr₂ hb₃ hr₃
  subst hr₁ hr₂ hr₃
  -- the tests branch to the appended blocks, the last one to the body
  have hb₃' : b₃.At name done cur
      ((((List.range n).map fun k => condLabel s.regions (k + 1)) ++ [thenLabel s.regions]).map
        (fun l => { label := l }) ++ [{ label := continueLabel s.regions }]) := by
    simpa [condLabel, thenLabel, continueLabel] using hb₃
  have hts : ((guardTests ms c).zip (List.range' (done.length + 1) n ++ [done.length + 1 + n])).map
      Prod.snd = List.range' (done.length + 1) (n + 1) := by
    rw [List.map_snd_zip (by simp [guardTests, Condition.length_expectations, hn]), List.range'_concat]
    simp
  obtain ⟨done', cur', hb₄, hlen₄, hlines₄⟩ :=
    @emitTests_at name s.regions (done.length + 1 + (n + (0 + 1))) { label := continueLabel s.regions } []
      ((guardTests ms c).zip (List.range' (done.length + 1) n ++ [done.length + 1 + n]))
      (((List.range n).map fun k => condLabel s.regions (k + 1)) ++ [thenLabel s.regions]) 0 _ _ _
      hb₃' (by simpa [guardTests, Condition.length_expectations, hn] using hts)
      (by simp [guardTests, Condition.length_expectations, hn]) (by simp)
  -- the body goes into the last test's target, then branches to the join block
  obtain ⟨s₅', he', hs₅, hp₅, hreg₅, hb₅⟩ :=
    emit_dynamic (s := { s with builder := _, regions := s.regions + 1 }) hs hb₄ kind i
  obtain rfl : s₅ = s₅' := Except.ok.inj (he.symm.trans he')
  have hjoin : done.length + 1 + (n + (0 + 1)) = done'.length + 1 := by
    simp [hlen₄, guardTests, Condition.length_expectations, hn]
    omega
  have hlj : s₅.builder.label (done.length + 1 + (n + (0 + 1))) = continueLabel s.regions := by
    have := hb₅.label_of_eq (done' ++ [cur'.pushAll (kind.adaptiveCalls ms.length i)])
      { label := continueLabel s.regions } [] (by simp)
    simpa [hjoin] using this
  have hb₆ := (hb₅.br (done.length + 1 + (n + (0 + 1)))).next
  rw [hlj, ← hjoin] at hb₆
  refine ⟨hne, hmeasured,
    by simpa [GateKind.measuredBits, hk] using hs₅, hp₅, hreg₅, _, hb₆, ?_⟩
  have hfst : ((guardTests ms c).zip (List.range' (done.length + 1) n ++ [done.length + 1 + n])).map
      Prod.fst = guardTests ms c :=
    List.map_fst_zip (by simp [guardTests, Condition.length_expectations, hn])
  rw [linesOf_open, linesOf_push, linesOf_pushAll, hlines₄, hfst]
  simp [regionLines, testTargets, guardTests, Condition.length_expectations, hn]

/-! ### Recording under dynamic addressing -/

/-- The result that reads as zero, fetched for bits that were never measured. -/
def zeroResult : Value := .named .result "zero"

/-- The value recorded for bit `c` after the measurements `ms`: its latest result, or the zero
result if it was never measured. -/
def recordedResult (ms : List Nat) (c : Nat) : Value :=
  ((lastIndex ms c).map resultHandle).getD zeroResult

/-- Whether one of the `R` declared bits was never measured by `ms`. -/
def needsZero (R : Nat) (ms : List Nat) : Bool := (List.range R).any fun c => (lastIndex ms c).isNone

/-- The fetch of the zero result, made once when a declared bit was never measured. -/
def zeroCalls (R : Nat) (ms : List Nat) : List Instr :=
  if needsZero R ms then [.call Runtime.resultGetZero.name .result [] (some "zero")] else []

/-- Recording the declared bits in order, each its latest result or else `zero`, writes one
record call per bit; it cannot fail when `zero` is there for every bit never measured. -/
theorem recordFold_dynamic (R : Nat) (ms : List Nat) (zero : Option Value)
    (hz : needsZero R ms = true → zero = some zeroResult) {b : Builder}
    (hb : b.At name done cur todo) :
    ∃ b' : Builder,
      ((List.range R).zip ((List.range R).map fun c => (lastIndex ms c).map resultHandle)).foldlM
        (fun b (c, (r : Option Value)) => match r.orElse fun _ => zero with
          | some v => Except.ok (b.callUnit Runtime.resultRecord [v])
          | none => Except.error (TranslateError.recordingOmission c)) b = .ok b' ∧
      b'.At name done (cur.pushAll ((List.range R).map fun c =>
        Builder.callInstr Runtime.resultRecord [recordedResult ms c] none)) todo := by
  obtain ⟨b', hfold, hb'⟩ := recordFold_writes zero
      ((List.range R).zip ((List.range R).map fun c => (lastIndex ms c).map resultHandle))
      (fun p => p.2.getD zeroResult)
      (fun p hp => by
        obtain ⟨c, hc, rfl⟩ : ∃ c, c < R ∧ (c, (lastIndex ms c).map resultHandle) = p := by
          simpa [zip_map_self] using hp
        -- a bit never measured records the zero result, which was fetched
        cases hl : lastIndex ms c with
        | some k => simp
        | none => simpa using hz (List.any_eq_true.2 ⟨c, List.mem_range.2 hc, by simp [hl]⟩))
      hb
  refine ⟨b', hfold, ?_⟩
  simpa [zip_map_self, recordedResult, Function.comp_def] using hb'

/-- Under dynamic addressing each declared bit records its latest result, in order; the zero
result is fetched first when some bit was never measured. -/
theorem recordOutputs_dynamic (hs : DynamicHandles s.handles R alloc ms)
    (hb : s.builder.At name done cur todo) :
    ∃ s', s.recordOutputs = .ok s' ∧ s'.handles = s.handles ∧ s'.profile = s.profile ∧
      s'.regions = s.regions ∧
      s'.builder.At name done (cur.pushAll (zeroCalls R ms ++
        recordingCalls ((List.range R).map (recordedResult ms)))) todo := by
  have hrec : (List.range R).mapM s.handles.recorded =
      .ok ((List.range R).map fun c => (lastIndex ms c).map resultHandle) := by
    refine mapM_ok fun c hc => ?_
    have hc : c < R := List.mem_range.1 hc
    simp [Handles.recorded, hs.declaredResults_eq, hs.mode_eq, Nat.not_le.2 hc, Handles.measured,
      hs.results_eq]
  have hany : ((List.range R).map fun c => (lastIndex ms c).map resultHandle).any Option.isNone =
      needsZero R ms := by
    simp [needsZero, Function.comp_def]
  unfold recordOutputs
  simp only [hrec, ok_bind, hany, hs.declaredResults_eq]
  cases hz : needsZero R ms
  · obtain ⟨b', hfold, hb'⟩ := recordFold_dynamic R ms none (by simp [hz]) (hb.callUnit _ _)
    refine ⟨_, bind_eq_ok.2 ⟨b', hfold, rfl⟩, rfl, rfl, rfl, ?_⟩
    simpa [zeroCalls, hz, recordingCalls, Block.push_pushAll, Block.pushAll_push,
      Function.comp_def] using hb'.callUnit Runtime.arrayEndRecord []
  · have hzero := Builder.call_bound (b := s.builder) Runtime.resultGetZero [] "zero" (by decide)
    obtain ⟨b', hfold, hb'⟩ := recordFold_dynamic R ms (some zeroResult) (fun _ => rfl)
      ((hb.call Runtime.resultGetZero [] (some "zero")).callUnit Runtime.arrayStartRecord [])
    refine ⟨_, bind_eq_ok.2 ⟨b', by rw [if_pos rfl, hzero]; exact hfold, rfl⟩, rfl, rfl, rfl, ?_⟩
    simpa [zeroCalls, hz, recordingCalls, Block.push_pushAll, Block.pushAll_push, Builder.callInstr,
      Runtime.resultGetZero, Function.comp_def] using hb'.callUnit Runtime.arrayEndRecord []

end Lowering

/-! ### The lines of a run under the adaptive profile -/

theorem GateKind.ofName?_eq_measure {n : String} :
    ofName? n = some .measure ↔ n = "measure" ∨ n = "m" ∨ n = "mz" := by
  constructor
  · intro h
    unfold ofName? at h
    split at h <;> simp_all
  · rintro (rfl | rfl | rfl) <;> rfl

/-- An instruction is a measurement exactly when its kind is. -/
theorem GateKind.eq_measure_iff {kind : GateKind} {i : Instruction} (hk : ofName? i.name = some kind) :
    kind = .measure ↔ i.isMeasure = true := by
  rw [← Option.some_inj, ← hk, ofName?_eq_measure]
  simp [Instruction.isMeasure, or_assoc]

/-- The bits an instruction measures into are those of its kind. -/
theorem GateKind.measuredBits_of_ofName? {kind : GateKind} {i : Instruction}
    (hk : ofName? i.name = some kind) :
    kind.measuredBits i = if i.isMeasure then (i.qubits.zip i.clbits).map Prod.snd else [] := by
  by_cases hm : i.isMeasure = true <;> simp [measuredBits, eq_measure_iff hk, hm]

/-- What an instruction becomes under the adaptive profile after `n` measured pairs. -/
def Circuit.Instruction.adaptiveCalls (i : Instruction) (n : Nat) : List Instr :=
  ((GateKind.ofName? i.name).map (·.adaptiveCalls n i)).getD []

/-- The lines lowering `i` writes after the instructions `P`: the allocations of the qubits
it is the first to reference, then its calls, inside the region of its guard if it has one. -/
def adaptiveSegment (P : List Instruction) (i : Instruction) : List Line :=
  (newQubits (firstUses P) i.qubits).map (fun q => .instr (allocCall q)) ++
    match i.condition with
    | none => (i.adaptiveCalls (measuredBits P).length).map .instr
    | some c => regionLines (guardedCount P) (guardTests (measuredBits P) c)
        (i.adaptiveCalls (measuredBits P).length)

/-- The lines lowering the instructions `is` writes after the instructions `P`, in order. -/
def adaptiveLines (P : List Instruction) : List Instruction → List Line
  | [] => []
  | i :: is => adaptiveSegment P i ++ adaptiveLines (P ++ [i]) is

/-- What lowering checks of a guarded instruction after the instructions `P`: it is not a
measurement, and its guard compares at least one bit, each measured by `P`. -/
def GuardChecked (P : List Instruction) (i : Instruction) : Prop :=
  ∀ c, i.condition = some c →
    i.isMeasure = false ∧ c.bits ≠ [] ∧ ∀ b ∈ c.bits, (lastIndex (measuredBits P) b).isSome

/-- `GuardChecked` for each of the instructions `is`, lowered after the instructions `P`. -/
def GuardsChecked (P : List Instruction) : List Instruction → Prop
  | [] => True
  | i :: is => GuardChecked P i ∧ GuardsChecked (P ++ [i]) is

/-- A lowering under the adaptive profile that has lowered the instructions `P` for `R`
declared bits: its handles are those of `P`'s allocations and measurements, it has opened one
region per guarded instruction, and the lines of its one function are `lines`, with the
insertion block last. -/
structure AdaptiveState (s : Lowering) (name : String) (R : Nat) (P : List Instruction)
    (lines : List Line) : Prop where
  profile_eq : s.profile = .adaptive
  handles : DynamicHandles s.handles R (firstUses P) (measuredBits P)
  regions_eq : s.regions = guardedCount P
  at_end : ∃ done cur, s.builder.At name done cur [] ∧ linesOf (done ++ [cur]) = lines

variable {s s' : Lowering} {name : String} {R : Nat} {P : List Instruction} {lines : List Line}

theorem adaptiveState_new (moduleName : String) (Q : Nat) :
    AdaptiveState (Lowering.new .adaptive (Builder.new moduleName name) Q R) name R []
      [.label "entry"] :=
  ⟨rfl, dynamicHandles_new Q R false, rfl, [], _, Builder.at_new moduleName name, rfl⟩

/-- One lowering step under the adaptive profile writes the instruction's segment. -/
theorem AdaptiveState.lower (hs : AdaptiveState s name R P lines) {index : Nat} {i : Instruction}
    (h : s.lower index i = .ok s') :
    AdaptiveState s' name R (P ++ [i]) (lines ++ adaptiveSegment P i) ∧ GuardChecked P i := by
  obtain ⟨kind, hk, -, hcond, r, qs, hres, hemit⟩ := lower_eq_ok h
  obtain ⟨done, cur, hb, hlines⟩ := hs.at_end
  obtain ⟨r', hres', hr, hp, hreg, hbr⟩ :=
    resolveQubits_dynamic (by simp [hs.profile_eq, Profile.capabilities]) hs.handles hb kind i.qubits
  rw [hres'] at hres
  obtain ⟨rfl, rfl⟩ := Prod.mk.inj (Except.ok.inj hres)
  have hmb := GateKind.measuredBits_of_ofName? hk
  cases hc : i.condition with
  | none =>
    rw [hc] at hemit
    obtain ⟨s₁, he, hs₁, hp₁, hreg₁, hb₁⟩ := emit_dynamic hr hbr kind i
    obtain rfl : s₁ = s' := Except.ok.inj (he.symm.trans hemit)
    refine ⟨⟨by rw [hp₁, hp, hs.profile_eq], ?_, ?_, done, _, hb₁, ?_⟩, fun c hc' => by simp [hc] at hc'⟩
    · simpa [firstUses_append_singleton, measuredBits_append_singleton, hmb] using hs₁
    · simp [hreg₁, hreg, hs.regions_eq, guardedCount_append_singleton, hc]
    · rw [linesOf_pushAll, linesOf_pushAll, hlines]
      simp [adaptiveSegment, hc, Instruction.adaptiveCalls, hk]
  | some c =>
    obtain ⟨hkm, -⟩ := hcond (by simp [hc])
    rw [hc] at hemit
    obtain ⟨hne, hmeas, hs₁, hp₁, hreg₁, done', hb₁, hl₁⟩ := emitConditional_dynamic hr hbr hkm hemit
    have hnm : i.isMeasure = false := by
      simpa [GateKind.eq_measure_iff hk] using hkm
    refine ⟨⟨by rw [hp₁, hp, hs.profile_eq], ?_, ?_, done', _, hb₁, ?_⟩, ?_⟩
    · simpa [firstUses_append_singleton, measuredBits_append_singleton, hnm] using hs₁
    · simp [hreg₁, hreg, hs.regions_eq, guardedCount_append_singleton, hc]
    · rw [hl₁, linesOf_pushAll, hlines, hreg, hs.regions_eq]
      simp [adaptiveSegment, hc, Instruction.adaptiveCalls, hk]
    · intro c' hc'
      obtain rfl : c = c' := by simpa [hc] using hc'
      exact ⟨hnm, hne, hmeas⟩

/-- A run under the adaptive profile writes the segments of its instructions, in order. -/
theorem AdaptiveState.lowerList :
    ∀ {is : List Instruction} {index : Nat} {s s' : Lowering} {P : List Instruction}
      {lines : List Line}, AdaptiveState s name R P lines → Lowering.lowerList index is s = .ok s' →
      AdaptiveState s' name R (P ++ is) (lines ++ adaptiveLines P is) ∧ GuardsChecked P is
  | [], _, _, _, _, _, hs, h => by
    simp only [Lowering.lowerList, Except.ok.injEq] at h
    subst h
    simpa [adaptiveLines, GuardsChecked] using hs
  | i :: is, index, s, s', P, lines, hs, h => by
    obtain ⟨s₁, h₁, h⟩ := lowerList_cons_eq_ok h
    obtain ⟨hs₁, hg⟩ := hs.lower h₁
    obtain ⟨hs', hgs⟩ := AdaptiveState.lowerList hs₁ h
    exact ⟨by simpa [adaptiveLines] using hs', hg, hgs⟩

/-- The end of the entry function under the adaptive profile after the instructions `P`, for
`R` declared bits: the zero fetch if a bit was never measured, the recording of every declared
bit, the release of every allocated qubit in allocation order, and the return. -/
def adaptiveEpilogue (R : Nat) (P : List Instruction) : List Instr :=
  zeroCalls R (measuredBits P) ++ recordingCalls ((List.range R).map (recordedResult (measuredBits P))) ++
    releaseCalls ((firstUses P).map fun q => (q, qubitHandle q)) ++ [.ret]

/-- The entry attributes under the adaptive profile, for `Q` allocated qubits and `R` results. -/
def adaptiveAttributes (Q R : Nat) : List Attribute :=
  [⟨entryPointKey, none⟩, ⟨requiredQubitsKey, some (toString Q)⟩,
    ⟨requiredResultsKey, some (toString R)⟩, ⟨profilesKey, some "adaptive_profile"⟩]

/-- **Adaptive lowering.** A program that lowers under the adaptive profile gives an entry
function whose lines are the entry label, the segments of its instructions in program order,
and the epilogue; its counts are the qubits referenced and the pairs measured, and every
guarded instruction passed its checks. -/
theorem entryPoint?_generate_adaptive {o : Options} {src : Source} {m : Module}
    (hp : o.profile = .adaptive) (h : generate o src = .ok m) :
    ∃ f, m.entryPoint? = some f ∧ f.name = o.entryPoint ∧
      f.attributes = adaptiveAttributes (firstUses src.instructions).length
        (measuredBits src.instructions).length ∧
      linesOf f.blocks = .label "entry" :: adaptiveLines [] src.instructions ++
        (adaptiveEpilogue src.bitCount src.instructions).map .instr ∧
      GuardsChecked [] src.instructions := by
  obtain ⟨s₁, s₂, h₁, h₂, hg⟩ := generate_eq_ok h
  rw [hp] at h₁
  obtain ⟨hs₁, hguards⟩ := (adaptiveState_new _ src.qubitCount).lowerList h₁
  obtain ⟨done, cur, hb, hlines⟩ := hs₁.at_end
  obtain ⟨s₂', hrec, hh, hp₂, -, hb₂⟩ := recordOutputs_dynamic hs₁.handles hb
  obtain rfl : s₂ = s₂' := by rw [hrec] at h₂; exact (Except.ok.inj h₂).symm
  have hdyn : DynamicHandles s₂.handles src.bitCount (firstUses src.instructions)
      (measuredBits src.instructions) := by
    simpa [hh] using hs₁.handles
  refine ⟨_, hg ▸ entryPoint?_finish hb₂ o.emitModuleFlags, rfl, ?_, ?_, hguards⟩
  · simp [entryAttributes, adaptiveAttributes, hdyn.requiredQubits_eq, hdyn.requiredResults_eq,
      hp₂, hs₁.profile_eq, Profile.qirName]
  · rw [Block.pushAll_pushAll, linesOf_pushAll, hlines, hdyn.allocated_eq]
    simp [adaptiveEpilogue]

end QirGen
