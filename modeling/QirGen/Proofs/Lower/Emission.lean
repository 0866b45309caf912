import QirGen.Lower.Translate
import QirGen.Proofs.Ir.Lines
import QirGen.Proofs.Circuit.Condition

/-!
# What each lowering step writes

Lowering an instruction checks it, resolves its qubits, and emits its body, plainly or
behind a chain of tests. This module says, for each of these steps, what it appends to the
insertion block and what it changes in the lowering state, with the builder described by
`Builder.At`. Later proofs go through these lemmas and never unfold the steps.

* `lower_eq_ok` takes a successful lowering apart into its checks, the resolution of the
  qubits and the emission; `emitConditional_eq_ok` takes a guarded emission apart into the
  blocks of its region, its tests, its body and the branch to the join block.
* Under static addressing with bounded counts nothing is allocated: a qubit resolves to its
  constant handle (`resolveQubits_static`), a measurement writes one `mz` per pair
  (`measurePairs_static`), and the epilogue records every declared slot in order
  (`recordOutputs_static`).
* `finish_at` gives the finished entry function: the written blocks, the releases and the
  return, and the four attributes in the order they are set.
-/

namespace QirGen

open Ir Circuit

theorem bind_eq_ok {ε α β : Type} {x : Except ε α} {f : α → Except ε β} {b : β} :
    x >>= f = .ok b ↔ ∃ a, x = .ok a ∧ f a = .ok b := by
  cases x <;> simp [bind, Except.bind]

theorem ok_bind {ε α β : Type} (a : α) (f : α → Except ε β) :
    (Except.ok a : Except ε α) >>= f = f a := rfl

theorem throw_bind {ε α β : Type} (e : ε) (f : α → Except ε β) :
    (throw e : Except ε α) >>= f = .error e := rfl

namespace Runtime

-- The signature of an instruction-set function, read off without unfolding `gate`: the
-- equation lemma that unfolding it generates costs seconds over its string literal.
theorem name_gate (n : String) (ps : List Ty) : (gate n ps).name = "__quantum__qis__" ++ n := rfl

theorem ret_gate (n : String) (ps : List Ty) : (gate n ps).ret = .void := rfl

theorem params_gate (n : String) (ps : List Ty) : (gate n ps).params = ps := rfl

end Runtime

namespace Ir.Block

/-- The block with instructions appended at its end. -/
def pushAll (b : Block) (is : List Instr) : Block := { b with instrs := b.instrs ++ is }

@[simp] theorem pushAll_nil (b : Block) : b.pushAll [] = b := by simp [pushAll]

theorem pushAll_push (b : Block) (is : List Instr) (i : Instr) :
    (b.pushAll is).push i = b.pushAll (is ++ [i]) := by
  simp [pushAll, push]

theorem push_pushAll (b : Block) (i : Instr) (is : List Instr) :
    (b.push i).pushAll is = b.pushAll (i :: is) := by
  simp [pushAll, push]

@[simp] theorem pushAll_pushAll (b : Block) (is js : List Instr) :
    (b.pushAll is).pushAll js = b.pushAll (is ++ js) := by
  simp [pushAll]

@[simp] theorem label_pushAll (b : Block) (is : List Instr) : (b.pushAll is).label = b.label := rfl

@[simp] theorem instrs_pushAll (b : Block) (is : List Instr) :
    (b.pushAll is).instrs = b.instrs ++ is := rfl

end Ir.Block

/-- The tests a region makes of a guard: each compared bit's measured result, with the value
expected of it. -/
def Handles.readTests (h : Handles) (c : Condition) : List (Value × Bool) :=
  c.expectations.map fun p => ((h.measured p.1).getD (.bool false), p.2)

@[simp] theorem Handles.length_readTests (h : Handles) (c : Condition) :
    (h.readTests c).length = c.bits.length := by
  simp [readTests, Condition.length_expectations]

/-- A qubit resolves in one of four ways. In a static table it is its constant handle and nothing
is written: a bounded table takes it within its declared qubits, an unbounded one grows its count.
In a dynamic table it is its handle if allocated, or else a new allocation binding `%q<q>`. -/
theorem Handles.qubit_eq_ok {h h' : Handles} {b b' : Builder} {q : Nat} {v : Value}
    (hq : h.qubit b q = .ok (h', b', v)) :
    h.mode = .static ∧ b' = b ∧ v = .staticQubit q ∧
        (h.bounded = true ∧ q < h.declaredQubits ∧ h' = h ∨
          h.bounded = false ∧ h' = { h with requiredQubits := max h.requiredQubits (nextIndex q) }) ∨
      h.mode = .dynamic ∧
        (lookup q h.allocated = some v ∧ h' = h ∧ b' = b ∨
          lookup q h.allocated = none ∧ v = .named .qubit ("q" ++ toString q) ∧
            h' = { h with allocated := h.allocated ++ [(q, v)], requiredQubits := h.requiredQubits + 1 } ∧
            b' = (b.call Runtime.qubitAllocate [] (some ("q" ++ toString q))).1) := by
  unfold qubit at hq
  split at hq
  case h_1 hmode =>
    split at hq
    case isTrue hb =>
      split at hq
      case isTrue hlt =>
        cases hq
        exact .inl ⟨hmode, rfl, rfl, .inl ⟨hb, hlt, rfl⟩⟩
      case isFalse => cases hq
    case isFalse hb =>
      cases hq
      exact .inl ⟨hmode, rfl, rfl, .inr ⟨by simpa using hb, rfl⟩⟩
  case h_2 hmode =>
    split at hq
    case h_1 hl =>
      cases hq
      exact .inr ⟨hmode, .inl ⟨hl, rfl, rfl⟩⟩
    case h_2 hl =>
      cases hq
      exact .inr ⟨hmode, .inr ⟨hl, rfl, rfl, rfl⟩⟩

/-- A measurement binds the bit to its result. In a static table it writes `mz` into the bit's
slot (a bounded table within its declared results; an unbounded one grows its count); in a dynamic
table it writes `m`, binding the next numbered result. -/
theorem Handles.measure_eq_ok {h h' : Handles} {b b' : Builder} {v : Value} {c : Nat}
    (hm : h.measure b v c = .ok (h', b')) :
    h.mode = .static ∧ b' = b.callUnit Runtime.mz [v, .staticResult c] ∧
        (h.bounded = true ∧ c < h.declaredResults ∧
            h' = { h with results := bind c (.staticResult c) h.results } ∨
          h.bounded = false ∧
            h' = { h with requiredResults := max h.requiredResults (nextIndex c)
                          results := bind c (.staticResult c) h.results }) ∨
      h.mode = .dynamic ∧ b' = (b.call Runtime.m [v] (some ("r" ++ toString h.requiredResults))).1 ∧
        h' = { h with requiredResults := h.requiredResults + 1
                      results := bind c (.named .result ("r" ++ toString h.requiredResults)) h.results } := by
  unfold measure at hm
  split at hm
  case h_1 hmode =>
    split at hm
    case isTrue hb =>
      split at hm
      case isTrue hlt =>
        cases hm
        exact .inl ⟨hmode, rfl, .inl ⟨hb, hlt, rfl⟩⟩
      case isFalse => cases hm
    case isFalse hb =>
      cases hm
      exact .inl ⟨hmode, rfl, .inr ⟨by simpa using hb, rfl⟩⟩
  case h_2 hmode =>
    cases hm
    exact .inr ⟨hmode, rfl, rfl⟩

/-- Releasing the qubits calls the release of each allocated handle, in allocation order. -/
theorem Handles.releaseAll_eq (h : Handles) (b : Builder) :
    h.releaseAll b =
      (h.allocated.map Prod.snd).foldl (fun b v => b.callUnit Runtime.qubitRelease [v]) b := by
  rw [List.foldl_map]
  rfl

namespace Lowering

/-- A successful lowering passed its checks, resolved the qubits, and emitted the body: plainly
for an unguarded instruction, behind its condition otherwise. -/
theorem lower_eq_ok {s s' : Lowering} {index : Nat} {i : Instruction}
    (h : s.lower index i = .ok s') :
    ∃ kind, GateKind.ofName? i.name = some kind ∧
      checkShape s.profile.capabilities s.handles.declaredResults kind i = none ∧
      (i.condition.isSome → kind ≠ .measure ∧ s.profile.capabilities.branchOnResult = true) ∧
      ∃ r qs, s.resolveQubits kind i.qubits = .ok (r, qs) ∧
        match i.condition with
        | none => r.emit kind i qs = .ok s'
        | some c => r.emitConditional kind index i c qs = .ok s' := by
  unfold lower at h
  cases hk : GateKind.ofName? i.name with
  | none => simp [hk] at h
  | some kind =>
    cases hsh : checkShape s.profile.capabilities s.handles.declaredResults kind i with
    | some r => simp [hk, hsh, throw_bind] at h
    | none =>
      simp only [hk, hsh] at h
      refine ⟨kind, rfl, hsh, ?_⟩
      cases hc : i.condition with
      | none =>
        simp only [hc, Option.isSome_none, Bool.false_eq_true, if_false] at h
        obtain ⟨⟨r, qs⟩, hr, he⟩ := bind_eq_ok.1 h
        exact ⟨by simp, r, qs, hr, he⟩
      | some c =>
        -- a guarded instruction must pass both capability checks before its qubits resolve
        by_cases hm : kind = .measure
        · simp [hm, hc, throw_bind] at h
        by_cases hb : s.profile.capabilities.branchOnResult = true
        · simp only [hc, Option.isSome_some, if_true, hm, if_false, hb, Bool.not_true,
            Bool.false_eq_true] at h
          obtain ⟨⟨r, qs⟩, hr, he⟩ := bind_eq_ok.1 h
          exact ⟨fun _ => ⟨hm, hb⟩, r, qs, hr, he⟩
        · simp [hm, hb, hc, throw_bind] at h

/-- Resolving a list of qubits resolved the first one, which the profile let the kind use, and
then the rest from the state that left. -/
theorem resolveQubits_cons_eq_ok {s : Lowering} {kind : GateKind} {q : Nat} {qs : List Nat}
    {r : Lowering} {vs : List Value} (h : s.resolveQubits kind (q :: qs) = .ok (r, vs)) :
    (kind.actsOnQubits = true → s.profile.capabilities.qubitReuse = false → q ∉ s.measuredQubits) ∧
      ∃ h₁ b₁ v vs', s.handles.qubit s.builder q = .ok (h₁, b₁, v) ∧
        ({ s with handles := h₁, builder := b₁ } : Lowering).resolveQubits kind qs = .ok (r, vs') ∧
        vs = v :: vs' := by
  unfold resolveQubits at h
  split at h
  · simp [throw_bind] at h
  rename_i hreuse
  obtain ⟨⟨h₁, b₁, v⟩, hq, h⟩ := bind_eq_ok.1 h
  obtain ⟨⟨r', vs'⟩, hrest, h⟩ := bind_eq_ok.1 h
  simp only [pure, Except.pure, Except.ok.injEq, Prod.mk.injEq] at h
  obtain ⟨rfl, rfl⟩ := h
  refine ⟨fun hk hr hm => hreuse ?_, h₁, b₁, v, vs', hq, hrest, rfl⟩
  simp [hk, hr, hm]

/-- A monadic map that succeeds, with each step agreeing with `g`, is the map of `g`. -/
theorem mapM_eq_map {α β : Type} {f : α → Except TranslateError β} {g : α → β}
    (hf : ∀ x y, f x = .ok y → y = g x) :
    ∀ {xs : List α} {ys : List β}, xs.mapM f = .ok ys → ys = xs.map g ∧ ∀ x ∈ xs, f x = .ok (g x)
  | [], ys, h => by
    simp only [List.mapM_nil, pure, Except.pure, Except.ok.injEq] at h
    exact ⟨h.symm, by simp⟩
  | x :: xs, ys, h => by
    rw [List.mapM_cons] at h
    obtain ⟨y, hy, h⟩ := bind_eq_ok.1 h
    obtain ⟨ys', hys, h⟩ := bind_eq_ok.1 h
    obtain ⟨rfl, hall⟩ := mapM_eq_map hf hys
    simp only [pure, Except.pure, Except.ok.injEq] at h
    subst h
    obtain rfl := hf x y hy
    exact ⟨rfl, by simpa [hy] using hall⟩

/-- A guarded instruction that lowers compares at least one bit, its value fits, and every
compared bit was measured. Its region appends the test blocks, the body block and the join
block, writes the tests (each reading its bit's latest result, with the value expected of it)
and the body, and branches from the body to the join block, where lowering goes on. -/
theorem emitConditional_eq_ok {s s' : Lowering} {kind : GateKind} {index : Nat}
    {i : Instruction} {c : Condition} {qs : List Value}
    (h : s.emitConditional kind index i c qs = .ok s') :
    c.bits ≠ [] ∧ c.fits = true ∧ (∀ b ∈ c.bits, (s.handles.measured b).isSome) ∧
      ∃ b₁ refs b₂ body b₃ join s₁,
        appendBlocks s.builder ((List.range (c.bits.length - 1)).map fun k =>
          "cond" ++ toString s.regions ++ "." ++ toString (k + 1)) = (b₁, refs) ∧
        b₁.appendBlock ("then" ++ toString s.regions) = (b₂, body) ∧
        b₂.appendBlock ("continue" ++ toString s.regions) = (b₃, join) ∧
        emit { s with
               builder := emitTests s.regions join b₃ 0 ((s.handles.readTests c).zip (refs ++ [body]))
               regions := s.regions + 1 } kind i qs = .ok s₁ ∧
        s' = { s₁ with builder := (s₁.builder.br join).positionAtEnd join } := by
  unfold emitConditional at h
  dsimp only at h
  by_cases hne : c.bits.isEmpty = true
  · simp [hne, throw_bind] at h
  cases hfit : c.fits
  · simp [hne, hfit, throw_bind] at h
  simp only [hne, hfit, Bool.false_eq_true, if_false, Bool.not_true] at h
  obtain ⟨tests, htests, h⟩ := bind_eq_ok.1 h
  -- a test reads its bit's measured result; a bit never measured fails the lowering
  obtain ⟨rfl, hall⟩ := mapM_eq_map
    (g := fun p => ((s.handles.measured p.1).getD (.bool false), p.2))
    (fun x y hy => by
      cases hm : s.handles.measured x.1 <;> simp [hm] at hy
      simp [← hy]) htests
  refine ⟨by simpa [List.isEmpty_iff] using hne, rfl, ?_, ?_⟩
  · intro b hb
    rw [← Condition.expectations_map_fst] at hb
    obtain ⟨x, hx, rfl⟩ := List.mem_map.1 hb
    have := hall x hx
    cases hm : s.handles.measured x.1 <;> simp [hm] at this ⊢
  · rw [List.length_map, Condition.length_expectations] at h
    generalize appendBlocks s.builder _ = ab₁ at h ⊢
    obtain ⟨b₁, refs⟩ := ab₁
    generalize hab₂ : b₁.appendBlock _ = ab₂ at h
    obtain ⟨b₂, body⟩ := ab₂
    generalize hab₃ : b₂.appendBlock _ = ab₃ at h
    obtain ⟨b₃, join⟩ := ab₃
    obtain ⟨s₁, he, h⟩ := bind_eq_ok.1 h
    simp only [pure, Except.pure, Except.ok.injEq] at h
    exact ⟨b₁, refs, b₂, body, b₃, join, s₁, rfl, hab₂, hab₃, he, h.symm⟩

/-- Handles of a bounded static table for `Q` qubits and `R` results: the declared counts are
the required ones and nothing is allocated. -/
structure StaticHandles (h : Handles) (Q R : Nat) : Prop where
  mode_eq : h.mode = .static
  bounded_eq : h.bounded = true
  declaredQubits_eq : h.declaredQubits = Q
  declaredResults_eq : h.declaredResults = R
  requiredQubits_eq : h.requiredQubits = Q
  requiredResults_eq : h.requiredResults = R
  allocated_eq : h.allocated = []

theorem staticHandles_new (Q R : Nat) :
    StaticHandles ((Handles.new .static Q R).withBounds true) Q R :=
  ⟨rfl, rfl, rfl, rfl, rfl, rfl, rfl⟩

variable {s s' : Lowering} {name : String} {done todo : List Block} {cur : Block}

/-- A bounded static table resolves a declared qubit to its constant handle and changes
nothing. -/
theorem qubit_static {h : Handles} {Q R : Nat} (hs : StaticHandles h Q R) (b : Builder) (q : Nat) :
    h.qubit b q = if q < Q then .ok (h, b, Value.staticQubit q)
      else .error (.resourceMismatch .qubit q Q) := by
  simp [Handles.qubit, hs.mode_eq, hs.bounded_eq, hs.declaredQubits_eq]

/-- A bounded static table measures into the bit's own slot, or fails for an undeclared bit. -/
theorem measure_static {h : Handles} {Q R : Nat} (hs : StaticHandles h Q R) (b : Builder)
    (v : Value) (c : Nat) :
    h.measure b v c = if c < R then
      .ok ({ h with results := Handles.bind c (Value.staticResult c) h.results },
        b.callUnit Runtime.mz [v, Value.staticResult c])
      else .error (.resourceMismatch .result c R) := by
  simp [Handles.measure, hs.mode_eq, hs.bounded_eq, hs.declaredResults_eq]

/-- Under static addressing with bounded counts a qubit resolves to its constant handle and
nothing changes. -/
theorem resolveQubits_static {Q R : Nat} (hs : StaticHandles s.handles Q R) {kind : GateKind} :
    ∀ {qs : List Nat} {r : Lowering} {vs : List Value},
      s.resolveQubits kind qs = .ok (r, vs) → r = s ∧ vs = qs.map Value.staticQubit
  | [], r, vs, h => by
    simp only [resolveQubits, Except.ok.injEq, Prod.mk.injEq] at h
    exact ⟨h.1.symm, h.2.symm⟩
  | q :: qs, r, vs, h => by
    obtain ⟨-, h₁, b₁, v, vs', hqv, hrest, rfl⟩ := resolveQubits_cons_eq_ok h
    rw [qubit_static hs] at hqv
    split at hqv
    · obtain ⟨rfl, rfl, rfl⟩ : s.handles = h₁ ∧ s.builder = b₁ ∧ _ := by simpa using hqv
      obtain ⟨rfl, rfl⟩ := resolveQubits_static hs hrest
      exact ⟨rfl, rfl⟩
    · simp at hqv

/-- Under static addressing each measured pair writes `mz` into the qubit's handle and the
bit's slot; the table keeps its counts. -/
theorem measurePairs_static {Q R : Nat} :
    ∀ {s s' : Lowering} {cur : Block} (ps : List ((Nat × Value) × Nat)),
      StaticHandles s.handles Q R → s.builder.At name done cur todo →
      s.measurePairs ps = .ok s' →
      StaticHandles s'.handles Q R ∧ s'.profile = s.profile ∧
        s'.builder.At name done
          (cur.pushAll (ps.map fun p => Builder.callInstr Runtime.mz [p.1.2, Value.staticResult p.2] none))
          todo
  | s, s', cur, [], hs, hb, h => by
    simp only [measurePairs, Except.ok.injEq] at h
    subst h
    exact ⟨hs, rfl, by simpa using hb⟩
  | s, s', cur, ((q, v), c) :: ps, hs, hb, h => by
    unfold measurePairs at h
    obtain ⟨⟨hd, bd⟩, hm, h⟩ := bind_eq_ok.1 h
    rw [measure_static hs] at hm
    split at hm
    · obtain ⟨rfl, rfl⟩ : _ = hd ∧ _ = bd := by simpa using hm
      have hs' : StaticHandles
          { s.handles with results := Handles.bind c (Value.staticResult c) s.handles.results } Q R :=
        ⟨hs.1, hs.2, hs.3, hs.4, hs.5, hs.6, hs.7⟩
      obtain ⟨hs'', hp, hb'⟩ := measurePairs_static ps hs' (hb.callUnit _ _) h
      refine ⟨hs'', hp, ?_⟩
      simpa [Block.push_pushAll] using hb'
    · simp at hm

/-- Steps that each succeed and write one instruction write them all, in order. -/
theorem foldlM_writes {α : Type} {f : Builder → α → Except TranslateError Builder} {w : α → Instr} :
    ∀ (xs : List α), (∀ (b : Builder) (cur : Block) (a : α), a ∈ xs → b.At name done cur todo →
      ∃ b', f b a = .ok b' ∧ b'.At name done (cur.push (w a)) todo) →
    ∀ {b : Builder} {cur : Block}, b.At name done cur todo →
      ∃ b', xs.foldlM f b = .ok b' ∧ b'.At name done (cur.pushAll (xs.map w)) todo
  | [], _, b, cur, hb => ⟨b, rfl, by simpa using hb⟩
  | a :: xs, hf, b, cur, hb => by
    obtain ⟨b₁, h₁, hb₁⟩ := hf b cur a List.mem_cons_self hb
    obtain ⟨b₂, h₂, hb₂⟩ := foldlM_writes xs
      (fun b cur a ha => hf b cur a (List.mem_cons_of_mem _ ha)) hb₁
    refine ⟨b₂, ?_, by simpa [Block.push_pushAll] using hb₂⟩
    simp only [List.foldlM_cons, h₁]
    exact h₂

/-- The same for steps that cannot fail. -/
theorem foldl_writes {α : Type} {f : Builder → α → Builder} {w : α → Instr}
    (hf : ∀ (b : Builder) (cur : Block) (a : α), b.At name done cur todo →
      (f b a).At name done (cur.push (w a)) todo) :
    ∀ (xs : List α) {b : Builder} {cur : Block}, b.At name done cur todo →
      (xs.foldl f b).At name done (cur.pushAll (xs.map w)) todo
  | [], b, cur, hb => by simpa using hb
  | a :: xs, b, cur, hb => by
    simpa [Block.push_pushAll] using foldl_writes hf xs (hf b cur a hb)

theorem zip_map_self {α β : Type} (g : α → β) :
    ∀ l : List α, l.zip (l.map g) = l.map fun x => (x, g x)
  | [] => rfl
  | x :: l => by simp [zip_map_self g l]

/-- Pairing a list with its own image, then with a second list, pairs each element with its
image and the second list's element. -/
theorem zip_map_self_zip {α β γ : Type} (f : α → γ) :
    ∀ (qs : List α) (cs : List β),
      (qs.zip (qs.map f)).zip cs = (qs.zip cs).map fun p => ((p.1, f p.1), p.2)
  | [], _ => rfl
  | _ :: _, [] => rfl
  | q :: qs, c :: cs => by simp [zip_map_self_zip f qs cs]

theorem mapM_ok {ε α β : Type} {f : α → Except ε β} {g : α → β} :
    ∀ {xs : List α}, (∀ x ∈ xs, f x = .ok (g x)) → xs.mapM f = .ok (xs.map g)
  | [], _ => rfl
  | x :: xs, h => by
    have hrest : xs.mapM f = .ok (xs.map g) := mapM_ok fun y hy => h y (List.mem_cons_of_mem x hy)
    simp only [List.mapM_cons, h x List.mem_cons_self, hrest]
    rfl

/-- The calls that record results, in order, between the array markers. -/
def recordingCalls (results : List Value) : List Instr :=
  Builder.callInstr Runtime.arrayStartRecord [] none ::
    results.map (fun v => Builder.callInstr Runtime.resultRecord [v] none) ++
    [Builder.callInstr Runtime.arrayEndRecord [] none]

/-- Recording pairs of a bit and its result, or else `zero`: when every pair has one, the fold
writes one record call per pair. -/
theorem recordFold_writes (zero : Option Value) (ps : List (Nat × Option Value))
    (v : Nat × Option Value → Value) (hv : ∀ p ∈ ps, (p.2.orElse fun _ => zero) = some (v p))
    {b : Builder} (hb : b.At name done cur todo) :
    ∃ b' : Builder,
      ps.foldlM (fun b (c, (r : Option Value)) => match r.orElse fun _ => zero with
          | some v => Except.ok (b.callUnit Runtime.resultRecord [v])
          | none => Except.error (TranslateError.recordingOmission c)) b = .ok b' ∧
      b'.At name done (cur.pushAll (ps.map fun p => Builder.callInstr Runtime.resultRecord [v p] none))
        todo := by
  refine foldlM_writes ps (fun b cur p hp hb => ⟨b.callUnit Runtime.resultRecord [v p], ?_, hb.callUnit _ _⟩) hb
  have hp := hv p hp
  obtain ⟨c, r⟩ := p
  dsimp only at hp ⊢
  rw [hp]

/-- Recording pairs of a bit and its result, or else `zero`, succeeds only by writing one record
call per pair. -/
theorem recordFold_eq_ok (zero : Option Value) :
    ∀ (ps : List (Nat × Option Value)) {b b' : Builder},
      ps.foldlM (fun b (c, (r : Option Value)) => match r.orElse fun _ => zero with
          | some v => Except.ok (b.callUnit Runtime.resultRecord [v])
          | none => Except.error (TranslateError.recordingOmission c)) b = .ok b' →
      ∃ vs : List Value, b' = vs.foldl (fun b v => b.callUnit Runtime.resultRecord [v]) b
  | [], b, b', h => by
    simp only [List.foldlM_nil, pure, Except.pure, Except.ok.injEq] at h
    exact ⟨[], h.symm⟩
  | (c, r) :: ps, b, b', h => by
    simp only [List.foldlM_cons] at h
    obtain ⟨b₁, h₁, h⟩ := bind_eq_ok.1 h
    split at h₁
    · cases h₁
      obtain ⟨vs, rfl⟩ := recordFold_eq_ok zero ps h
      exact ⟨_ :: vs, rfl⟩
    · cases h₁

/-- Recording the outputs fetches the zero result or nothing, then writes the start marker, one
record call per value and the end marker; it changes nothing but the builder. -/
theorem recordOutputs_eq_ok (h : s.recordOutputs = .ok s') :
    ∃ (b₀ : Builder) (vs : List Value),
      (b₀ = s.builder ∨ b₀ = (s.builder.call Runtime.resultGetZero [] (some "zero")).1) ∧
      s' = { s with
             builder := (vs.foldl (fun b v => b.callUnit Runtime.resultRecord [v])
               (b₀.callUnit Runtime.arrayStartRecord [])).callUnit Runtime.arrayEndRecord [] } := by
  unfold recordOutputs at h
  obtain ⟨recorded, -, h⟩ := bind_eq_ok.1 h
  have hz : ∀ bz, (if recorded.any Option.isNone then
      s.builder.call Runtime.resultGetZero [] (some "zero") else (s.builder, none)) = bz →
      bz.1 = s.builder ∨ bz.1 = (s.builder.call Runtime.resultGetZero [] (some "zero")).1 := by
    rintro bz rfl
    split <;> simp
  generalize hbz : (if recorded.any Option.isNone then _ else _) = bz at h
  obtain ⟨b₀, zero⟩ := bz
  obtain ⟨b₁, hfold, h⟩ := bind_eq_ok.1 h
  obtain ⟨vs, rfl⟩ := recordFold_eq_ok zero _ hfold
  simp only [pure, Except.pure, Except.ok.injEq] at h
  exact ⟨b₀, vs, hz _ hbz, h.symm⟩

/-- Under static addressing every declared bit records its own slot, in order, and no zero
result is fetched. -/
theorem recordOutputs_static {Q R : Nat} (hs : StaticHandles s.handles Q R)
    (hb : s.builder.At name done cur todo) :
    ∃ s', s.recordOutputs = .ok s' ∧ s'.handles = s.handles ∧ s'.profile = s.profile ∧
      s'.builder.At name done
        (cur.pushAll (recordingCalls ((List.range R).map Value.staticResult))) todo := by
  have hrec : (List.range R).mapM s.handles.recorded =
      .ok ((List.range R).map fun c => some (Value.staticResult c)) := by
    refine mapM_ok fun c hc => ?_
    have hc : c < R := List.mem_range.1 hc
    simp [Handles.recorded, hs.declaredResults_eq, hs.mode_eq, Nat.not_le.2 hc]
  have hnone : ((List.range R).map fun c => some (Value.staticResult c)).any Option.isNone = false := by
    simp
  -- every recorded pair holds its slot, so each step of the fold writes one record call
  obtain ⟨b₂, hfold, hb₂⟩ := recordFold_writes none
      ((List.range R).zip ((List.range R).map fun c => some (Value.staticResult c)))
      (fun p => p.2.getD (.null .result))
      (fun p hp => by
        obtain ⟨c, hc, rfl⟩ : ∃ c, c < R ∧ (c, some (Value.staticResult c)) = p := by
          simpa [zip_map_self] using hp
        rfl)
      (hb.callUnit Runtime.arrayStartRecord [])
  unfold recordOutputs
  simp only [hrec, ok_bind, hnone, Bool.false_eq_true, if_false, hs.declaredResults_eq]
  refine ⟨_, bind_eq_ok.2 ⟨b₂, hfold, rfl⟩, rfl, rfl, ?_⟩
  have hw : ((List.range R).zip ((List.range R).map fun c => some (Value.staticResult c))).map
      (fun p => Builder.callInstr Runtime.resultRecord [p.2.getD (.null .result)] none) =
      ((List.range R).map Value.staticResult).map fun v => Builder.callInstr Runtime.resultRecord [v] none := by
    simp [zip_map_self]
  simpa [recordingCalls, hw, Block.push_pushAll, Block.pushAll_push] using hb₂.callUnit Runtime.arrayEndRecord []

/-- The calls that release allocated qubits, in allocation order. -/
def releaseCalls (allocated : List (Nat × Value)) : List Instr :=
  allocated.map fun p => Builder.callInstr Runtime.qubitRelease [p.2] none

/-- Releasing writes one release call per allocated qubit, in allocation order. -/
theorem releaseAll_writes (h : Handles) {b : Builder} (hb : b.At name done cur todo) :
    (h.releaseAll b).At name done (cur.pushAll (releaseCalls h.allocated)) todo :=
  foldl_writes (f := fun b (p : Nat × Value) => b.callUnit Runtime.qubitRelease [p.2])
    (w := fun p => Builder.callInstr Runtime.qubitRelease [p.2] none)
    (fun _ _ _ hb => hb.callUnit _ _) h.allocated hb

/-- The attributes `finish` gives the entry point, in the order it sets them. -/
def entryAttributes (s : Lowering) : List Attribute :=
  [⟨entryPointKey, none⟩, ⟨requiredQubitsKey, some (toString s.handles.requiredQubits)⟩,
    ⟨requiredResultsKey, some (toString s.handles.requiredResults)⟩,
    ⟨profilesKey, some s.profile.qirName⟩]

theorem setAttribute_functions {b : Builder} {f : Function} (hf : b.function = 0)
    (hfs : b.module.functions = [f]) (k : String) (v : Option String) :
    (b.setAttribute k v).function = 0 ∧
      (b.setAttribute k v).module.functions = [{ f with attributes := Builder.setIn f.attributes k v }] := by
  simp [Builder.setAttribute, Builder.modifyCurrent, hf, hfs]

/-- Finishing releases the allocated qubits and returns at the end of the insertion block,
then sets the four entry attributes on the one function. -/
theorem finish_functions (hb : s.builder.At name done cur []) (flags : Bool) :
    (s.finish flags).functions =
      [{ name, attributes := s.entryAttributes,
         blocks := done ++ [cur.pushAll (releaseCalls s.handles.allocated ++ [.ret])] }] := by
  have hret := (releaseAll_writes s.handles hb).ret
  -- the four attributes are set on a function that has none, so they come in order
  obtain ⟨h₁, hf₁⟩ := setAttribute_functions hret.function_eq hret.functions_eq entryPointKey none
  obtain ⟨h₂, hf₂⟩ := setAttribute_functions h₁ hf₁ requiredQubitsKey
    (some (toString s.handles.requiredQubits))
  obtain ⟨h₃, hf₃⟩ := setAttribute_functions h₂ hf₂ requiredResultsKey
    (some (toString s.handles.requiredResults))
  obtain ⟨-, hf₄⟩ := setAttribute_functions h₃ hf₃ profilesKey (some s.profile.qirName)
  unfold finish
  split <;>
  · simp only [Builder.addFlag, hf₄, Block.pushAll_push]
    simp [Builder.setIn, entryAttributes, entryPointKey, requiredQubitsKey, requiredResultsKey,
      profilesKey]

/-- The finished module's entry point is its one function. -/
theorem entryPoint?_finish (hb : s.builder.At name done cur []) (flags : Bool) :
    (s.finish flags).entryPoint? =
      some { name, attributes := s.entryAttributes,
             blocks := done ++ [cur.pushAll (releaseCalls s.handles.allocated ++ [.ret])] } := by
  simp [Module.entryPoint?, finish_functions hb, Function.isEntryPoint, Function.attribute?,
    entryAttributes]

/-- The decimal text of a 32-bit word reads back as the word. -/
theorem parseU32?_repr {n : Nat} (h : n < Word.size) : parseU32? n.repr = some n := by
  have hdig : ∀ c ∈ Nat.toDigits 10 n, c.isDigit = true :=
    fun c hc => Nat.isDigit_of_mem_toDigits (by decide) (by decide) hc
  have hval : (Nat.toDigits 10 n).foldl (fun acc c => acc * 10 + (c.toNat - 48)) 0 = n := by
    refine Eq.trans ?_ (Nat.ofDigitChars_ten_toDigits (n := n))
    simp only [Nat.ofDigitChars]
    congr 1
    funext acc c
    simp [Nat.mul_comm]
  unfold parseU32?
  simp only [Nat.toList_repr]
  split
  · -- a digit is never a sign
    rename_i rest heq
    have := hdig '+' (by simp [heq])
    simp at this
  · simp [Nat.toDigits_ne_nil, List.all_eq_true.2 hdig, hval, show n < Nat.pow 2 32 from h]

/-- The resource counts read back from entry attributes written as `finish` writes them, when
they are 32-bit words. -/
theorem required_eq {g : Generated} {f : Function} {Q R : Nat} {p : String}
    (hf : g.module.entryPoint? = some f)
    (ha : f.attributes = [⟨entryPointKey, none⟩, ⟨requiredQubitsKey, some (toString Q)⟩,
      ⟨requiredResultsKey, some (toString R)⟩, ⟨profilesKey, some p⟩]) :
    (Q < Word.size → g.requiredQubits = Q) ∧ (R < Word.size → g.requiredResults = R) := by
  constructor <;> intro hw <;>
    simp [Generated.requiredQubits, Generated.requiredResults, Generated.entryNat, hf,
      Function.natAttribute?, Function.attribute?, ha, entryPointKey, requiredQubitsKey,
      requiredResultsKey, parseU32?_repr hw]

/-- Lowers instructions in order, the first at position `index`. -/
def lowerList : Nat → List Instruction → Lowering → Except TranslateError Lowering
  | _, [], s => .ok s
  | index, i :: is, s => do lowerList (index + 1) is (← s.lower index i)

theorem lowerList_cons_eq_ok {index : Nat} {i : Instruction} {is : List Instruction}
    (h : lowerList index (i :: is) s = .ok s') :
    ∃ s₁, s.lower index i = .ok s₁ ∧ lowerList (index + 1) is s₁ = .ok s' :=
  bind_eq_ok.1 h

end Lowering

open Lowering

namespace Circuit.Source

/-- The instructions a source holds at positions `0` to `count - 1`, in order. -/
def instructions (src : Source) : List Instruction := (List.range src.count).filterMap src.instructionAt?

theorem filterMap_range_getElem? {α : Type} :
    ∀ l : List α, (List.range l.length).filterMap (l[·]?) = l
  | [] => rfl
  | x :: l => by
    rw [List.length_cons, List.range_succ_eq_map, List.filterMap_cons_some (show (x :: l)[0]? = some x from rfl),
      List.filterMap_map]
    exact congrArg (x :: ·) (filterMap_range_getElem? l)

/-- A program holds its own instructions. -/
@[simp] theorem instructions_toSource (p : Program) : p.toSource.instructions = p.instructions :=
  filterMap_range_getElem? p.instructions

end Circuit.Source

/-- A successful pass over positions `index` to `index + n - 1` lowered the instructions held
there, in order. -/
theorem lowerFrom_eq_ok {src : Source} :
    ∀ {index n : Nat} {s s' : Lowering}, lowerFrom src index n s = .ok s' →
      lowerList index ((List.range' index n).filterMap src.instructionAt?) s = .ok s'
  | index, 0, s, s', h => h
  | index, n + 1, s, s', h => by
    unfold lowerFrom at h
    split at h
    · cases h
    · rename_i i hi
      obtain ⟨s₁, h₁, h⟩ := bind_eq_ok.1 h
      simp only [List.range'_succ, List.filterMap_cons, hi]
      exact bind_eq_ok.2 ⟨s₁, h₁, lowerFrom_eq_ok h⟩

/-- A successful generation validated the options, lowered every instruction of the source
into a fresh lowering, recorded the outputs and finished the module. -/
theorem generate_eq_ok {o : Options} {src : Source} {m : Module} (h : generate o src = .ok m) :
    ∃ s₁ s₂, lowerList 0 src.instructions
        (Lowering.new o.profile
          (Builder.new (sanitizeModuleName (o.moduleName.getD src.name)) o.entryPoint)
          src.qubitCount src.bitCount) = .ok s₁ ∧
      s₁.recordOutputs = .ok s₂ ∧ m = s₂.finish o.emitModuleFlags := by
  simp only [generate] at h
  obtain ⟨⟨⟩, -, h⟩ := bind_eq_ok.1 h
  obtain ⟨s₁, h₁, h⟩ := bind_eq_ok.1 h
  obtain ⟨s₂, h₂, h⟩ := bind_eq_ok.1 h
  simp only [pure, Except.pure, Except.ok.injEq] at h
  refine ⟨s₁, s₂, ?_, h₂, h.symm⟩
  have := lowerFrom_eq_ok h₁
  rwa [← List.range_eq_range'] at this

/-- An LLVM that takes every text and writes no bitcode. What holds for every LLVM can be run
with it without reading a module's text. -/
def Llvm.acceptingAll : Llvm := ⟨Unit, fun _ _ => .ok (), fun _ => .ok (), fun _ => ByteArray.empty⟩

/-- A successful translation generated its module, rendered it, and had LLVM take the text. -/
theorem translate_eq_ok {llvm : Llvm} {o : Options} {src : Source} {g : Generated}
    (h : translate llvm o src = .ok g) :
    generate o src = .ok g.module ∧ g.text = g.module.render ∧ g.profile = o.profile ∧
      irToBitcode llvm g.module.render g.module.name = .ok g.bytes := by
  simp only [translate] at h
  obtain ⟨m, hm, h⟩ := bind_eq_ok.1 h
  simp only [Generated.new] at h
  obtain ⟨bytes, hb, h⟩ := bind_eq_ok.1 h
  simp only [pure, Except.pure, Except.ok.injEq] at h
  subst h
  exact ⟨hm, rfl, rfl, hb⟩

/-- Translation succeeds with the generated module once LLVM takes its text. -/
theorem translate_of_generate {llvm : Llvm} {o : Options} {src : Source} {m : Module}
    {bytes : ByteArray} (hm : generate o src = .ok m) (hb : irToBitcode llvm m.render m.name = .ok bytes) :
    translate llvm o src = .ok ⟨m, m.render, bytes, o.profile⟩ := by
  simp [translate, hm, Generated.new, hb, bind, Except.bind, pure, Except.pure]

/-- LLVM refuses a text with an `invalidIr` error. -/
theorem irToBitcode_eq_error {llvm : Llvm} {ir name : String} {e : TranslateError}
    (h : irToBitcode llvm ir name = .error e) : ∃ msg, e = .invalidIr msg := by
  unfold irToBitcode at h
  cases hp : llvm.parse ir name with
  | error msg =>
    simp only [hp, bind, Except.bind, throw, throwThe, MonadExceptOf.throw, Except.error.injEq] at h
    exact ⟨_, h.symm⟩
  | ok p =>
    cases hv : llvm.verify p with
    | error msg =>
      simp only [hp, hv, bind, Except.bind, pure, Except.pure, throw, throwThe, MonadExceptOf.throw,
        Except.error.injEq] at h
      exact ⟨_, h.symm⟩
    | ok u => simp [hp, hv, bind, Except.bind, pure, Except.pure] at h

/-- A translation fails exactly when generating its module fails, or LLVM refuses the module's
text. -/
theorem translate_eq_error_iff {llvm : Llvm} {o : Options} {src : Source} {e : TranslateError} :
    translate llvm o src = .error e ↔
      generate o src = .error e ∨ ∃ m, generate o src = .ok m ∧ irToBitcode llvm m.render m.name = .error e := by
  simp only [translate]
  cases hm : generate o src with
  | error e' => simp [bind, Except.bind]
  | ok m =>
    simp only [bind, Except.bind, Generated.new, reduceCtorEq, false_or, Except.ok.injEq, exists_eq_left']
    cases irToBitcode llvm m.render m.name <;> simp [pure, Except.pure]

end QirGen
