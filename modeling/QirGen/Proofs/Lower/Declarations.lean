import Mathlib.Data.List.Nodup
import Mathlib.Data.List.Induction
import QirGen.Proofs.Lower.Emission

/-!
# Declarations follow the calls

A call declares its callee the first time a callee of that name is called, so a builder
declares the callees of its calls in the order the calls were made. Lowering makes its calls in
the order they stand in the entry function, block after block, because it only writes at the
end: it appends blocks after every block, moves the insertion point only forward and only onto
blocks still empty, and writes at the end of the insertion block.

`Builder.DeclaresCalls b n` is that invariant, for a function of `n` blocks, with what it gives:
the declarations are the runtime functions the calls name, each once, in order of first call.
Every builder operation lowering uses keeps it (one lemma each). The steps that only call
runtime functions (resolving qubits, measuring, a plain emission, recording, releasing) make a
run of calls, `Builder.Calls`, which keeps it as a whole; a guarded region keeps it block by
block. Hence every lowering step, the recording of the outputs and the end of the function keep
it.

Every function lowering calls is one of `Runtime.callees`, which have distinct names. Main
statement: `declarations_generate`.
-/

namespace QirGen

open Ir Circuit

namespace Runtime

/-- The runtime functions: the gates of the instruction set, measurement into a slot and into
a fresh result, the read of a result, qubit allocation and release, and output recording. -/
def callees : List Callee :=
  [h, x, y, z, s, sAdj, t, tAdj, rx, ry, rz, cnot, cz, swap, ccx, reset, barrier, mz, m,
    readResult, qubitAllocate, qubitRelease, arrayStartRecord, resultRecord, arrayEndRecord,
    resultGetZero]

theorem nodup_callees : (callees.map (·.name)).Nodup := by decide

/-- A runtime function is determined by its name. -/
theorem eq_of_name_eq {c c' : Callee} (hc : c ∈ callees) (hc' : c' ∈ callees)
    (h : c.name = c'.name) : c = c' :=
  List.inj_on_of_nodup_map nodup_callees hc hc' h

end Runtime

/-- The instruction-set function of a gate kind is a runtime function. -/
theorem GateKind.callee?_mem {kind : GateKind} {c : Callee} (h : kind.callee? = some c) :
    c ∈ Runtime.callees := by
  cases kind <;> simp only [callee?, Option.some.injEq, reduceCtorEq] at h <;> subst h <;>
    simp [Runtime.callees]

namespace Ir

/-- The first occurrences of a list with one more element at its end. -/
theorem eraseDups_append_singleton (ns : List String) (m : String) :
    (ns ++ [m]).eraseDups = ns.eraseDups ++ if m ∈ ns then [] else [m] := by
  rw [List.eraseDups_append]
  split <;> simp_all [List.removeAll, List.eraseDups_cons]

/-- First occurrences are distinct. -/
theorem nodup_eraseDups (l : List String) : l.eraseDups.Nodup := by
  induction l using List.reverseRecOn with
  | nil => simp
  | append_singleton l m ih =>
    rw [eraseDups_append_singleton]
    split
    · simpa using ih
    · rename_i hm
      exact List.nodup_append.2 ⟨ih, List.nodup_singleton m, fun x hx y hy => by
        rw [List.mem_singleton.1 hy]
        rintro rfl
        exact hm (List.mem_eraseDups.1 hx)⟩

/-- Writing at the end of a block with only empty blocks after it appends to the instructions
read block after block. -/
theorem flatMap_modify_push {bs : List Block} {k : Nat} (hk : k < bs.length)
    (hempty : ∀ blk ∈ bs.drop (k + 1), blk.instrs = []) (x : Instr) :
    (bs.modify k fun blk => { blk with instrs := blk.instrs ++ [x] }).flatMap (·.instrs) =
      bs.flatMap (·.instrs) ++ [x] := by
  have hrest : (bs.drop (k + 1)).flatMap (·.instrs) = [] := List.flatMap_eq_nil_iff.2 hempty
  rw [List.modify_eq_take_cons_drop hk, List.flatMap_append, List.flatMap_cons, hrest]
  conv => rhs; rw [← List.take_append_drop k bs, ← List.getElem_cons_drop hk, List.flatMap_append,
    List.flatMap_cons, hrest]
  simp only [List.append_nil, List.append_assoc]

/-- The blocks after the one written into are left as they are. -/
theorem drop_modify_succ {bs : List Block} {k : Nat} (hk : k < bs.length) (g : Block → Block) :
    (bs.modify k g).drop (k + 1) = bs.drop (k + 1) := by
  rw [List.modify_eq_take_cons_drop hk]
  simp [List.drop_append, Nat.min_eq_left (Nat.le_of_lt hk)]

namespace Builder

variable {b : Builder} {n : Nat}

theorem declare_eq (b : Builder) (c : Callee) :
    b.declare c = { b with module := { b.module with
      declarations := if b.module.declarations.any (·.name == c.name) then b.module.declarations
        else b.module.declarations ++ [c] } } := by
  unfold declare
  split <;> simp_all

theorem current_declare (c : Callee) : (b.declare c).current = b.current := by
  rw [declare_eq]
  rfl

/-- With declarations that name `ns` without repeats, a callee is declared anew exactly when `ns`
does not name it. -/
theorem declarations_declare {ns : List String} (h : b.module.declarations.map (·.name) = ns.eraseDups)
    (c : Callee) :
    (b.declare c).module.declarations =
      if c.name ∈ ns then b.module.declarations else b.module.declarations ++ [c] := by
  -- the callee is declared already exactly when `ns` names it
  have hany : b.module.declarations.any (·.name == c.name) = decide (c.name ∈ ns) := by
    rw [Bool.eq_iff_iff, List.any_eq_true, decide_eq_true_iff, ← List.mem_eraseDups, ← h]
    simp
  simp only [declare_eq, hany, decide_eq_true_eq]

@[simp] theorem block_modifyCurrent (b : Builder) (g : Function → Function) :
    (b.modifyCurrent g).block = b.block := rfl

@[simp] theorem declarations_modifyCurrent (b : Builder) (g : Function → Function) :
    (b.modifyCurrent g).module.declarations = b.module.declarations := rfl

@[simp] theorem block_push (b : Builder) (x : Instr) : (b.push x).block = b.block := rfl

@[simp] theorem declarations_push (b : Builder) (x : Instr) :
    (b.push x).module.declarations = b.module.declarations := rfl

@[simp] theorem block_call (b : Builder) (c : Callee) (args : List Value) (r : Option String) :
    (b.call c args r).1.block = b.block := by
  simp [call, declare_eq]

@[simp] theorem block_appendBlock (b : Builder) (l : String) : (b.appendBlock l).1.block = b.block :=
  rfl

/-- The builder writes at the end of its one function, of `n` blocks: into one of them, with
every block after it still empty. -/
structure WritesAtEnd (b : Builder) (n : Nat) : Prop where
  function_eq : b.function = 0
  length_functions : b.module.functions.length = 1
  length_blocks : b.current.blocks.length = n
  block_lt : b.block < n
  ahead_empty : ∀ blk ∈ b.current.blocks.drop (b.block + 1), blk.instrs = []

theorem WritesAtEnd.current_modifyCurrent (h : b.WritesAtEnd n) (g : Function → Function) :
    (b.modifyCurrent g).current = g b.current := by
  obtain ⟨f, hf⟩ := List.length_eq_one_iff.1 h.length_functions
  simp [current, modifyCurrent, h.function_eq, hf]

/-- An instruction written at the end of the insertion block comes last in the function. -/
theorem WritesAtEnd.push (h : b.WritesAtEnd n) (x : Instr) :
    (b.push x).WritesAtEnd n ∧ (b.push x).current.instrs = b.current.instrs ++ [x] := by
  have hk : b.block < b.current.blocks.length := h.length_blocks ▸ h.block_lt
  have hc := h.current_modifyCurrent fun f =>
    { f with blocks := f.blocks.modify b.block fun blk => { blk with instrs := blk.instrs ++ [x] } }
  refine ⟨⟨h.function_eq, ?_, ?_, h.block_lt, ?_⟩, ?_⟩
  · simpa [Builder.push, modifyCurrent] using h.length_functions
  · simpa [Builder.push, hc] using h.length_blocks
  · simpa [Builder.push, hc, drop_modify_succ hk] using h.ahead_empty
  · simpa [Builder.push, hc, Function.instrs] using flatMap_modify_push hk h.ahead_empty x

theorem WritesAtEnd.declare (h : b.WritesAtEnd n) (c : Callee) : (b.declare c).WritesAtEnd n := by
  rw [declare_eq]
  exact ⟨h.function_eq, h.length_functions, h.length_blocks, h.block_lt, h.ahead_empty⟩

/-- The builder writes at the end of its one function, of `n` blocks, and declares the runtime
functions its calls name, each once, in order of first call. -/
structure DeclaresCalls (b : Builder) (n : Nat) : Prop extends WritesAtEnd b n where
  names_eq : b.module.declarations.map (·.name) =
    (b.current.instrs.filterMap Instr.callee?).eraseDups
  runtime : ∀ c ∈ b.module.declarations, c ∈ Runtime.callees

/-- A fresh builder has one empty block and declares nothing. -/
theorem declaresCalls_new (moduleName functionName : String) :
    (new moduleName functionName).DeclaresCalls 1 :=
  ⟨⟨rfl, rfl, rfl, Nat.zero_lt_one, by simp [new, current]⟩, rfl, by simp [new]⟩

/-- An instruction other than a call changes no declaration. -/
theorem DeclaresCalls.push (h : b.DeclaresCalls n) {x : Instr} (hx : x.callee? = none) :
    (b.push x).DeclaresCalls n := by
  obtain ⟨hw, hinstrs⟩ := h.toWritesAtEnd.push x
  exact ⟨hw, by simpa [hinstrs, hx] using h.names_eq, h.runtime⟩

/-- A call of a runtime function declares it if no function of its name is declared yet. -/
theorem DeclaresCalls.call (h : b.DeclaresCalls n) {c : Callee} (hc : c ∈ Runtime.callees)
    (args : List Value) (r : Option String) : (b.call c args r).1.DeclaresCalls n := by
  obtain ⟨hw, hinstrs⟩ := (h.toWritesAtEnd.declare c).push (callInstr c args r)
  -- the callee is declared anew exactly when no earlier call names it
  have hdecl := declarations_declare h.names_eq c
  refine ⟨hw, ?_, ?_⟩
  · show (b.declare c).module.declarations.map (·.name) =
      (((b.declare c).push (callInstr c args r)).current.instrs.filterMap Instr.callee?).eraseDups
    have hname : [callInstr c args r].filterMap Instr.callee? = [c.name] := rfl
    rw [hinstrs, current_declare, hdecl, List.filterMap_append, hname, eraseDups_append_singleton,
      ← h.names_eq]
    split <;> simp
  · intro c' hc'
    change c' ∈ (b.declare c).module.declarations at hc'
    rw [hdecl] at hc'
    split at hc'
    · exact h.runtime c' hc'
    · rcases List.mem_append.1 hc' with hc' | hc'
      · exact h.runtime c' hc'
      · rw [List.mem_singleton.1 hc']
        exact hc

theorem DeclaresCalls.callUnit (h : b.DeclaresCalls n) {c : Callee} (hc : c ∈ Runtime.callees)
    (args : List Value) : (b.callUnit c args).DeclaresCalls n :=
  h.call hc args none

theorem DeclaresCalls.br (h : b.DeclaresCalls n) (t : Nat) : (b.br t).DeclaresCalls n :=
  h.push rfl

theorem DeclaresCalls.condBr (h : b.DeclaresCalls n) (v : Value) (t e : Nat) :
    (b.condBr v t e).DeclaresCalls n :=
  h.push rfl

/-- A new block goes after every block, empty, and its reference is the old number of blocks. -/
theorem DeclaresCalls.appendBlock (h : b.DeclaresCalls n) (l : String) :
    (b.appendBlock l).1.DeclaresCalls (n + 1) ∧ (b.appendBlock l).2 = n := by
  have hc := h.current_modifyCurrent fun f => { f with blocks := f.blocks ++ [{ label := l }] }
  have hle : b.block + 1 ≤ b.current.blocks.length := h.length_blocks ▸ h.block_lt
  refine ⟨⟨⟨h.function_eq, ?_, ?_, by simp; have := h.block_lt; omega, ?_⟩, ?_, h.runtime⟩, ?_⟩
  · simpa [Builder.appendBlock, modifyCurrent] using h.length_functions
  · simp [Builder.appendBlock, hc, h.length_blocks]
  · intro blk hblk
    simp only [Builder.appendBlock, hc, block_modifyCurrent, List.drop_append_of_le_length hle,
      List.mem_append, List.mem_singleton] at hblk
    rcases hblk with hblk | hblk
    · exact h.ahead_empty blk hblk
    · rw [hblk]
  · simpa [Builder.appendBlock, hc, Function.instrs] using h.names_eq
  · simp [Builder.appendBlock, h.length_blocks]

/-- Moving forward to one of the blocks keeps the invariant: the blocks after it are empty. -/
theorem DeclaresCalls.positionAtEnd (h : b.DeclaresCalls n) {r : Nat} (hr : b.block ≤ r)
    (hrn : r < n) : (b.positionAtEnd r).DeclaresCalls n := by
  refine ⟨⟨h.function_eq, h.length_functions, h.length_blocks, hrn, ?_⟩, h.names_eq, h.runtime⟩
  intro blk hblk
  have hdrop : b.current.blocks.drop (r + 1) =
      (b.current.blocks.drop (b.block + 1)).drop (r - b.block) := by
    rw [List.drop_drop]
    congr 1
    omega
  exact h.ahead_empty blk (List.mem_of_mem_drop (hdrop ▸ hblk))

/-- A run of calls of runtime functions, each with any arguments and any result name. -/
inductive Calls : Builder → Builder → Prop
  | refl (b : Builder) : Calls b b
  | call {b b' : Builder} {c : Callee} (hc : c ∈ Runtime.callees) (args : List Value)
      (r : Option String) : Calls (b.call c args r).1 b' → Calls b b'

namespace Calls

variable {b₁ b₂ b₃ : Builder}

theorem trans (h₁ : b₁.Calls b₂) (h₂ : b₂.Calls b₃) : b₁.Calls b₃ := by
  induction h₁ with
  | refl => exact h₂
  | call hc args r _ ih => exact .call hc args r (ih h₂)

theorem single {c : Callee} (hc : c ∈ Runtime.callees) (b : Builder) (args : List Value)
    (r : Option String) : b.Calls (b.call c args r).1 :=
  .call hc args r (.refl _)

theorem callUnit {c : Callee} (hc : c ∈ Runtime.callees) (b : Builder) (args : List Value) :
    b.Calls (b.callUnit c args) :=
  single hc b args none

/-- Calls of one runtime function, one per value. -/
theorem foldl_callUnit {c : Callee} (hc : c ∈ Runtime.callees) :
    ∀ (vs : List Value) (b : Builder), b.Calls (vs.foldl (fun b v => b.callUnit c [v]) b)
  | [], b => .refl b
  | v :: vs, b => (callUnit hc b [v]).trans (foldl_callUnit hc vs _)

/-- A run of runtime calls keeps the invariant, each call declaring its callee if needed. -/
theorem declaresCalls (h : b₁.Calls b₂) (hb : b₁.DeclaresCalls n) : b₂.DeclaresCalls n := by
  induction h with
  | refl => exact hb
  | call hc args r _ ih => exact ih (hb.call hc args r)

end Calls

end Builder
end Ir

namespace Handles

variable {h h' : Handles} {b b' : Builder}

/-- Resolving a qubit allocates it, or writes nothing. -/
theorem qubit_calls {q : Nat} {v : Value} (hq : h.qubit b q = .ok (h', b', v)) : b.Calls b' := by
  rcases qubit_eq_ok hq with ⟨-, rfl, -⟩ | ⟨-, ⟨-, -, rfl⟩ | ⟨-, -, -, rfl⟩⟩
  · exact .refl _
  · exact .refl _
  · exact .single (by simp [Runtime.callees]) _ _ _

/-- A measurement is one call, into a slot or to a fresh result. -/
theorem measure_calls {v : Value} {c : Nat} (hm : h.measure b v c = .ok (h', b')) : b.Calls b' := by
  rcases measure_eq_ok hm with ⟨-, rfl, -⟩ | ⟨-, rfl, -⟩
  · exact .callUnit (by simp [Runtime.callees]) _ _
  · exact .single (by simp [Runtime.callees]) _ _ _

theorem releaseAll_calls (h : Handles) (b : Builder) : b.Calls (h.releaseAll b) := by
  rw [releaseAll_eq]
  exact .foldl_callUnit (by simp [Runtime.callees]) _ _

end Handles

namespace Lowering

variable {s s' : Lowering} {kind : GateKind} {n : Nat}

theorem resolveQubits_calls : ∀ {s r : Lowering} {qs : List Nat} {vs : List Value},
    s.resolveQubits kind qs = .ok (r, vs) → s.builder.Calls r.builder
  | s, r, [], vs, h => by
    simp only [resolveQubits, Except.ok.injEq, Prod.mk.injEq] at h
    obtain ⟨rfl, -⟩ := h
    exact .refl _
  | s, r, q :: qs, vs, h => by
    obtain ⟨-, h₁, b₁, v, vs', hq, hrest, -⟩ := resolveQubits_cons_eq_ok h
    exact (Handles.qubit_calls hq).trans (resolveQubits_calls hrest)

theorem measurePairs_calls : ∀ {s r : Lowering} {ps : List ((Nat × Value) × Nat)},
    s.measurePairs ps = .ok r → s.builder.Calls r.builder
  | s, r, [], h => by
    simp only [measurePairs, Except.ok.injEq] at h
    subst h
    exact .refl _
  | s, r, ((q, v), c) :: ps, h => by
    unfold measurePairs at h
    obtain ⟨⟨h₁, b₁⟩, hm, h⟩ := bind_eq_ok.1 h
    exact (Handles.measure_calls hm).trans (measurePairs_calls h)

/-- An unguarded body is a run of calls: the measurements, the barrier, or the gate's call. -/
theorem emit_calls {i : Instruction} {qs : List Value} (h : s.emit kind i qs = .ok s') :
    s.builder.Calls s'.builder := by
  unfold emit at h
  split at h
  case h_1 => exact measurePairs_calls h
  case h_2 =>
    cases h
    exact .callUnit (by simp [Runtime.callees]) _ _
  case h_5 =>
    split at h <;> cases h
    · exact .callUnit (GateKind.callee?_mem ‹_›) _ _
    · exact .refl _
  all_goals
    cases h
    exact .refl _

/-- Appended blocks go after every block, and their references are the next positions. -/
theorem appendBlocks_declaresCalls : ∀ (labels : List String) {b : Builder} {n : Nat},
    b.DeclaresCalls n →
      (appendBlocks b labels).1.DeclaresCalls (n + labels.length) ∧
        (appendBlocks b labels).2 = List.range' n labels.length ∧
        (appendBlocks b labels).1.block = b.block
  | [], b, n, hb => ⟨hb, rfl, rfl⟩
  | l :: ls, b, n, hb => by
    obtain ⟨hb₁, hr⟩ := hb.appendBlock l
    obtain ⟨hb₂, hrs, hk⟩ := appendBlocks_declaresCalls ls hb₁
    refine ⟨?_, ?_, ?_⟩
    · simpa [appendBlocks, Nat.add_assoc, Nat.add_comm 1] using hb₂
    · simp [appendBlocks, hr, hrs, List.range'_succ]
    · simp [appendBlocks, hk]

/-- The tests of a region keep the invariant when their targets lie ahead of the insertion
block, in increasing order: each test moves forward to its target. -/
theorem emitTests_declaresCalls (region join : Nat) :
    ∀ (tests : List (Value × Bool)) (L : List Nat) (k : Nat) {b : Builder}, b.DeclaresCalls n →
      (∀ t ∈ L, b.block < t ∧ t < n) → L.Pairwise (· < ·) →
      (emitTests region join b k (tests.zip L)).DeclaresCalls n
  | [], L, k, b, hb, _, _ => by simpa [emitTests] using hb
  | _ :: _, [], k, b, hb, _, _ => by simpa [emitTests] using hb
  | (v, e) :: tests, t :: L, k, b, hb, hL, hp => by
    obtain ⟨ht, htn⟩ := hL t List.mem_cons_self
    obtain ⟨hlt, hp⟩ := List.pairwise_cons.1 hp
    have hb₁ := hb.call (c := Runtime.readResult) (by simp [Runtime.callees]) [v]
      (some ("c" ++ toString region ++ "." ++ toString k))
    have hrest : ∀ t' ∈ L, t < t' ∧ t' < n := fun t' ht' =>
      ⟨hlt t' ht', (hL t' (List.mem_cons_of_mem _ ht')).2⟩
    simp only [List.zip_cons_cons, emitTests]
    -- the branch on the read bit goes either way; the next test is written in the target
    cases e <;>
    · exact emitTests_declaresCalls region join tests L (k + 1)
        ((hb₁.condBr _ _ _).positionAtEnd (by simpa [Builder.condBr] using Nat.le_of_lt ht) htn)
        hrest hp

/-- A region appends its test, body and join blocks after every block, then writes forward
into them in order, ending in the join block. -/
theorem emitConditional_declaresCalls {index : Nat} {i : Instruction} {c : Condition}
    {qs : List Value} (hb : s.builder.DeclaresCalls n)
    (h : s.emitConditional kind index i c qs = .ok s') : ∃ m, s'.builder.DeclaresCalls m := by
  obtain ⟨-, -, -, b₁, refs, b₂, body, b₃, join, s₁, hab₁, hab₂, hab₃, he, rfl⟩ :=
    emitConditional_eq_ok h
  -- the test blocks, the body block and the join block are appended after every block
  obtain ⟨hb₁, hr₁, hk₁⟩ := appendBlocks_declaresCalls
    ((List.range (c.bits.length - 1)).map fun k => "cond" ++ toString s.regions ++ "." ++ toString (k + 1)) hb
  simp only [hab₁, List.length_map, List.length_range] at hb₁ hr₁ hk₁
  obtain ⟨hb₂, hr₂⟩ := hb₁.appendBlock ("then" ++ toString s.regions)
  have hk₂ := Builder.block_appendBlock b₁ ("then" ++ toString s.regions)
  simp only [hab₂] at hb₂ hr₂ hk₂
  obtain ⟨hb₃, hr₃⟩ := hb₂.appendBlock ("continue" ++ toString s.regions)
  have hk₃ := Builder.block_appendBlock b₂ ("continue" ++ toString s.regions)
  simp only [hab₃] at hb₃ hr₃ hk₃
  subst hr₁ hr₂ hr₃
  -- the tests branch forward to the appended blocks in order, the last one to the body
  have hL : ∀ t ∈ List.range' n (c.bits.length - 1) ++ [n + (c.bits.length - 1)],
      b₃.block < t ∧ t < n + (c.bits.length - 1) + 1 + 1 := by
    intro t ht
    have hblock : b₃.block < n := by rw [hk₃, hk₂, hk₁]; exact hb.block_lt
    simp only [List.mem_append, List.mem_range'_1, List.mem_singleton] at ht
    omega
  have hp : (List.range' n (c.bits.length - 1) ++ [n + (c.bits.length - 1)]).Pairwise (· < ·) := by
    have hconcat : List.range' n (c.bits.length - 1) ++ [n + (c.bits.length - 1)] =
        List.range' n (c.bits.length - 1 + 1) := by
      simp [List.range'_concat]
    rw [hconcat]
    exact List.pairwise_lt_range'
  have hb₄ := emitTests_declaresCalls s.regions (n + (c.bits.length - 1) + 1)
    (s.handles.readTests c) _ 0 hb₃ hL hp
  have hs₁ := (emit_calls he).declaresCalls hb₄
  -- the body branches to the join block, the last one, where lowering goes on
  refine ⟨_, (hs₁.br _).positionAtEnd ?_ (Nat.lt_succ_self _)⟩
  have := hs₁.block_lt
  simp only [Builder.br, Builder.block_push]
  omega

theorem lower_declaresCalls {index : Nat} {i : Instruction} (hb : s.builder.DeclaresCalls n)
    (h : s.lower index i = .ok s') : ∃ m, s'.builder.DeclaresCalls m := by
  obtain ⟨kind, -, -, -, r, qs, hres, hemit⟩ := lower_eq_ok h
  have hr := (resolveQubits_calls hres).declaresCalls hb
  cases hc : i.condition with
  | none =>
    rw [hc] at hemit
    exact ⟨n, (emit_calls hemit).declaresCalls hr⟩
  | some c =>
    rw [hc] at hemit
    exact emitConditional_declaresCalls hr hemit

theorem lowerList_declaresCalls : ∀ {index : Nat} {is : List Instruction} {s s' : Lowering}
    {n : Nat}, s.builder.DeclaresCalls n → lowerList index is s = .ok s' →
      ∃ m, s'.builder.DeclaresCalls m
  | _, [], s, s', n, hb, h => by
    simp only [lowerList, Except.ok.injEq] at h
    subst h
    exact ⟨n, hb⟩
  | index, i :: is, s, s', n, hb, h => by
    obtain ⟨s₁, h₁, h⟩ := lowerList_cons_eq_ok h
    obtain ⟨m, hb₁⟩ := lower_declaresCalls hb h₁
    exact lowerList_declaresCalls hb₁ h

/-- Recording is a run of calls: the zero fetch if needed, the array markers and one record per
bit. -/
theorem recordOutputs_calls (h : s.recordOutputs = .ok s') : s.builder.Calls s'.builder := by
  obtain ⟨b₀, vs, hb₀, rfl⟩ := recordOutputs_eq_ok h
  have hz : s.builder.Calls b₀ := by
    rcases hb₀ with rfl | rfl
    · exact .refl _
    · exact .single (by simp [Runtime.callees]) _ _ _
  exact ((hz.trans (.callUnit (by simp [Runtime.callees]) _ _)).trans
    (.foldl_callUnit (by simp [Runtime.callees]) vs _)).trans (.callUnit (by simp [Runtime.callees]) _ _)

/-- Finishing releases the qubits and returns, then sets attributes and flags, which keep the
declarations and the blocks. -/
theorem finish_declaresCalls (hb : s.builder.DeclaresCalls n) (flags : Bool) :
    ∃ b : Builder, b.DeclaresCalls n ∧ (s.finish flags).declarations = b.module.declarations ∧
      ∀ f, (s.finish flags).entryPoint? = some f → f.blocks = b.current.blocks := by
  have hb' : (s.handles.releaseAll s.builder).ret.DeclaresCalls n :=
    ((Handles.releaseAll_calls s.handles s.builder).declaresCalls hb).push rfl
  obtain ⟨f, hf⟩ := List.length_eq_one_iff.1 hb'.length_functions
  obtain ⟨h₁, hf₁⟩ := setAttribute_functions hb'.function_eq hf entryPointKey none
  obtain ⟨h₂, hf₂⟩ := setAttribute_functions h₁ hf₁ requiredQubitsKey
    (some (toString s.handles.requiredQubits))
  obtain ⟨h₃, hf₃⟩ := setAttribute_functions h₂ hf₂ requiredResultsKey
    (some (toString s.handles.requiredResults))
  obtain ⟨-, hf₄⟩ := setAttribute_functions h₃ hf₃ profilesKey (some s.profile.qirName)
  refine ⟨_, hb', ?_, fun g hg => ?_⟩
  · unfold finish
    split <;> rfl
  · have hfs : (s.finish flags).functions = [{ f with attributes := Builder.setIn (Builder.setIn
        (Builder.setIn (Builder.setIn f.attributes entryPointKey none) requiredQubitsKey
          (some (toString s.handles.requiredQubits))) requiredResultsKey
          (some (toString s.handles.requiredResults))) profilesKey (some s.profile.qirName) }] := by
      unfold finish
      split <;> simp only [Builder.addFlag, hf₄]
    have hmem := List.mem_of_find?_eq_some hg
    rw [hfs, List.mem_singleton] at hmem
    simp [hmem, Builder.current, hb'.function_eq, hf]

end Lowering

/-- A generated module declares exactly the runtime functions its entry function calls, each
once, in order of first call read block after block. -/
theorem declarations_generate {o : Options} {src : Source} {m : Module}
    (h : generate o src = .ok m) {f : Function} (hf : m.entryPoint? = some f) :
    m.declarations.map (·.name) = (f.instrs.filterMap Instr.callee?).eraseDups ∧
      ∀ c ∈ m.declarations, c ∈ Runtime.callees := by
  obtain ⟨s₁, s₂, h₁, h₂, hg⟩ := generate_eq_ok h
  obtain ⟨n, hb₁⟩ := Lowering.lowerList_declaresCalls (Builder.declaresCalls_new _ _) h₁
  obtain ⟨b, hb, hdecl, hblocks⟩ :=
    Lowering.finish_declaresCalls ((Lowering.recordOutputs_calls h₂).declaresCalls hb₁)
      o.emitModuleFlags
  rw [hg] at hf ⊢
  have hinstrs : f.instrs = b.current.instrs := by simp only [Function.instrs, hblocks f hf]
  rw [hdecl, hinstrs]
  exact ⟨hb.names_eq, hb.runtime⟩

end QirGen
