import QirGen.Proofs.Lower.Declarations
import QirGen.Proofs.Circuit.Condition

/-!
# Lowering writes in block order

Lowering appends blocks after every block and moves its insertion point only forward, one
block at a time, right after writing a terminator into the block it leaves. So the function it
writes, read block after block, holds the instructions in the order they were written.

* `Builder.Place b done cur todo` splits the current function's blocks at the insertion block.
* `Builder.Forward b L b'` is a run of building in that discipline, annotated with the
  instructions it writes, oldest first; `Forward.place` reads what a run wrote off the blocks.
* `Builder.WritesHere b L b'` is a run that writes `L` into the insertion block and stays in it,
  as every run of calls does (`Builder.Calls.writesHere`): resolving qubits, measuring, emitting
  an unguarded body, recording the outputs.
* A guarded instruction appends its test, body and join blocks, closes each test block and the
  body by a branch to the next block, and ends in the join block (`emitConditional_place`).

Main statement: `lowering_writes_in_block_order`.
-/

namespace QirGen

open Ir Circuit

theorem Ir.Block.pushAll_singleton (blk : Block) (x : Instr) : blk.pushAll [x] = blk.push x := rfl

namespace Ir.Builder

/-- Where the builder writes: into its current function, one of the module's, whose blocks are
`done`, then the insertion block `cur`, then `todo`. -/
structure Place (b : Builder) (done : List Block) (cur : Block) (todo : List Block) : Prop where
  function_lt : b.function < b.module.functions.length
  blocks_eq : b.current.blocks = done ++ cur :: todo
  block_eq : b.block = done.length

variable {b : Builder} {done todo : List Block} {cur : Block}

theorem current_modifyCurrent (hf : b.function < b.module.functions.length) (g : Function → Function) :
    (b.modifyCurrent g).current = g b.current := by
  simp [current, modifyCurrent, List.getD_eq_getElem?_getD, hf]

theorem Place.push (h : b.Place done cur todo) (x : Instr) : (b.push x).Place done (cur.push x) todo := by
  refine ⟨by simpa [Builder.push, modifyCurrent] using h.function_lt, ?_, h.block_eq⟩
  rw [Builder.push, current_modifyCurrent h.function_lt, h.block_eq]
  simp [h.blocks_eq, modify_at_length, Block.push]

theorem Place.declare (h : b.Place done cur todo) (c : Callee) : (b.declare c).Place done cur todo := by
  unfold Builder.declare
  split
  · exact h
  · exact ⟨h.function_lt, h.blocks_eq, h.block_eq⟩

/-- A new block goes after every block, and its reference is its position. -/
theorem Place.appendBlock (h : b.Place done cur todo) (l : String) :
    (b.appendBlock l).1.Place done cur (todo ++ [{ label := l }]) ∧
      (b.appendBlock l).2 = done.length + 1 + todo.length := by
  refine ⟨⟨by simpa [Builder.appendBlock, modifyCurrent] using h.function_lt, ?_, h.block_eq⟩, ?_⟩
  · rw [Builder.appendBlock, current_modifyCurrent h.function_lt]
    simp [h.blocks_eq]
  · simp [Builder.appendBlock, h.blocks_eq]
    omega

/-- Moving to the next block makes the insertion block one of the blocks before it. -/
theorem Place.next {t : Block} (h : b.Place done cur (t :: todo)) :
    (b.positionAtEnd (done.length + 1)).Place (done ++ [cur]) t todo :=
  ⟨h.function_lt, by simpa [positionAtEnd, current] using h.blocks_eq, by simp [positionAtEnd]⟩

theorem Place.setAttribute (h : b.Place done cur todo) (k : String) (v : Option String) :
    (b.setAttribute k v).Place done cur todo := by
  refine ⟨by simpa [Builder.setAttribute, modifyCurrent] using h.function_lt, ?_, h.block_eq⟩
  rw [Builder.setAttribute, current_modifyCurrent h.function_lt]
  exact h.blocks_eq

theorem Place.addFlag (h : b.Place done cur todo) (f : Flag) : (b.addFlag f).Place done cur todo :=
  ⟨h.function_lt, h.blocks_eq, h.block_eq⟩

/-- The blocks ahead of the insertion block are determined by the builder. -/
theorem Place.todo_eq_nil {done' : List Block} {cur' : Block} (h : b.Place done cur todo)
    (h' : b.Place done' cur' []) : todo = [] := by
  have hlen := congrArg List.length (h.blocks_eq.symm.trans h'.blocks_eq)
  have hdone : done.length = done'.length := h.block_eq.symm.trans h'.block_eq
  simp only [List.length_append, List.length_cons, List.length_nil] at hlen
  exact List.eq_nil_of_length_eq_zero (by omega)

/-- A run of building in order, with the instructions it writes, oldest first: an instruction is
written at the end of the insertion block, and a block is left for the next one only right after
a terminator is written into it; callees are declared, blocks appended after every block,
attributes and flags set, none of which writes an instruction. -/
inductive Forward : Builder → List Instr → Builder → Prop
  | refl (b : Builder) : Forward b [] b
  | push {b b' : Builder} {L : List Instr} (x : Instr) :
      Forward (b.push x) L b' → Forward b (x :: L) b'
  | close {b b' : Builder} {L : List Instr} (x : Instr) (t : Nat) (hx : x.isTerminator = true)
      (ht : t = b.block + 1) (hlt : t < b.current.blocks.length) :
      Forward ((b.push x).positionAtEnd t) L b' → Forward b (x :: L) b'
  | declare {b b' : Builder} {L : List Instr} (c : Callee) :
      Forward (b.declare c) L b' → Forward b L b'
  | appendBlock {b b' : Builder} {L : List Instr} (l : String) :
      Forward (b.appendBlock l).1 L b' → Forward b L b'
  | setAttribute {b b' : Builder} {L : List Instr} (k : String) (v : Option String) :
      Forward (b.setAttribute k v) L b' → Forward b L b'
  | addFlag {b b' : Builder} {L : List Instr} (f : Flag) :
      Forward (b.addFlag f) L b' → Forward b L b'

namespace Forward

variable {b₁ b₂ b₃ : Builder} {L M : List Instr}

theorem trans (h₁ : Forward b₁ L b₂) (h₂ : Forward b₂ M b₃) : Forward b₁ (L ++ M) b₃ := by
  induction h₁ with
  | refl => exact h₂
  | push x _ ih => exact .push x (ih h₂)
  | close x t hx ht hlt _ ih => exact .close x t hx ht hlt (ih h₂)
  | declare c _ ih => exact .declare c (ih h₂)
  | appendBlock l _ ih => exact .appendBlock l (ih h₂)
  | setAttribute k v _ ih => exact .setAttribute k v (ih h₂)
  | addFlag f _ ih => exact .addFlag f (ih h₂)

/-- A run stays in the function it started in, and adds or removes no function. -/
theorem function_eq (h : Forward b₁ L b₂) :
    b₂.function = b₁.function ∧ b₂.module.functions.length = b₁.module.functions.length := by
  induction h with
  | refl => exact ⟨rfl, rfl⟩
  | declare c _ ih =>
    unfold Builder.declare at ih
    split at ih <;> exact ih
  | push x _ ih => simpa [Builder.push, modifyCurrent] using ih
  | close x t _ _ _ _ ih => simpa [Builder.push, modifyCurrent, positionAtEnd] using ih
  | appendBlock l _ ih => simpa [Builder.appendBlock, modifyCurrent] using ih
  | setAttribute k v _ ih => simpa [Builder.setAttribute, modifyCurrent] using ih
  | addFlag f _ ih => exact ih

/-- A run from a place with only empty blocks ahead: the blocks before the place stay, the
insertion block is only written at its end, and the blocks the run leaves behind end in a
terminator; what the run writes, oldest first, is what the blocks from the insertion block on
hold beyond it, read block after block. -/
theorem place {b b' : Builder} {L : List Instr} (h : Forward b L b') :
    ∀ {done todo : List Block} {cur : Block}, b.Place done cur todo → (∀ t ∈ todo, t.instrs = []) →
      ∃ A closed cur' todo', b'.Place (done ++ closed) cur' todo' ∧ (∀ t ∈ todo', t.instrs = []) ∧
        (∀ blk ∈ closed, blk.isTerminated = true) ∧
        (closed ++ [cur']).head? = some (cur.pushAll A) ∧
        (closed ++ [cur']).flatMap (·.instrs) = cur.instrs ++ L := by
  induction h with
  | refl b =>
    intro done todo cur hp ht
    exact ⟨[], [], cur, todo, by simpa using hp, ht, by simp, by simp, by simp⟩
  | push x _ ih =>
    intro done todo cur hp ht
    obtain ⟨A, closed, cur', todo', hp', ht', hc, hhead, hflat⟩ := ih (hp.push x) ht
    refine ⟨x :: A, closed, cur', todo', hp', ht', hc, by rw [hhead, Block.push_pushAll], ?_⟩
    simp [hflat]
  | @close b b' L x t hx ht hlt _ ih =>
    intro done todo cur hp htodo
    -- the block after the insertion block is the next one written
    obtain ⟨t₀, todo₀, rfl⟩ : ∃ t₀ todo₀, todo = t₀ :: todo₀ := by
      cases todo with
      | nil =>
        have := hp.blocks_eq ▸ hlt
        simp [ht, hp.block_eq] at this
      | cons t₀ todo₀ => exact ⟨t₀, todo₀, rfl⟩
    have hp₁ : ((b.push x).positionAtEnd t).Place (done ++ [cur.push x]) t₀ todo₀ := by
      rw [ht, hp.block_eq]
      exact (hp.push x).next
    obtain ⟨A, closed, cur', todo', hp', ht', hc, hhead, hflat⟩ :=
      ih hp₁ fun t' ht'' => htodo t' (List.mem_cons_of_mem t₀ ht'')
    have htempty : t₀.instrs = [] := htodo t₀ List.mem_cons_self
    refine ⟨[x], cur.push x :: closed, cur', todo', by simpa using hp', ht', ?_, ?_, ?_⟩
    · intro blk hblk
      rcases List.mem_cons.1 hblk with rfl | hblk
      · simp [Block.isTerminated, Block.push, hx]
      · exact hc blk hblk
    · simp [Block.pushAll, Block.push]
    · cases closed <;> simp_all [Block.pushAll]
  | declare c _ ih => exact fun hp ht => ih (hp.declare c) ht
  | appendBlock l _ ih =>
    intro done todo cur hp ht
    refine ih (hp.appendBlock l).1 fun t ht' => ?_
    rcases List.mem_append.1 ht' with ht' | ht'
    · exact ht t ht'
    · rw [List.mem_singleton.1 ht']
  | setAttribute k v _ ih => exact fun hp ht => ih (hp.setAttribute k v) ht
  | addFlag f _ ih => exact fun hp ht => ih (hp.addFlag f) ht

end Forward

/-- A run that writes `L` at the end of the insertion block and stays in it. -/
structure WritesHere (b : Builder) (L : List Instr) (b' : Builder) : Prop where
  forward : Forward b L b'
  place : ∀ {done todo : List Block} {cur : Block}, b.Place done cur todo →
    b'.Place done (cur.pushAll L) todo

namespace WritesHere

variable {b₁ b₂ b₃ : Builder} {L M : List Instr}

theorem refl (b : Builder) : b.WritesHere [] b := ⟨.refl b, fun h => by simpa using h⟩

theorem trans (h₁ : b₁.WritesHere L b₂) (h₂ : b₂.WritesHere M b₃) : b₁.WritesHere (L ++ M) b₃ :=
  ⟨h₁.forward.trans h₂.forward, fun h => by simpa using h₂.place (h₁.place h)⟩

theorem call (b : Builder) (c : Callee) (args : List Value) (r : Option String) :
    b.WritesHere [callInstr c args r] (b.call c args r).1 :=
  ⟨.declare c (.push _ (.refl _)), fun h => by
    rw [Block.pushAll_singleton]
    exact (h.declare c).push (callInstr c args r)⟩

theorem callUnit (b : Builder) (c : Callee) (args : List Value) :
    b.WritesHere [callInstr c args none] (b.callUnit c args) :=
  call b c args none

theorem push (b : Builder) (x : Instr) : b.WritesHere [x] (b.push x) :=
  ⟨.push x (.refl _), fun h => by simpa [Block.pushAll_singleton] using h.push x⟩

end WritesHere

/-- A run of calls writes them where lowering writes. -/
theorem Calls.writesHere {b' : Builder} (h : b.Calls b') : ∃ L, b.WritesHere L b' := by
  induction h with
  | refl b => exact ⟨[], .refl b⟩
  | call _ args r _ ih =>
    obtain ⟨L, hL⟩ := ih
    exact ⟨_, (WritesHere.call _ _ args r).trans hL⟩

end Ir.Builder

open Builder

namespace Lowering

variable {s s' : Lowering} {kind : GateKind}

/-- Appended blocks go after every block, and their references are their positions. -/
theorem appendBlocks_place :
    ∀ (labels : List String) {b : Builder} {done todo : List Block} {cur : Block},
      b.Place done cur todo →
      Forward b [] (appendBlocks b labels).1 ∧
        (appendBlocks b labels).1.Place done cur (todo ++ labels.map fun l => { label := l }) ∧
        (appendBlocks b labels).2 = List.range' (done.length + 1 + todo.length) labels.length
  | [], b, done, todo, cur, hb => ⟨.refl b, by simpa [appendBlocks] using hb, rfl⟩
  | l :: ls, b, done, todo, cur, hb => by
    obtain ⟨hb₁, hr⟩ := hb.appendBlock l
    obtain ⟨hf₂, hb₂, hrs⟩ := appendBlocks_place ls hb₁
    refine ⟨.appendBlock l (by simpa [appendBlocks] using hf₂), by simpa [appendBlocks] using hb₂, ?_⟩
    simp [appendBlocks, hr, hrs, List.range'_succ, Nat.add_assoc]

/-- Tests whose targets are the blocks after the insertion block, in order: each closes its
block by its branch, and the next test is written in the next block. -/
theorem emitTests_place (region join : Nat) :
    ∀ (ts : List ((Value × Bool) × Nat)) (k : Nat) {b : Builder} {done todo : List Block}
      {cur : Block}, b.Place done cur todo →
      ts.map Prod.snd = List.range' (done.length + 1) ts.length → ts.length ≤ todo.length →
      ∃ L done' cur', Forward b L (emitTests region join b k ts) ∧
        (emitTests region join b k ts).Place done' cur' (todo.drop ts.length) ∧
        done'.length = done.length + ts.length
  | [], k, b, done, todo, cur, hb, _, _ => ⟨[], done, cur, .refl b, by simpa [emitTests] using hb, rfl⟩
  | ((v, e), t) :: ts, k, b, done, todo, cur, hb, ht, hl => by
    simp only [List.map_cons, List.length_cons, List.range'_succ, List.cons.injEq] at ht
    obtain ⟨rfl, ht⟩ := ht
    obtain ⟨t₀, todo₀, rfl⟩ : ∃ t₀ todo₀, todo = t₀ :: todo₀ := by
      cases todo with
      | nil => simp at hl
      | cons t₀ todo₀ => exact ⟨t₀, todo₀, rfl⟩
    let read := b.call Runtime.readResult [v] (some ("c" ++ toString region ++ "." ++ toString k))
    have hb₁ : read.1.Place done (cur.push (callInstr Runtime.readResult [v]
        (some ("c" ++ toString region ++ "." ++ toString k)))) (t₀ :: todo₀) :=
      (hb.declare _).push _
    -- whichever way the test branches, its branch closes the block
    have hstep : ∀ x : Instr, x.isTerminator = true →
        ∃ L done' cur', Forward b L
            (emitTests region join ((read.1.push x).positionAtEnd (done.length + 1)) (k + 1) ts) ∧
          (emitTests region join ((read.1.push x).positionAtEnd (done.length + 1)) (k + 1) ts).Place
            done' cur' ((t₀ :: todo₀).drop (ts.length + 1)) ∧
          done'.length = done.length + (ts.length + 1) := by
      intro x hx
      obtain ⟨L, done', cur', hf, hp, hlen⟩ := emitTests_place region join ts (k + 1)
        (hb₁.push x).next (by simpa using ht) (by simpa using hl)
      refine ⟨_, done', cur', .declare _ (.push _ (.close x _ hx ?_ ?_ hf)), by simpa using hp, ?_⟩
      · exact congrArg (· + 1) hb₁.block_eq.symm
      · have hlen₁ := congrArg List.length hb₁.blocks_eq
        simp only [List.length_append, List.length_cons] at hlen₁
        change done.length + 1 < read.1.current.blocks.length
        omega
      · simp [hlen]
        omega
    simp only [emitTests]
    cases e
    · exact hstep _ rfl
    · exact hstep _ rfl

/-- A region appends its test, body and join blocks after every block, then closes each test
block and the body by a branch to the next block, and ends in the join block, the last one. -/
theorem emitConditional_place {index : Nat} {i : Instruction} {c : Condition} {qs : List Value}
    {done : List Block} {cur : Block} (hb : s.builder.Place done cur [])
    (h : s.emitConditional kind index i c qs = .ok s') :
    ∃ L done' cur', Forward s.builder L s'.builder ∧ s'.builder.Place done' cur' [] := by
  obtain ⟨hne, -, -, b₁, refs, b₂, body, b₃, join, s₅, hab₁, hab₂, hab₃, he, rfl⟩ :=
    emitConditional_eq_ok h
  -- one test per compared bit, so at least one
  have hlen := s.handles.length_readTests c
  generalize s.handles.readTests c = tests at he hlen
  obtain ⟨n, hn⟩ : ∃ n, tests.length = n + 1 :=
    Nat.exists_eq_succ_of_ne_zero (by simpa [hlen, List.length_eq_zero_iff] using hne)
  rw [← hlen, hn, Nat.add_sub_cancel] at hab₁
  obtain ⟨hf₁, hb₁, hr₁⟩ := appendBlocks_place
    ((List.range n).map fun k => "cond" ++ toString s.regions ++ "." ++ toString (k + 1)) hb
  simp only [hab₁] at hf₁ hb₁ hr₁
  obtain ⟨hb₂, hr₂⟩ := hb₁.appendBlock ("then" ++ toString s.regions)
  simp only [hab₂] at hb₂ hr₂
  obtain ⟨hb₃, hr₃⟩ := hb₂.appendBlock ("continue" ++ toString s.regions)
  simp only [hab₃] at hb₃ hr₃
  simp only [List.nil_append, List.length_map, List.length_range, List.length_nil,
    Nat.add_zero, List.length_append, List.length_cons] at hr₁ hb₂ hr₂ hb₃ hr₃
  subst hr₁ hr₂
  have hf₃ : Forward s.builder [] b₃ :=
    hf₁.trans (.appendBlock _ (by rw [hab₂]; exact .appendBlock _ (by rw [hab₃]; exact .refl _)))
  -- the tests branch to the appended blocks in order, the last one to the body
  have hts : (tests.zip (List.range' (done.length + 1) n ++ [done.length + 1 + n])).map Prod.snd =
      List.range' (done.length + 1) (n + 1) := by
    rw [List.map_snd_zip (by simp [hn]), List.range'_concat, Nat.one_mul]
  obtain ⟨L₄, done₄, cur₄, hf₄, hb₄, hlen₄⟩ := emitTests_place s.regions join
    (tests.zip (List.range' (done.length + 1) n ++ [done.length + 1 + n])) 0 hb₃
    (by simpa [hn] using hts) (by simp [hn])
  -- the body goes into the last test's target, then branches to the join block
  obtain ⟨L₅, hL₅⟩ := (emit_calls he).writesHere
  have hdrop : ((((List.range n).map fun k => "cond" ++ toString s.regions ++ "." ++
      toString (k + 1)).map fun l => ({ label := l } : Block)) ++
      [({ label := "then" ++ toString s.regions } : Block)] ++
      [({ label := "continue" ++ toString s.regions } : Block)]).drop
      (tests.zip (List.range' (done.length + 1) n ++ [done.length + 1 + n])).length =
      [({ label := "continue" ++ toString s.regions } : Block)] := by
    simp [hn, List.drop_append]
  rw [hdrop] at hb₄
  have hb₅ := hL₅.place hb₄
  have hjoin : join = done₄.length + 1 := by
    simp [hlen₄, hn, hr₃]
    omega
  have hb₆ := (hb₅.push (.br (s₅.builder.label join))).next
  rw [← hjoin] at hb₆
  refine ⟨_, _, _, ((hf₃.trans hf₄).trans hL₅.forward).trans (.close _ _ rfl ?_ ?_ (.refl _)), hb₆⟩
  · rw [hb₅.block_eq, hjoin]
  · rw [hb₅.blocks_eq, hjoin]
    simp

/-- Lowering an instruction from the last block writes forward and ends in the last block. -/
theorem lower_place {index : Nat} {i : Instruction} {done : List Block} {cur : Block}
    (hb : s.builder.Place done cur []) (h : s.lower index i = .ok s') :
    ∃ L done' cur', Forward s.builder L s'.builder ∧ s'.builder.Place done' cur' [] := by
  obtain ⟨kind, -, -, -, r, qs, hres, hemit⟩ := lower_eq_ok h
  obtain ⟨L₁, hL₁⟩ := (resolveQubits_calls hres).writesHere
  cases hc : i.condition with
  | none =>
    rw [hc] at hemit
    obtain ⟨L₂, hL₂⟩ := (emit_calls hemit).writesHere
    exact ⟨_, _, _, (hL₁.trans hL₂).forward, (hL₁.trans hL₂).place hb⟩
  | some c =>
    rw [hc] at hemit
    obtain ⟨L₂, done', cur', hf, hp⟩ := emitConditional_place (hL₁.place hb) hemit
    exact ⟨_, done', cur', hL₁.forward.trans hf, hp⟩

theorem lowerList_place : ∀ {index : Nat} {is : List Instruction} {s s' : Lowering}
    {done : List Block} {cur : Block}, s.builder.Place done cur [] → lowerList index is s = .ok s' →
      ∃ L done' cur', Forward s.builder L s'.builder ∧ s'.builder.Place done' cur' []
  | _, [], s, s', done, cur, hb, h => by
    simp only [lowerList, Except.ok.injEq] at h
    subst h
    exact ⟨[], done, cur, .refl _, hb⟩
  | index, i :: is, s, s', done, cur, hb, h => by
    obtain ⟨s₁, h₁, h⟩ := lowerList_cons_eq_ok h
    obtain ⟨L₁, done₁, cur₁, hf₁, hb₁⟩ := lower_place hb h₁
    obtain ⟨L₂, done₂, cur₂, hf₂, hb₂⟩ := lowerList_place hb₁ h
    exact ⟨_, done₂, cur₂, hf₁.trans hf₂, hb₂⟩

/-- Recording writes the zero fetch if needed, the array markers and one record per bit, all in
the insertion block. -/
theorem recordOutputs_writesHere (h : s.recordOutputs = .ok s') :
    ∃ L, s.builder.WritesHere L s'.builder :=
  (recordOutputs_calls h).writesHere

/-- Finishing releases the qubits and returns in the insertion block, then sets attributes and
flags: a forward run to a builder holding the finished module. -/
theorem finish_forward (s : Lowering) (flags : Bool) :
    ∃ L b, Forward s.builder L b ∧ b.module = s.finish flags := by
  obtain ⟨L, hL⟩ := (Handles.releaseAll_calls s.handles s.builder).writesHere
  have hret := (hL.trans (.push _ .ret)).forward
  unfold finish
  split
  · exact ⟨_, _, hret.trans (.setAttribute _ _ (.setAttribute _ _ (.setAttribute _ _
      (.setAttribute _ _ (.addFlag _ (.addFlag _ (.addFlag _ (.addFlag _ (.refl _))))))))), rfl⟩
  · exact ⟨_, _, hret.trans (.setAttribute _ _ (.setAttribute _ _ (.setAttribute _ _
      (.setAttribute _ _ (.refl _))))), rfl⟩

end Lowering

open Lowering in
/-- Lowering writes in block order. From a state whose insertion block is the last block of its
function, a successful lowering of one instruction is a forward run: it ends again in the last
block, keeps the blocks before the old insertion block, leaves behind only blocks that end in a
terminator, and what it writes, oldest first, is what the blocks from the old insertion block on
hold beyond it, read in block order. So the entry function of a translated module holds, block
after block, the instructions in the order they were written. -/
theorem lowering_writes_in_block_order :
    (∀ (s s' : Lowering) (index : Nat) (i : Instruction) (done : List Block) (cur : Block),
      s.builder.Place done cur [] → s.lower index i = .ok s' →
      ∃ L A closed last, Forward s.builder L s'.builder ∧
        s'.builder.Place (done ++ closed) last [] ∧
        (∀ blk ∈ closed, blk.isTerminated = true) ∧
        (closed ++ [last]).head? = some (cur.pushAll A) ∧
        (closed ++ [last]).flatMap (·.instrs) = cur.instrs ++ L) ∧
    (∀ (llvm : Llvm) (o : Options) (src : Source) (g : Generated) (f : Function),
      translate llvm o src = .ok g → g.module.entryPoint? = some f →
      ∃ L b, Forward (Builder.new (sanitizeModuleName (o.moduleName.getD src.name)) o.entryPoint) L b ∧
        b.module = g.module ∧ f.instrs = L) := by
  refine ⟨fun s s' index i done cur hb h => ?_, fun llvm o src g f h hf => ?_⟩
  · obtain ⟨L, done', cur', hf, hp⟩ := lower_place hb h
    obtain ⟨A, closed, last, todo', hp', -, hc, hhead, hflat⟩ := hf.place hb (by simp)
    obtain rfl := hp'.todo_eq_nil hp
    exact ⟨L, A, closed, last, hf, hp', hc, hhead, hflat⟩
  · obtain ⟨s₁, s₂, h₁, h₂, hg⟩ := generate_eq_ok (translate_eq_ok h).1
    have hnew : (Builder.new (sanitizeModuleName (o.moduleName.getD src.name)) o.entryPoint).Place
        [] { label := "entry" } [] := ⟨by simp [Builder.new], rfl, rfl⟩
    obtain ⟨L₁, -, -, hf₁, -⟩ := lowerList_place hnew h₁
    obtain ⟨L₂, hL₂⟩ := recordOutputs_writesHere h₂
    obtain ⟨L₃, b, hf₃, hb⟩ := finish_forward s₂ o.emitModuleFlags
    have hrun := (hf₁.trans hL₂.forward).trans hf₃
    refine ⟨_, b, hrun, by rw [hb, hg], ?_⟩
    obtain ⟨-, closed, last, todo', hp, htodo, -, -, hflat⟩ := hrun.place hnew (by simp)
    -- the run keeps the one function of the fresh builder, which is the entry point
    obtain ⟨hfun, hlen⟩ := hrun.function_eq
    have hfs : b.module.functions = [b.current] := by
      obtain ⟨x, hx⟩ := List.length_eq_one_iff.1 (by simpa [Lowering.new, Builder.new] using hlen)
      simp [Builder.current, hx, hfun, Lowering.new, Builder.new]
    have hmem : f ∈ b.module.functions := by
      rw [hb, ← hg]
      exact List.mem_of_find?_eq_some hf
    rw [hfs, List.mem_singleton] at hmem
    rw [hmem, Function.instrs, hp.blocks_eq, List.flatMap_append, List.flatMap_cons,
      List.flatMap_eq_nil_iff.2 htodo]
    simpa using hflat

end QirGen
