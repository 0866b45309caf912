import QirGen.Ir.Builder

/-!
# Functions as lines, and a builder that writes at the end

A function's body read in text order is a list of lines: each block gives its label, then
its instructions. Code written in order, one instruction or block at a time, is then a list
of lines growing at the end, and what one step writes is the segment it appends.

`Builder.At b name done cur todo` says where a builder writes: its module has one function,
named `name`, with no attributes yet, whose blocks are `done`, then the insertion block
`cur`, then the blocks `todo` appended ahead of being filled. Every operation that lowering
uses has its step lemma here, stated through `At`, so later proofs never unfold the builder.
-/

namespace QirGen
namespace Ir

/-- A line of a function body: a block label or an instruction. -/
inductive Line where
  | label (name : String)
  | instr (i : Instr)
  deriving DecidableEq

namespace Block

/-- A block's lines: its label, then its instructions. -/
def lines (b : Block) : List Line := .label b.label :: b.instrs.map .instr

/-- The block with one more instruction at its end. -/
def push (b : Block) (i : Instr) : Block := { b with instrs := b.instrs ++ [i] }

@[simp] theorem label_push (b : Block) (i : Instr) : (b.push i).label = b.label := rfl

@[simp] theorem instrs_push (b : Block) (i : Instr) : (b.push i).instrs = b.instrs ++ [i] := rfl

end Block

/-- The lines of a list of blocks, in order. -/
def linesOf (bs : List Block) : List Line := bs.flatMap Block.lines

@[simp] theorem linesOf_nil : linesOf [] = [] := rfl

@[simp] theorem linesOf_cons (b : Block) (bs : List Block) :
    linesOf (b :: bs) = b.lines ++ linesOf bs := rfl

@[simp] theorem linesOf_append (bs cs : List Block) :
    linesOf (bs ++ cs) = linesOf bs ++ linesOf cs := by
  simp [linesOf]

/-- Writing an instruction into the last block appends its line. -/
theorem linesOf_push (done : List Block) (cur : Block) (i : Instr) :
    linesOf (done ++ [cur.push i]) = linesOf (done ++ [cur]) ++ [.instr i] := by
  simp [Block.lines, Block.push]

/-- Opening an empty block after the last one appends its label. -/
theorem linesOf_open (done : List Block) (cur : Block) (l : String) :
    linesOf (done ++ [cur] ++ [{ label := l }]) = linesOf (done ++ [cur]) ++ [.label l] := by
  simp [Block.lines]

/-- A list of instructions under one label is one block. -/
theorem linesOf_single (l : String) (is : List Instr) :
    linesOf [{ label := l, instrs := is }] = .label l :: is.map .instr := by
  simp [Block.lines]

/-- Blocks are read back from their lines: a label starts a block and instructions fill it. -/
theorem linesOf_injective : ∀ {bs cs : List Block}, linesOf bs = linesOf cs → bs = cs
  | [], [], _ => rfl
  | [], c :: cs, h => by simp [Block.lines] at h
  | b :: bs, [], h => by simp [Block.lines] at h
  | ⟨l, is⟩ :: bs, ⟨l', is'⟩ :: cs, h => by
    simp only [linesOf_cons, Block.lines, List.cons_append, List.cons.injEq, Line.label.injEq] at h
    obtain ⟨rfl, h⟩ := h
    -- the instructions of the first block run up to the next label, on both sides
    obtain ⟨rfl, hrest⟩ := instrs_eq_of_lines h
    rw [linesOf_injective hrest]
where
  instrs_eq_of_lines : ∀ {is is' : List Instr} {bs cs : List Block},
      is.map .instr ++ linesOf bs = is'.map .instr ++ linesOf cs → is = is' ∧ linesOf bs = linesOf cs
    | [], [], _, _, h => ⟨rfl, h⟩
    | [], _ :: _, b :: _, _, h => by simp [Block.lines] at h
    | [], _ :: _, [], _, h => by simp at h
    | _ :: _, [], _, c :: _, h => by simp [Block.lines] at h
    | _ :: _, [], _, [], h => by simp at h
    | i :: is, i' :: is', bs, cs, h => by
      simp only [List.map_cons, List.cons_append, List.cons.injEq, Line.instr.injEq] at h
      obtain ⟨rfl, h⟩ := h
      obtain ⟨rfl, hrest⟩ := instrs_eq_of_lines h
      exact ⟨rfl, hrest⟩

/-- Modifying the block after `done` changes that block only. -/
theorem modify_at_length {α : Type} (done : List α) (x : α) (rest : List α) (g : α → α) :
    (done ++ x :: rest).modify done.length g = done ++ g x :: rest := by
  induction done with
  | nil => rfl
  | cons y ys ih => simp [ih]

namespace Builder

/-- The builder's module has one function, named `name` with no attributes, whose blocks are
the finished blocks `done`, the insertion block `cur`, and the blocks `todo` appended ahead of
being filled. -/
structure At (b : Builder) (name : String) (done : List Block) (cur : Block) (todo : List Block) :
    Prop where
  function_eq : b.function = 0
  functions_eq : b.module.functions = [{ name, blocks := done ++ cur :: todo }]
  block_eq : b.block = done.length

variable {b : Builder} {name : String} {done todo : List Block} {cur : Block}

theorem At.current_eq (h : b.At name done cur todo) :
    b.current = { name, blocks := done ++ cur :: todo } := by
  simp [current, h.function_eq, h.functions_eq]

/-- A fresh builder writes into the entry block of its function. -/
theorem at_new (moduleName functionName : String) :
    (new moduleName functionName).At functionName [] { label := "entry" } [] :=
  ⟨rfl, rfl, rfl⟩

theorem At.modifyCurrent (h : b.At name done cur todo) (g : Function → Function) :
    (b.modifyCurrent g).module.functions = [g { name, blocks := done ++ cur :: todo }] := by
  simp [Builder.modifyCurrent, h.function_eq, h.functions_eq]

/-- An instruction goes to the end of the insertion block. -/
theorem At.push (h : b.At name done cur todo) (i : Instr) :
    (b.push i).At name done (cur.push i) todo := by
  refine ⟨h.function_eq, ?_, h.block_eq⟩
  rw [Builder.push, h.modifyCurrent, h.block_eq, modify_at_length]
  rfl

theorem At.declare (h : b.At name done cur todo) (c : Callee) :
    (b.declare c).At name done cur todo := by
  unfold Builder.declare
  split
  · exact h
  · exact ⟨h.function_eq, h.functions_eq, h.block_eq⟩

/-- The instruction a call writes: its result is named only when the callee returns a value. -/
def callInstr (c : Callee) (args : List Value) (result : Option String) : Instr :=
  .call c.name c.ret args (if c.ret = .void then none else result)

theorem At.call (h : b.At name done cur todo) (c : Callee) (args : List Value)
    (result : Option String) :
    (b.call c args result).1.At name done (cur.push (callInstr c args result)) todo :=
  (h.declare c).push _

theorem At.callUnit (h : b.At name done cur todo) (c : Callee) (args : List Value) :
    (b.callUnit c args).At name done (cur.push (callInstr c args none)) todo :=
  h.call c args none

/-- A call to a callee that returns a value binds it under the given name. -/
theorem call_bound (c : Callee) (args : List Value) (n : String) (hc : c.ret ≠ .void) :
    (b.call c args (some n)).2 = some (.named c.ret n) := by
  simp [Builder.call, boundValue, hc]

/-- The label of a block is read from the block list. -/
theorem At.label_eq (h : b.At name done cur todo) (r : Nat) :
    b.label r = (((done ++ cur :: todo)[r]?).map (·.label)).getD "" := by
  simp [Builder.label, h.current_eq]

/-- The label of the block at a position, read off a split of the block list there. -/
theorem At.label_of_eq (h : b.At name done cur todo) (pre : List Block) (blk : Block)
    (post : List Block) (hsplit : done ++ cur :: todo = pre ++ blk :: post) :
    b.label pre.length = blk.label := by
  rw [h.label_eq, hsplit]
  simp

theorem At.br (h : b.At name done cur todo) (t : Nat) :
    (b.br t).At name done (cur.push (.br (b.label t))) todo :=
  h.push _

theorem At.condBr (h : b.At name done cur todo) (v : Value) (t e : Nat) :
    (b.condBr v t e).At name done (cur.push (.condBr v (b.label t) (b.label e))) todo :=
  h.push _

theorem At.ret (h : b.At name done cur todo) : b.ret.At name done (cur.push .ret) todo :=
  h.push _

/-- A new block goes after every block, and its reference is its position. -/
theorem At.appendBlock (h : b.At name done cur todo) (l : String) :
    (b.appendBlock l).1.At name done cur (todo ++ [{ label := l }]) ∧
      (b.appendBlock l).2 = done.length + 1 + todo.length := by
  refine ⟨⟨h.function_eq, ?_, h.block_eq⟩, ?_⟩
  · rw [Builder.appendBlock, h.modifyCurrent]
    simp
  · simp [Builder.appendBlock, h.current_eq]
    omega

/-- Moving to the next block finishes the insertion block. -/
theorem At.next (h : b.At name done cur (t :: todo)) :
    (b.positionAtEnd (done.length + 1)).At name (done ++ [cur]) t todo := by
  refine ⟨h.function_eq, ?_, by simp [positionAtEnd]⟩
  simp [positionAtEnd, h.functions_eq]

end Builder
end Ir
end QirGen
