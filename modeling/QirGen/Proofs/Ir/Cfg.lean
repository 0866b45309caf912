import QirGen.Proofs.Ir.Lines

/-!
# Control flow and SSA scope of a function

Blocks branch to labels, so a function's control-flow graph has an edge from block `j` to
block `k` when an instruction of `j` names the label of `k`. Calls bind names, and
instructions read named values. `Function.WellFormed` gathers what a consumer of the IR
relies on: distinct labels that are never value names, blocks that end in exactly one
terminator, branches that only go forward to existing blocks, every block after the entry
branched to, one return at the very end, each name bound once, and every read name bound
earlier in its block or in a block that dominates it.
-/

namespace QirGen
namespace Ir

/-- The name of a value bound by an earlier call. -/
def Value.name? : Value → Option String
  | .named _ n => some n
  | _ => none

namespace Instr

/-- The labels an instruction branches to. -/
def targets : Instr → List String
  | .br t => [t]
  | .condBr _ t e => [t, e]
  | _ => []

/-- The name a call binds its result to. -/
def bound? : Instr → Option String
  | .call _ _ _ r => r
  | _ => none

/-- The names of earlier results an instruction reads. -/
def uses : Instr → List String
  | .call _ _ args _ => args.filterMap Value.name?
  | .condBr c _ _ => [c].filterMap Value.name?
  | _ => []

@[simp] theorem targets_call (c : String) (t : Ty) (args : List Value) (r : Option String) :
    (Instr.call c t args r).targets = [] := rfl

@[simp] theorem bound?_call (c : String) (t : Ty) (args : List Value) (r : Option String) :
    (Instr.call c t args r).bound? = r := rfl

@[simp] theorem isTerminator_call (c : String) (t : Ty) (args : List Value) (r : Option String) :
    (Instr.call c t args r).isTerminator = false := rfl

end Instr

namespace Function

/-- The names the calls of a function bind, in order. -/
def boundNames (f : Function) : List String := f.instrs.filterMap Instr.bound?

/-- An edge of the control-flow graph: an instruction of block `j` branches to the label of
block `k`. -/
def Edge (f : Function) (j k : Nat) : Prop :=
  ∃ b c : Block, f.blocks[j]? = some b ∧ f.blocks[k]? = some c ∧ ∃ i ∈ b.instrs, c.label ∈ i.targets

/-- Block `j` is reached from the entry by a path that never enters block `d`. -/
inductive Avoids (f : Function) (d : Nat) : Nat → Prop
  | entry : d ≠ 0 → Avoids f d 0
  | step {j k : Nat} : Avoids f d j → f.Edge j k → k ≠ d → Avoids f d k

/-- Block `d` dominates block `j`: every path from the entry to `j` passes through `d`. -/
def Dominates (f : Function) (d j : Nat) : Prop := ¬ f.Avoids d j

/-- A well-formed function: its control flow goes forward through terminated blocks to one
final return, and every name it reads is bound once, before the read, in the same block or in
a block that dominates it. -/
structure WellFormed (f : Function) : Prop where
  labels_nodup : (f.blocks.map (·.label)).Nodup
  label_not_bound : ∀ b ∈ f.blocks, b.label ∉ f.boundNames
  terminated : ∀ b ∈ f.blocks,
    ∃ body t, b.instrs = body ++ [t] ∧ t.isTerminator = true ∧ ∀ i ∈ body, i.isTerminator = false
  forward : ∀ (j : Nat) (b : Block), f.blocks[j]? = some b → ∀ i ∈ b.instrs, ∀ t ∈ i.targets,
    ∃ k : Nat, ∃ c : Block, j < k ∧ f.blocks[k]? = some c ∧ c.label = t
  targeted : ∀ k, 0 < k → k < f.blocks.length → ∃ j, f.Edge j k
  ret_once : f.instrs.count .ret = 1
  ret_last : f.blocks.getLast?.bind (·.instrs.getLast?) = some .ret
  bound_nodup : f.boundNames.Nodup
  uses_bound : ∀ (j : Nat) (b : Block), f.blocks[j]? = some b → ∀ (p : Nat) (i : Instr), b.instrs[p]? = some i →
    ∀ n ∈ i.uses, (∃ q < p, ∃ i' : Instr, b.instrs[q]? = some i' ∧ i'.bound? = some n) ∨
      (∃ d, d ≠ j ∧ f.Dominates d j ∧
        ∃ c : Block, f.blocks[d]? = some c ∧ ∃ i' ∈ c.instrs, i'.bound? = some n)

end Function
end Ir
end QirGen
