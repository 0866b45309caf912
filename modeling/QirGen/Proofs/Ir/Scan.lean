import QirGen.Proofs.Ir.Cfg
import Mathlib.Data.List.Chain
import Mathlib.Data.List.Nodup

/-!
# Reading well-formedness off a function's lines

Lowering writes a function as a list of lines growing at the end, so the facts of
`Function.WellFormed` are proved on lines, where a step's segment composes with `++`, and
carried over to blocks once, here:

* `Line.Adjacent` on consecutive lines gives terminated blocks and, at each block boundary,
  a branch to the next block;
* `Ahead cut` says every branch goes forward, never past the next label that `cut` marks,
  so such a block dominates every later block;
* `Scoped cut` is a one-pass scope check: a read names a value bound earlier in the block or
  in an earlier block that `cut` marks.

`Shaped` bundles them with the counts of labels, names and returns, and
`Function.wellFormed_of_shaped` is the transfer.
-/

namespace QirGen
namespace Ir

namespace Line

/-- The label a line starts, if it starts a block. -/
def label? : Line → Option String
  | .label l => some l
  | .instr _ => none

/-- The instruction on a line, if it holds one. -/
def instr? : Line → Option Instr
  | .label _ => none
  | .instr i => some i

def isLabel : Line → Bool
  | .label _ => true
  | .instr _ => false

def isTerminator : Line → Bool
  | .label _ => false
  | .instr i => i.isTerminator

/-- The labels a line branches to. -/
def targets : Line → List String
  | .label _ => []
  | .instr i => i.targets

/-- Lines that may follow each other: a terminator exactly before a label, and a label only
where the terminator before it branches to it. -/
def Adjacent (x y : Line) : Prop := x.isTerminator = y.isLabel ∧ ∀ l, y = .label l → l ∈ x.targets

end Line

@[simp] theorem labels_linesOf (bs : List Block) :
    (linesOf bs).filterMap Line.label? = bs.map (·.label) := by
  induction bs with
  | nil => rfl
  | cons b bs ih => simp [Block.lines, Line.label?, ih, List.filterMap_map, Function.comp_def]

@[simp] theorem instrs_linesOf (bs : List Block) :
    (linesOf bs).filterMap Line.instr? = bs.flatMap (·.instrs) := by
  induction bs with
  | nil => rfl
  | cons b bs ih =>
    simp [Block.lines, Line.instr?, ih, List.filterMap_cons, List.filterMap_append,
      List.filterMap_map, Function.comp_def]

/-! ### Terminated blocks -/

theorem lines_getLast? (b : Block) :
    b.lines.getLast? = some ((b.instrs.getLast?.map Line.instr).getD (.label b.label)) := by
  simp [Block.lines, List.getLast?_cons, List.getLast?_map]

/-- A block whose last line is a terminator ends in that instruction. -/
theorem getLast?_instrs_of_lines {b : Block} {x : Line} (hx : b.lines.getLast? = some x)
    (ht : x.isTerminator = true) : ∃ t, b.instrs.getLast? = some t ∧ t.isTerminator = true := by
  rw [lines_getLast?, Option.some_inj] at hx
  cases h : b.instrs.getLast? with
  | none => simp [h, ← hx, Line.isTerminator] at ht
  | some t => exact ⟨t, rfl, by simpa [h, ← hx, Line.isTerminator] using ht⟩

/-- Instructions followed by one more instruction are not terminators. -/
theorem not_terminator_of_isChain :
    ∀ {body : List Instr} {t : Instr}, ((body ++ [t]).map Line.instr).IsChain Line.Adjacent →
      ∀ i ∈ body, i.isTerminator = false
  | [], _, _ => by simp
  | i :: body, t, h => by
    rw [List.cons_append, List.map_cons, List.isChain_cons] at h
    obtain ⟨hnext, hrest⟩ := h
    -- the line after `i` holds an instruction, so `i` does not end the block
    obtain ⟨j, hj⟩ : ∃ j, ((body ++ [t]).map Line.instr).head? = some (.instr j) := by
      cases body <;> simp
    have hi : i.isTerminator = false := by
      simpa [Line.Adjacent, Line.isTerminator, Line.isLabel] using (hnext _ hj).1
    intro k hk
    rcases List.mem_cons.1 hk with rfl | hk
    · exact hi
    · exact not_terminator_of_isChain hrest k hk

/-- The lines of a block inside chained lines are chained. -/
theorem isChain_block {pre post : List Block} {b : Block}
    (h : (linesOf (pre ++ b :: post)).IsChain Line.Adjacent) :
    b.lines.IsChain Line.Adjacent ∧
      ∀ x ∈ b.lines.getLast?, ∀ y ∈ (linesOf post).head?, Line.Adjacent x y := by
  simp only [linesOf_append, linesOf_cons, List.isChain_append] at h
  exact ⟨h.2.1.1, h.2.1.2.2⟩

/-- Chained lines that end in a terminator make blocks that each end in exactly one
terminator. -/
theorem terminated_of_isChain {bs : List Block} (hc : (linesOf bs).IsChain Line.Adjacent)
    (hlast : ∀ x ∈ (linesOf bs).getLast?, x.isTerminator = true) :
    ∀ b ∈ bs, ∃ body t, b.instrs = body ++ [t] ∧ t.isTerminator = true ∧
      ∀ i ∈ body, i.isTerminator = false := by
  intro b hb
  obtain ⟨pre, post, rfl⟩ := List.append_of_mem hb
  obtain ⟨hcb, hbd⟩ := isChain_block hc
  -- the block's last line comes right before a label, or is the last line of all
  obtain ⟨t, ht, hterm⟩ : ∃ t, b.instrs.getLast? = some t ∧ t.isTerminator = true := by
    obtain ⟨x, hx⟩ : ∃ x, b.lines.getLast? = some x := ⟨_, lines_getLast? b⟩
    refine getLast?_instrs_of_lines hx ?_
    cases post with
    | nil => exact hlast x (by simp [List.getLast?_append, hx])
    | cons c post =>
      have := (hbd x hx (.label c.label) (by simp [Block.lines])).1
      simpa [Line.isLabel] using this
  refine ⟨b.instrs.dropLast, t, (List.dropLast_append_getLast? t ht).symm, hterm, ?_⟩
  apply not_terminator_of_isChain (t := t)
  rw [List.dropLast_append_getLast? t ht]
  simpa [Block.lines] using hcb.tail

/-- In chained lines, each block after the first starts at a label that the last
instruction of the block before branches to. -/
theorem boundary_of_isChain :
    ∀ {bs : List Block}, (linesOf bs).IsChain Line.Adjacent →
      ∀ j b c, bs[j]? = some b → bs[j + 1]? = some c →
        ∃ t ∈ b.instrs, c.label ∈ t.targets
  | [], _, _, _, _, hb, _ => by simp at hb
  | b₀ :: bs, hc, j, b, c, hb, hc' => by
    rw [linesOf_cons, List.isChain_append] at hc
    obtain ⟨-, hrest, hbd⟩ := hc
    cases j with
    | zero =>
      cases bs with
      | nil => simp at hc'
      | cons c' bs =>
        obtain rfl : b₀ = b := by simpa using hb
        obtain rfl : c' = c := by simpa using hc'
        obtain ⟨x, hx⟩ : ∃ x, b₀.lines.getLast? = some x := ⟨_, lines_getLast? b₀⟩
        have hadj := hbd x hx (.label c'.label) (by simp [Block.lines])
        -- the line before a label is a terminator that branches to it
        obtain ⟨t, ht, -⟩ := getLast?_instrs_of_lines hx (by simpa [Line.isLabel] using hadj.1)
        rw [lines_getLast?, ht] at hx
        simp only [Option.map_some, Option.getD_some, Option.some.injEq] at hx
        subst hx
        exact ⟨t, List.mem_of_getLast? ht, by simpa [Line.targets] using hadj.2 c'.label rfl⟩
    | succ j =>
      simp only [List.getElem?_cons_succ] at hb hc'
      exact boundary_of_isChain hrest j b c hb hc'

/-! ### Forward branches, and the blocks that dominate -/

section Ahead

variable (cut : String → Bool)

/-- The lines up to and including the first label that `cut` marks. -/
def upToCut : List Line → List Line
  | [] => []
  | .label l :: xs => .label l :: if cut l then [] else upToCut xs
  | .instr i :: xs => .instr i :: upToCut xs

/-- Every branch goes forward, to a label no further than the next label that `cut` marks. -/
def Ahead : List Line → Prop
  | [] => True
  | x :: xs => (∀ t ∈ x.targets, .label t ∈ upToCut cut xs) ∧ Ahead xs

variable {cut}

theorem upToCut_instrs (is : List Instr) (xs : List Line) :
    upToCut cut (is.map .instr ++ xs) = is.map .instr ++ upToCut cut xs := by
  induction is with
  | nil => rfl
  | cons i is ih => simp [upToCut, ih]

/-- More lines only extend the lines up to the next marked label. -/
theorem upToCut_append : ∀ (xs ys : List Line), ∃ r, upToCut cut (xs ++ ys) = upToCut cut xs ++ r
  | [], ys => ⟨upToCut cut ys, rfl⟩
  | .instr i :: xs, ys => by
    obtain ⟨r, hr⟩ := upToCut_append xs ys
    exact ⟨r, by simp [upToCut, hr]⟩
  | .label l :: xs, ys => by
    obtain ⟨r, hr⟩ := upToCut_append xs ys
    by_cases hl : cut l = true
    · exact ⟨[], by simp [upToCut, hl]⟩
    · exact ⟨r, by simp [upToCut, hl, hr]⟩

theorem Ahead.append : ∀ {xs ys : List Line}, Ahead cut xs → Ahead cut ys → Ahead cut (xs ++ ys)
  | [], _, _, hy => hy
  | x :: xs, ys, ⟨hx, hxs⟩, hy => by
    refine ⟨fun t ht => ?_, Ahead.append hxs hy⟩
    obtain ⟨r, hr⟩ := @upToCut_append cut xs ys
    show Line.label t ∈ upToCut cut (xs ++ ys)
    rw [hr]
    exact List.mem_append_left r (hx t ht)

/-- The branch targets of a line are found ahead of it. -/
theorem Ahead.targets_mem : ∀ {pre : List Line} {x : Line} {post : List Line},
    Ahead cut (pre ++ x :: post) → ∀ t ∈ x.targets, .label t ∈ upToCut cut post
  | [], _, _, h => h.1
  | _ :: pre, _, _, h => Ahead.targets_mem (show Ahead cut (pre ++ _ :: _) from h.2)

/-- A label ahead of a block boundary, within reach, is the label of a later block, with no
marked block in between. -/
theorem label_mem_upToCut :
    ∀ {cs : List Block} {t : String}, .label t ∈ upToCut cut (linesOf cs) →
      ∃ k : Nat, ∃ c : Block, cs[k]? = some c ∧ c.label = t ∧
        ∀ m < k, ∀ c' : Block, cs[m]? = some c' → cut c'.label = false
  | [], _, h => by simp [upToCut] at h
  | c :: cs, t, h => by
    rw [linesOf_cons, Block.lines, List.cons_append, upToCut, upToCut_instrs] at h
    rcases List.mem_cons.1 h with h | h
    · exact ⟨0, c, rfl, (Line.label.inj h).symm, by simp⟩
    · by_cases hc : cut c.label = true
      · simp [hc] at h
      · simp only [hc, Bool.false_eq_true, if_false, List.mem_append, List.mem_map,
          reduceCtorEq, and_false, exists_false, false_or] at h
        obtain ⟨k, c', hk, rfl, hbetween⟩ := label_mem_upToCut h
        refine ⟨k + 1, c', by simpa using hk, rfl, fun m hm c'' hc'' => ?_⟩
        cases m with
        | zero =>
          obtain rfl : c = c'' := by simpa using hc''
          simpa using hc
        | succ m => exact hbetween m (by omega) c'' (by simpa using hc'')

/-- A list is its part before position `j`, the element there, and the rest. -/
theorem eq_take_cons_drop {α : Type} {l : List α} {j : Nat} {a : α} (h : l[j]? = some a) :
    l = l.take j ++ a :: l.drop (j + 1) ∧ (l.take j).length = j := by
  obtain ⟨hj, rfl⟩ := List.getElem?_eq_some_iff.1 h
  refine ⟨?_, by simp; omega⟩
  conv_lhs => rw [← List.take_append_drop j l, List.drop_eq_getElem_cons hj]

/-- Branches of lines that are `Ahead` go forward to the label of a later block, with no
marked block in between. -/
theorem forward_of_ahead {bs : List Block} (h : Ahead cut (linesOf bs)) :
    ∀ (j : Nat) (b : Block), bs[j]? = some b → ∀ i ∈ b.instrs, ∀ t ∈ i.targets,
      ∃ k : Nat, ∃ c : Block, j < k ∧ bs[k]? = some c ∧ c.label = t ∧
        ∀ m, j < m → m < k → ∀ c' : Block, bs[m]? = some c' → cut c'.label = false := by
  intro j b hb i hi t ht
  obtain ⟨hsplit, -⟩ := eq_take_cons_drop hb
  obtain ⟨pre, post, hinstrs⟩ := List.append_of_mem hi
  -- the instruction's line, with the block's other instructions and the later blocks after it
  have hlines : linesOf bs = (linesOf (bs.take j) ++ .label b.label :: pre.map .instr) ++
      .instr i :: (post.map .instr ++ linesOf (bs.drop (j + 1))) := by
    conv_lhs => rw [hsplit]
    simp [Block.lines, hinstrs]
  rw [hlines] at h
  have hmem := h.targets_mem t ht
  rw [upToCut_instrs, List.mem_append] at hmem
  rcases hmem with hmem | hmem
  · simp at hmem
  obtain ⟨k, c, hk, rfl, hbetween⟩ := label_mem_upToCut hmem
  rw [List.getElem?_drop] at hk
  refine ⟨j + 1 + k, c, by omega, hk, rfl, fun m hjm hmk c' hc' => ?_⟩
  refine hbetween (m - (j + 1)) (by omega) c' ?_
  rwa [List.getElem?_drop, show j + 1 + (m - (j + 1)) = m by omega]

/-- Blocks with one label are found by it. -/
theorem index_eq_of_label {bs : List Block} (h : (bs.map (·.label)).Nodup) {k k' : Nat}
    {c c' : Block} (hc : bs[k]? = some c) (hc' : bs[k']? = some c') (hl : c.label = c'.label) :
    k = k' := by
  obtain ⟨hk, rfl⟩ := List.getElem?_eq_some_iff.1 hc
  obtain ⟨hk', rfl⟩ := List.getElem?_eq_some_iff.1 hc'
  have hk₁ : k < (bs.map (·.label)).length := by simpa using hk
  have hk₂ : k' < (bs.map (·.label)).length := by simpa using hk'
  have heq : (bs.map (·.label))[k] = (bs.map (·.label))[k'] := by simpa using hl
  exact (List.Nodup.getElem_inj_iff h).1 heq

/-- With distinct labels and branches `Ahead`, an edge goes forward and passes no marked
block. -/
theorem Function.edge_ahead {f : Function} (h : Ahead cut (linesOf f.blocks))
    (hnodup : (f.blocks.map (·.label)).Nodup) {j k : Nat} (he : f.Edge j k) :
    j < k ∧ ∀ m, j < m → m < k → ∀ c : Block, f.blocks[m]? = some c → cut c.label = false := by
  obtain ⟨b, c, hb, hc, i, hi, ht⟩ := he
  obtain ⟨k', c', hjk, hk', hl, hbetween⟩ := forward_of_ahead h j b hb i hi c.label ht
  obtain rfl := index_eq_of_label hnodup hc hk' hl.symm
  exact ⟨hjk, hbetween⟩

/-- A marked block dominates every block after it: no branch passes it. -/
theorem Function.dominates_of_cut {f : Function} (h : Ahead cut (linesOf f.blocks))
    (hnodup : (f.blocks.map (·.label)).Nodup) {m : Nat} {c : Block} (hm : f.blocks[m]? = some c)
    (hcut : cut c.label = true) {j : Nat} (hj : m ≤ j) : f.Dominates m j := by
  intro hav
  -- a path that avoids `m` stays before it, since no edge jumps over `m`
  have hbefore : ∀ k, f.Avoids m k → k < m := by
    intro k hk
    induction hk with
    | entry h0 => omega
    | step _ he hne ih =>
      rename_i k₀ k
      obtain ⟨hlt, hbetween⟩ := f.edge_ahead h hnodup he
      by_contra hge
      have := hbetween m ih (by omega) c hm
      simp [hcut] at this
  exact absurd (hbefore j hav) (by omega)

end Ahead

/-! ### The scope of the names read -/

/-- What a one-pass scope check knows at a point of the lines: the names bound in earlier
marked blocks and so far in the current block if it is marked (`outer`), the names bound so
far in the current block (`inner`), and whether the current block is marked. -/
structure Scope where
  outer : List String
  inner : List String
  inCut : Bool

namespace Scope

/-- The scope before the first line. -/
def init : Scope := ⟨[], [], false⟩

/-- The scope after a line: a label starts a block with nothing bound in it yet; a call binds
its name in the block, and for good when the block is marked. -/
def step (cut : String → Bool) (σ : Scope) : Line → Scope
  | .label l => ⟨σ.outer, [], cut l⟩
  | .instr i => match i.bound? with
    | none => σ
    | some n => ⟨if σ.inCut then σ.outer ++ [n] else σ.outer, σ.inner ++ [n], σ.inCut⟩

/-- The names a line reads are in scope. -/
def admits (σ : Scope) : Line → Prop
  | .label _ => True
  | .instr i => ∀ n ∈ i.uses, n ∈ σ.outer ∨ n ∈ σ.inner

end Scope

section Scoped

variable {cut : String → Bool}

variable (cut) in
/-- Every name a line reads is in scope where it is read. -/
def Scoped : Scope → List Line → Prop
  | _, [] => True
  | σ, x :: xs => σ.admits x ∧ Scoped (σ.step cut x) xs

theorem scoped_append :
    ∀ {σ : Scope} {xs ys : List Line},
      Scoped cut σ (xs ++ ys) ↔ Scoped cut σ xs ∧ Scoped cut (xs.foldl (Scope.step cut) σ) ys
  | _, [], _ => by simp [Scoped]
  | σ, x :: xs, ys => by
    simp only [List.cons_append, Scoped, List.foldl_cons, scoped_append, and_assoc]

/-- Scanning the instructions of a block binds their names in the block, and for good when
the block is marked. -/
theorem foldl_step_instrs (is : List Instr) (σ : Scope) :
    (is.map Line.instr).foldl (Scope.step cut) σ =
      ⟨if σ.inCut then σ.outer ++ is.filterMap Instr.bound? else σ.outer,
        σ.inner ++ is.filterMap Instr.bound?, σ.inCut⟩ := by
  induction is generalizing σ with
  | nil => cases σ; simp
  | cons i is ih =>
    rw [List.map_cons, List.foldl_cons, ih]
    cases hb : i.bound? <;> cases hc : σ.inCut <;> simp [Scope.step, hb, hc]

/-- A name in scope after an instruction was in scope before it, or the instruction binds it. -/
theorem mem_step_instr {σ : Scope} {i : Instr} {n : String}
    (h : n ∈ (σ.step cut (.instr i)).outer ∨ n ∈ (σ.step cut (.instr i)).inner) :
    n ∈ σ.outer ∨ n ∈ σ.inner ∨ i.bound? = some n := by
  cases hb : i.bound? with
  | none => simpa [Scope.step, hb] using h
  | some m =>
    by_cases hm : m = n
    · exact .inr (.inr (by rw [hm]))
    · have h' : n ∈ σ.outer ∨ n ∈ σ.inner := by
        cases hc : σ.inCut <;> simpa [Scope.step, hb, hc, Ne.symm hm] using h
      exact h'.elim .inl (.inr ∘ .inl)

/-- A read inside scanned instructions names a value in scope at their start, or one bound
by an earlier instruction among them. -/
theorem uses_of_scoped_instrs :
    ∀ {is : List Instr} {σ : Scope}, Scoped cut σ (is.map Line.instr) →
      ∀ (p : Nat) (i : Instr), is[p]? = some i → ∀ n ∈ i.uses,
        n ∈ σ.outer ∨ n ∈ σ.inner ∨ ∃ q < p, ∃ i' : Instr, is[q]? = some i' ∧ i'.bound? = some n
  | [], _, _, _, _, hi, _, _ => by simp at hi
  | i₀ :: is, σ, ⟨hfirst, hrest⟩, p, i, hi, n, hn => by
    cases p with
    | zero =>
      obtain rfl : i₀ = i := by simpa using hi
      exact (hfirst n hn).elim .inl (.inr ∘ .inl)
    | succ p =>
      rcases uses_of_scoped_instrs hrest p i (by simpa using hi) n hn with h | h | ⟨q, hq, i', hi', hb⟩
      -- a name in scope after `i₀` was in scope before it, or `i₀` binds it
      · rcases mem_step_instr (.inl h) with h | h | h
        · exact .inl h
        · exact .inr (.inl h)
        · exact .inr (.inr ⟨0, by omega, i₀, rfl, h⟩)
      · rcases mem_step_instr (.inr h) with h | h | h
        · exact .inl h
        · exact .inr (.inl h)
        · exact .inr (.inr ⟨0, by omega, i₀, rfl, h⟩)
      · exact .inr (.inr ⟨q + 1, by omega, i', by simpa using hi', hb⟩)

/-- Scoped lines read each name where it is bound earlier in the same block, or in an earlier
marked block. The scan starts after the blocks `done`, whose marked blocks bind `σ.outer`. -/
theorem uses_bound_of_scoped :
    ∀ (bs done : List Block) (σ : Scope),
      (∀ n ∈ σ.outer, ∃ m : Nat, ∃ c : Block, done[m]? = some c ∧ cut c.label = true ∧
        ∃ i' ∈ c.instrs, i'.bound? = some n) →
      Scoped cut σ (linesOf bs) →
      ∀ (j : Nat) (b : Block), bs[j]? = some b → ∀ (p : Nat) (i : Instr), b.instrs[p]? = some i →
        ∀ n ∈ i.uses, (∃ q < p, ∃ i' : Instr, b.instrs[q]? = some i' ∧ i'.bound? = some n) ∨
          ∃ m < done.length + j, ∃ c : Block, (done ++ bs)[m]? = some c ∧ cut c.label = true ∧
            ∃ i' ∈ c.instrs, i'.bound? = some n
  | [], _, _, _, _, _, _, hb, _, _, _, _, _ => by simp at hb
  | b₀ :: bs, done, σ, houter, hs, j, b, hb, p, i, hi, n, hn => by
    simp only [linesOf_cons, Block.lines, List.cons_append, Scoped, scoped_append,
      foldl_step_instrs, Scope.step] at hs
    obtain ⟨-, hblock, hrest⟩ := hs
    -- a name of `σ.outer` is bound in a marked block of `done`, before the current one
    have hdone : ∀ n ∈ σ.outer, ∃ m < done.length + j, ∃ c : Block, (done ++ b₀ :: bs)[m]? = some c ∧
        cut c.label = true ∧ ∃ i' ∈ c.instrs, i'.bound? = some n := by
      intro n hn
      obtain ⟨m, c, hc, hcut, hbound⟩ := houter n hn
      have hm : m < done.length := (List.getElem?_eq_some_iff.1 hc).1
      exact ⟨m, by omega, c, by rwa [List.getElem?_append_left hm], hcut, hbound⟩
    cases j with
    | zero =>
      obtain rfl : b₀ = b := by simpa using hb
      rcases uses_of_scoped_instrs hblock p i hi n hn with h | h | h
      · exact .inr (hdone n h)
      · simp at h
      · exact .inl h
    | succ j =>
      have hrec := uses_bound_of_scoped bs (done ++ [b₀]) _ ?_ hrest j b (by simpa using hb) p i hi
        n hn
      · refine hrec.imp id ?_
        rintro ⟨m, hm, c, hc, hcut, hbound⟩
        exact ⟨m, by simp at hm; omega, c, by simpa using hc, hcut, hbound⟩
      -- names bound for good so far: those of `σ.outer`, and those of `b₀` if it is marked
      intro n hn
      by_cases hcut : cut b₀.label = true
      · simp only [hcut, if_true, List.mem_append] at hn
        rcases hn with hn | hn
        · obtain ⟨m, c, hc, hcut', hbound⟩ := houter n hn
          have hm : m < done.length := (List.getElem?_eq_some_iff.1 hc).1
          exact ⟨m, c, by rwa [List.getElem?_append_left hm], hcut', hbound⟩
        · obtain ⟨i', hi', hb'⟩ := List.mem_filterMap.1 hn
          exact ⟨done.length, b₀, by simp, hcut, i', hi', hb'⟩
      · simp only [hcut, Bool.false_eq_true, if_false] at hn
        obtain ⟨m, c, hc, hcut', hbound⟩ := houter n hn
        have hm : m < done.length := (List.getElem?_eq_some_iff.1 hc).1
        exact ⟨m, c, by rwa [List.getElem?_append_left hm], hcut', hbound⟩

end Scoped

/-! ### From lines to a well-formed function -/

/-- The conditions on a function's lines that make it well formed, with `cut` marking the
blocks that no branch passes. -/
structure Shaped (cut : String → Bool) (L : List Line) : Prop where
  chain : L.IsChain Line.Adjacent
  last_ret : L.getLast? = some (.instr .ret)
  ret_once : (L.filterMap Line.instr?).count .ret = 1
  ahead : Ahead cut L
  in_scope : Scoped cut Scope.init L
  labels_nodup : (L.filterMap Line.label?).Nodup
  label_not_bound : ∀ l ∈ L.filterMap Line.label?,
    l ∉ (L.filterMap Line.instr?).filterMap Instr.bound?
  bound_nodup : ((L.filterMap Line.instr?).filterMap Instr.bound?).Nodup

/-- A function whose lines are shaped is well formed. -/
theorem Function.wellFormed_of_shaped {cut : String → Bool} {f : Function}
    (h : Shaped cut (linesOf f.blocks)) : f.WellFormed := by
  have hinstrs : f.instrs = (linesOf f.blocks).filterMap Line.instr? := by
    simp [Function.instrs]
  have hnodup : (f.blocks.map (·.label)).Nodup := by simpa using h.labels_nodup
  -- the last line is the return, so the last block ends with it
  obtain ⟨pre, b, hsplit⟩ : ∃ pre b, f.blocks = pre ++ [b] := by
    cases hbs : f.blocks.getLast? with
    | none =>
      have := h.last_ret
      simp [List.getLast?_eq_none_iff.1 hbs] at this
    | some b => exact ⟨_, b, (List.getLast?_eq_some_iff.1 hbs).choose_spec⟩
  have hlast : b.instrs.getLast? = some .ret := by
    have := h.last_ret
    rw [hsplit, linesOf_append, linesOf_cons, linesOf_nil, List.append_nil, List.getLast?_append,
      lines_getLast?] at this
    cases hl : b.instrs.getLast? <;> simp_all
  refine ⟨hnodup, ?_, ?_, ?_, ?_, ?_, ?_, ?_, ?_⟩
  · intro b hb
    have := h.label_not_bound b.label (by simpa using List.mem_map_of_mem hb)
    rwa [Function.boundNames, hinstrs]
  · exact terminated_of_isChain h.chain (by simp [h.last_ret, Line.isTerminator, Instr.isTerminator])
  · intro j b hb i hi t ht
    obtain ⟨k, c, hjk, hk, hl, -⟩ := forward_of_ahead h.ahead j b hb i hi t ht
    exact ⟨k, c, hjk, hk, hl⟩
  · intro k hk hlen
    have hprev : f.blocks[k - 1]? = some f.blocks[k - 1] := List.getElem?_eq_getElem (by omega)
    have hcur : f.blocks[k - 1 + 1]? = some f.blocks[k] := by
      rw [Nat.sub_add_cancel hk]
      exact List.getElem?_eq_getElem hlen
    obtain ⟨t, ht, hlt⟩ := boundary_of_isChain h.chain (k - 1) _ _ hprev hcur
    exact ⟨k - 1, _, _, hprev, List.getElem?_eq_getElem hlen, t, ht, hlt⟩
  · rw [hinstrs]
    exact h.ret_once
  · simp [hsplit, hlast]
  · rw [Function.boundNames, hinstrs]
    exact h.bound_nodup
  · intro j b hb p i hi n hn
    rcases uses_bound_of_scoped f.blocks [] Scope.init (by simp [Scope.init]) h.in_scope j b hb p i
      hi n hn with h' | ⟨m, hm, c, hc, hcut, hbound⟩
    · exact .inl h'
    · exact .inr ⟨m, by simp at hm; omega, f.dominates_of_cut h.ahead hnodup (by simpa using hc) hcut
        (by simp at hm; omega), c, by simpa using hc, hbound⟩

end Ir
end QirGen
