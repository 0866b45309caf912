import QirGen.Proofs.Ir.Scan

/-!
# Runs through the blocks of a function

A run enters a block at its label and leaves it by the branch that closes it; at a
conditional branch the values read decide, `ρ` giving the value of each named boolean. A run
is the list of blocks it visits, each the successor (`Function.next`) of the one before.

The lines of a function give its blocks back: instructions right before a label close a
block, and lines made of whole blocks are consecutive blocks of the function.
-/

namespace QirGen
namespace Ir

/-- The truth of a boolean operand, where `ρ` gives the values of the named ones. -/
def Value.truth (ρ : String → Bool) : Value → Option Bool
  | .named _ n => some (ρ n)
  | .bool v => some v
  | _ => none

/-- The label a terminator hands control to. -/
def Instr.successor? (ρ : String → Bool) : Instr → Option String
  | .br l => some l
  | .condBr v t e => (v.truth ρ).map fun x => if x then t else e
  | _ => none

namespace Function

/-- The block a run goes to from block `j`: the first block labelled by the successor of the
last instruction of `j`. -/
def next (f : Function) (ρ : String → Bool) (j : Nat) : Option Nat :=
  (f.blocks[j]?.bind fun b => b.instrs.getLast?.bind (Instr.successor? ρ)).bind fun l =>
    f.blocks.findIdx? fun c => c.label == l

/-- With distinct labels, a label is found at its block. -/
theorem findIdx?_label {bs : List Block} (hnd : (bs.map (·.label)).Nodup) {k : Nat} {b : Block}
    (hk : bs[k]? = some b) : bs.findIdx? (fun c => c.label == b.label) = some k := by
  obtain ⟨hlt, rfl⟩ := List.getElem?_eq_some_iff.1 hk
  refine List.findIdx?_eq_some_iff_getElem.2 ⟨hlt, by simp, fun m hm heq => ?_⟩
  have hm' : m < (bs.map (·.label)).length := by simp; omega
  have hk' : k < (bs.map (·.label)).length := by simpa using hlt
  have heq' : (bs.map (·.label))[m] = (bs.map (·.label))[k] := by simpa using heq
  have := hnd.getElem_inj_iff.1 heq'
  omega

theorem next_eq {f : Function} (hnd : (f.blocks.map (·.label)).Nodup) {ρ : String → Bool}
    {j k : Nat} {b c : Block} {t : Instr} (hb : f.blocks[j]? = some b) (ht : b.instrs.getLast? = some t)
    (hc : f.blocks[k]? = some c) (hs : t.successor? ρ = some c.label) : f.next ρ j = some k := by
  simp only [next, hb, Option.bind_some, ht, hs]
  exact findIdx?_label hnd hc

/-- Through a chain of tests: from block `s + k` with `k < n` a run goes to the next block when
test `k` passes and to block `s + n + 1` otherwise, and block `s + n` goes to `s + n + 1`. From
block `s + k` on, the run only moves forward, ends at block `s + n + 1`, and visits block
`s + n` exactly when every test from `k` on passes. -/
theorem run_testChain_from {f : Function} {ρ : String → Bool} {s n : Nat} {pass : Nat → Bool}
    (htest : ∀ k < n, f.next ρ (s + k) = some (if pass k then s + k + 1 else s + n + 1))
    (hbody : f.next ρ (s + n) = some (s + n + 1)) :
    ∀ d k, k + d = n → ∃ w : List Nat, w.head? = some (s + k) ∧ w.getLast? = some (s + n + 1) ∧
      w.IsChain (fun a b => f.next ρ a = some b) ∧ w.Pairwise (· < ·) ∧ (∀ x ∈ w, s + k ≤ x) ∧
      (s + n ∈ w ↔ ∀ k', k ≤ k' → k' < n → pass k' = true)
  | 0, k, hk => by
    -- at the body's block, whose branch goes to the join block
    obtain rfl : k = n := by omega
    refine ⟨[s + k, s + k + 1], rfl, rfl, ?_, by simp, by simp, ?_⟩
    · simpa [List.isChain_cons_cons] using hbody
    · simp only [List.mem_cons, List.not_mem_nil, or_false, true_or, true_iff]
      intro k' hk' hk''
      omega
  | d + 1, k, hk => by
    have hk' : k < n := by omega
    have hstep := htest k hk'
    cases hp : pass k
    · -- the test fails: on to the join block, past the body's
      rw [hp] at hstep
      refine ⟨[s + k, s + n + 1], rfl, rfl, by simpa [List.isChain_cons_cons] using hstep,
        by simp; omega, by simp; omega, ?_⟩
      constructor
      · intro h
        simp only [List.mem_cons, List.not_mem_nil, or_false] at h
        omega
      · intro h
        simpa [hp] using h k (le_refl k) hk'
    · -- the test passes: on to the next block, and the run from there
      rw [hp] at hstep
      obtain ⟨w, hhead, hlast, hchain, hlt, hge, hmem⟩ :=
        run_testChain_from htest hbody d (k + 1) (by omega)
      obtain ⟨w', rfl⟩ : ∃ w', w = (s + k + 1) :: w' := by
        cases w with
        | nil => simp at hhead
        | cons x w' =>
          simp only [List.head?_cons, Option.some.injEq] at hhead
          exact ⟨w', by rw [hhead, Nat.add_assoc]⟩
      refine ⟨(s + k) :: (s + k + 1) :: w', rfl, by simpa [List.getLast?_cons_cons] using hlast, ?_, ?_, ?_, ?_⟩
      · exact List.isChain_cons_cons.2 ⟨hstep, hchain⟩
      · refine List.Pairwise.cons (fun x hx => ?_) hlt
        have := hge x hx
        omega
      · intro x hx
        rcases List.mem_cons.1 hx with rfl | hx
        · exact le_refl _
        · have := hge x hx
          omega
      · rw [List.mem_cons, hmem]
        constructor
        · rintro (h | h) k' hk₁ hk₂
          · omega
          · rcases Nat.eq_or_lt_of_le hk₁ with rfl | hk₁
            · exact hp
            · exact h k' hk₁ hk₂
        · exact fun h => .inr fun k' hk₁ hk₂ => h k' (by omega) hk₂

/-- The run from the first test of a chain visits each block at most once, ends at the join
block `s + n + 1`, and visits block `s + n` exactly when every test passes. -/
theorem run_testChain {f : Function} {ρ : String → Bool} {s n : Nat} (pass : Nat → Bool)
    (htest : ∀ k < n, f.next ρ (s + k) = some (if pass k then s + k + 1 else s + n + 1))
    (hbody : f.next ρ (s + n) = some (s + n + 1)) :
    ∃ w : List Nat, w.head? = some s ∧ w.getLast? = some (s + n + 1) ∧
      w.IsChain (fun a b => f.next ρ a = some b) ∧ w.Nodup ∧
      (s + n ∈ w ↔ ∀ k < n, pass k = true) := by
  obtain ⟨w, hhead, hlast, hchain, hlt, -, hmem⟩ := run_testChain_from htest hbody n 0 (by omega)
  exact ⟨w, by simpa using hhead, hlast, hchain, hlt.imp Nat.ne_of_lt, by simpa using hmem⟩

end Function

/-! ### Blocks from lines -/

theorem head_label_append {A B : List Line} (hA : ∀ x ∈ A.head?, x.isLabel = true)
    (hB : ∀ x ∈ B.head?, x.isLabel = true) : ∀ x ∈ (A ++ B).head?, x.isLabel = true := by
  intro x hx
  rw [List.head?_append] at hx
  cases hh : A.head? with
  | none => exact hB x (by simpa [hh] using hx)
  | some y => exact hA x (by simpa [hh] using hx)

theorem head_label_linesOf (bs : List Block) : ∀ x ∈ (linesOf bs).head?, x.isLabel = true := by
  cases bs <;> simp [Block.lines, Line.isLabel]

/-- Instructions followed by a label, or by nothing, are read back. -/
theorem map_instr_append_inj :
    ∀ {is js : List Instr} {B C : List Line}, (∀ x ∈ B.head?, x.isLabel = true) →
      (∀ x ∈ C.head?, x.isLabel = true) → is.map Line.instr ++ B = js.map Line.instr ++ C →
      is = js ∧ B = C
  | [], [], _, _, _, _, h => ⟨rfl, h⟩
  | [], j :: js, _, _, hB, _, h => by
    subst h
    simp [Line.isLabel] at hB
  | i :: is, [], _, _, _, hC, h => by
    subst h
    simp [Line.isLabel] at hC
  | i :: is, j :: js, _, _, hB, hC, h => by
    simp only [List.map_cons, List.cons_append, List.cons.injEq, Line.instr.injEq] at h
    obtain ⟨rfl, h⟩ := h
    obtain ⟨rfl, rfl⟩ := map_instr_append_inj hB hC h
    exact ⟨rfl, rfl⟩

/-- Lines that start with whole blocks start with those blocks. -/
theorem linesOf_eq_linesOf_append :
    ∀ {cs mid : List Block} {B : List Line}, (∀ x ∈ B.head?, x.isLabel = true) →
      linesOf cs = linesOf mid ++ B → ∃ rest, cs = mid ++ rest ∧ linesOf rest = B
  | cs, [], _, _, h => ⟨cs, rfl, h⟩
  | [], m :: mid, _, _, h => by simp [Block.lines] at h
  | c :: cs, m :: mid, _, hB, h => by
    simp only [linesOf_cons, Block.lines, List.cons_append, List.cons.injEq, Line.label.injEq,
      List.append_assoc] at h
    obtain ⟨hl, h⟩ := h
    obtain ⟨hi, h⟩ := map_instr_append_inj (head_label_linesOf cs)
      (head_label_append (head_label_linesOf mid) hB) h
    obtain ⟨rest, rfl, hrest⟩ := linesOf_eq_linesOf_append hB h
    obtain ⟨cl, ci⟩ := c
    obtain ⟨ml, mi⟩ := m
    simp only at hl hi
    subst hl hi
    exact ⟨rest, rfl, hrest⟩

/-- Instructions right before a label, or at the very end, close a block. -/
theorem linesOf_eq_instrs_append :
    ∀ {bs : List Block} {A : List Line} {is : List Instr} {B : List Line}, is ≠ [] →
      (∀ x ∈ B.head?, x.isLabel = true) → linesOf bs = A ++ (is.map Line.instr ++ B) →
      ∃ k b pre, bs[k]? = some b ∧ b.instrs = pre ++ is ∧ linesOf (bs.drop (k + 1)) = B
  | [], A, is, _, hne, _, h => by
    obtain ⟨i, is, rfl⟩ := List.exists_cons_of_ne_nil hne
    simp at h
  | b :: bs, A, is, B, hne, hB, h => by
    rw [linesOf_cons, Block.lines, List.cons_append] at h
    cases A with
    | nil =>
      -- the lines start with a label, the instructions do not
      obtain ⟨i, is, rfl⟩ := List.exists_cons_of_ne_nil hne
      simp at h
    | cons x A =>
      simp only [List.cons_append, List.cons.injEq] at h
      rcases List.append_eq_append_iff.1 h.2 with ⟨a', rfl, hrest⟩ | ⟨c', hinstrs, htail⟩
      · -- the instructions lie in a later block
        obtain ⟨k, b', pre, hk, hb', hdrop⟩ := linesOf_eq_instrs_append hne hB hrest
        exact ⟨k + 1, b', pre, by simpa using hk, hb', by simpa using hdrop⟩
      · -- they close this block
        obtain ⟨pre, post, hsplit, -, hpost⟩ := List.map_eq_append_iff.1 hinstrs
        subst hpost
        obtain ⟨rfl, rfl⟩ := map_instr_append_inj hB (head_label_linesOf bs) htail
        exact ⟨0, b, pre, rfl, hsplit, by simp⟩

/-- Instructions closing a block, then whole blocks `mid`, then a label `l`: the instructions
end block `s`, the blocks of `mid` come next, and block `s + mid.length + 1` is labelled `l`. -/
theorem linesOf_eq_blocks_append {bs mid : List Block} {A Rest : List Line} {is : List Instr}
    {l : String} (hne : is ≠ [])
    (h : linesOf bs = A ++ (is.map Line.instr ++ (linesOf mid ++ Line.label l :: Rest))) :
    ∃ s b pre, bs[s]? = some b ∧ b.instrs = pre ++ is ∧
      (∀ m < mid.length, bs[s + (m + 1)]? = mid[m]?) ∧
      ∃ c, bs[s + (mid.length + 1)]? = some c ∧ c.label = l := by
  obtain ⟨s, b, pre, hb, hi, hdrop⟩ := linesOf_eq_instrs_append hne
    (head_label_append (head_label_linesOf mid) (by simp [Line.isLabel])) h
  obtain ⟨rest, hsplit, hrest⟩ := linesOf_eq_linesOf_append (by simp [Line.isLabel]) hdrop
  -- the block after `mid` starts with the label `l`
  obtain ⟨c, rest, rfl⟩ : ∃ c rest', rest = c :: rest' := by
    cases rest with
    | nil => simp at hrest
    | cons c rest' => exact ⟨c, rest', rfl⟩
  have hc : c.label = l := by
    simp only [linesOf_cons, Block.lines, List.cons_append, List.cons.injEq, Line.label.injEq] at hrest
    exact hrest.1
  have hat : ∀ m, bs[s + (m + 1)]? = (mid ++ c :: rest)[m]? := fun m => by
    rw [← hsplit, List.getElem?_drop, Nat.add_comm m 1, Nat.add_assoc]
  refine ⟨s, b, pre, hb, hi, fun m hm => by rw [hat, List.getElem?_append_left hm], c, ?_, hc⟩
  rw [hat, List.getElem?_append_right (le_refl _), Nat.sub_self]
  rfl

end Ir
end QirGen
