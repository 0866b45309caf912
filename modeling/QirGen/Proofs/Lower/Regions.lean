import QirGen.Proofs.Ir.Run
import QirGen.Proofs.Lower.WellFormed

/-!
# Conditional regions

A guarded instruction lowers to a region (`regionLines`). Its first test closes the block being
written; each later test opens a block of its own; the body's block and the join block come
last. Test `k` reads the result of the latest measurement into bit `k` of the condition and
branches on to the next block when the read matches bit `k` of the value, to the join block
otherwise. So a run from the first test reaches the body exactly when every read matches the
value, ends at the join block either way, and visits no block twice (`region_runs`).
-/

namespace QirGen

open Ir Circuit Lowering

/-! ### The latest measurement of a bit -/

/-- `m` is the latest of the measurements `ms` into bit `b`. -/
def IsLatest (ms : List Nat) (b m : Nat) : Prop := ms[m]? = some b ∧ ∀ m', m < m' → ms[m']? ≠ some b

/-- `lastIndex` finds the latest measurement of a bit. -/
theorem lastIndex_eq_some_iff {ms : List Nat} {b m : Nat} :
    lastIndex ms b = some m ↔ IsLatest ms b m := by
  induction ms using List.reverseRecOn generalizing m with
  | nil => simp [lastIndex, IsLatest]
  | append_singleton ms x ih =>
    have hlen : ∀ m, m < ms.length → (ms ++ [x])[m]? = ms[m]? := fun m h => List.getElem?_append_left h
    have hlast : (ms ++ [x])[ms.length]? = some x := by simp
    have hpast : ∀ m, ms.length < m → (ms ++ [x])[m]? = none :=
      fun m h => List.getElem?_eq_none (by simp; omega)
    rw [lastIndex_append_singleton]
    by_cases hx : x = b
    · -- the last measurement is into `b`
      subst hx
      rw [if_pos rfl, Option.some.injEq]
      constructor
      · rintro rfl
        exact ⟨hlast, fun m' hm' => by rw [hpast m' hm']; simp⟩
      · rintro ⟨hm, hlater⟩
        rcases lt_trichotomy m ms.length with hlt | heq | hgt
        · exact absurd hlast (hlater _ hlt)
        · exact heq.symm
        · simp [hpast m hgt] at hm
    · -- the last measurement is into another bit
      rw [if_neg hx, ih]
      constructor
      · rintro ⟨hm, hlater⟩
        have hlt : m < ms.length := (List.getElem?_eq_some_iff.1 hm).1
        refine ⟨by rw [hlen m hlt, hm], fun m' hm' => ?_⟩
        rcases lt_trichotomy m' ms.length with h | rfl | h
        · rw [hlen m' h]
          exact hlater m' hm'
        · rw [hlast]
          simpa using hx
        · rw [hpast m' h]
          simp
      · rintro ⟨hm, hlater⟩
        have hlt : m < ms.length := by
          rcases lt_trichotomy m ms.length with h | rfl | h
          · exact h
          · rw [hlast] at hm
            exact absurd (Option.some.inj hm) hx
          · simp [hpast m h] at hm
        refine ⟨by rwa [hlen m hlt] at hm, fun m' hm' h => ?_⟩
        by_cases h' : m' < ms.length
        · exact hlater m' hm' (by rw [hlen m' h']; exact h)
        · simp [List.getElem?_eq_none (show ms.length ≤ m' by omega)] at h

/-! ### The blocks of a region -/

/-- The read and the branch of test `k` of region `r`, whose target on a match is `x.2`. -/
def testInstrs (r : Nat) (join : String) (k : Nat) (x : (Value × Bool) × String) : List Instr :=
  [.call Runtime.readResult.name .bool [x.1.1] (some (testName r k)),
   .condBr (.named .bool (testName r k)) (if x.1.2 then x.2 else join) (if x.1.2 then join else x.2)]

theorem testLines_cons (r : Nat) (join : String) (k : Nat) (x : (Value × Bool) × String)
    (xs : List ((Value × Bool) × String)) :
    testLines r join k (x :: xs) =
      (testInstrs r join k x).map Line.instr ++ Line.label x.2 :: testLines r join (k + 1) xs := by
  obtain ⟨⟨v, e⟩, t⟩ := x
  rfl

/-- The blocks a region opens after its first test, for the tests `xs` numbered from `k`: one
for each later test, labelled by the target of the test before, then the body's block. -/
def regionBlocks (r : Nat) (join : String) (body : List Instr) :
    Nat → List ((Value × Bool) × String) → List Block
  | _, [] => []
  | _, [x] => [⟨x.2, body ++ [.br join]⟩]
  | k, x :: y :: ys => ⟨x.2, testInstrs r join (k + 1) y⟩ :: regionBlocks r join body (k + 1) (y :: ys)

section RegionBlocks

variable (r : Nat) (join : String) (body : List Instr)

/-- After its first test, a chain of tests and the body are whole blocks. -/
theorem testLines_body :
    ∀ (k : Nat) (x : (Value × Bool) × String) (xs : List ((Value × Bool) × String)),
      testLines r join k (x :: xs) ++ (body.map Line.instr ++ [Line.instr (.br join)]) =
        (testInstrs r join k x).map Line.instr ++ linesOf (regionBlocks r join body k (x :: xs))
  | k, x, [] => by
    rw [testLines_cons]
    simp [regionBlocks, testLines, Block.lines]
  | k, x, y :: ys => by
    rw [testLines_cons, List.append_assoc, List.cons_append, testLines_body (k + 1) y ys]
    simp [regionBlocks, Block.lines]

theorem regionBlocks_label :
    ∀ (k m : Nat) (xs : List ((Value × Bool) × String)) (x : (Value × Bool) × String),
      xs[m]? = some x → ∃ b, (regionBlocks r join body k xs)[m]? = some b ∧ b.label = x.2
  | _, _, [], _, h => by simp at h
  | _, 0, [x], _, h => by
    obtain rfl : x = _ := by simpa using h
    exact ⟨_, rfl, rfl⟩
  | _, m + 1, [x], _, h => by simp at h
  | k, 0, x :: y :: ys, _, h => by
    obtain rfl : x = _ := by simpa using h
    exact ⟨_, rfl, rfl⟩
  | k, m + 1, x :: y :: ys, x', h =>
    regionBlocks_label (k + 1) m (y :: ys) x' (by simpa using h)

/-- The block of a later test holds its read and its branch. -/
theorem regionBlocks_test :
    ∀ (k m : Nat) (xs : List ((Value × Bool) × String)) (y : (Value × Bool) × String),
      xs[m + 1]? = some y → ∃ b, (regionBlocks r join body k xs)[m]? = some b ∧
        b.instrs = testInstrs r join (k + m + 1) y
  | _, _, [], _, h => by simp at h
  | _, _, [x], _, h => by simp at h
  | k, 0, x :: y :: ys, _, h => by
    obtain rfl : y = _ := by simpa using h
    exact ⟨_, rfl, rfl⟩
  | k, m + 1, x :: y :: ys, y', h => by
    obtain ⟨b, hb, hi⟩ := regionBlocks_test (k + 1) m (y :: ys) y' (by simpa using h)
    refine ⟨b, ?_, by rw [hi]; congr 1; omega⟩
    simp only [regionBlocks, List.getElem?_cons_succ]
    exact hb

/-- The last block holds the body and its branch to the join block. -/
theorem regionBlocks_body :
    ∀ (k : Nat) (xs : List ((Value × Bool) × String)), xs ≠ [] →
      (regionBlocks r join body k xs)[xs.length - 1]?.map (·.instrs) = some (body ++ [.br join])
  | _, [], h => absurd rfl h
  | _, [x], _ => rfl
  | k, x :: y :: ys, _ => by
    simpa [regionBlocks] using regionBlocks_body (k + 1) (y :: ys) (by simp)

theorem length_regionBlocks :
    ∀ (k : Nat) (xs : List ((Value × Bool) × String)), (regionBlocks r join body k xs).length = xs.length
  | _, [] => rfl
  | _, [x] => rfl
  | k, x :: y :: ys => by simp [regionBlocks, length_regionBlocks (k + 1) (y :: ys)]

end RegionBlocks

/-! ### Where the region lies -/

theorem adaptiveLines_append (P : List Instruction) :
    ∀ xs ys : List Instruction, adaptiveLines P (xs ++ ys) = adaptiveLines P xs ++ adaptiveLines (P ++ xs) ys
  | [], ys => by simp [adaptiveLines]
  | x :: xs, ys => by
    simp [adaptiveLines, adaptiveLines_append (P ++ [x]) xs ys]

theorem guardsChecked_append (P : List Instruction) :
    ∀ xs ys : List Instruction,
      GuardsChecked P (xs ++ ys) ↔ GuardsChecked P xs ∧ GuardsChecked (P ++ xs) ys
  | [], ys => by simp [GuardsChecked]
  | x :: xs, ys => by
    simp [GuardsChecked, guardsChecked_append (P ++ [x]) xs ys, and_assoc]

theorem length_guardTests (ms : List Nat) (c : Condition) : (guardTests ms c).length = c.bits.length := by
  simp [guardTests, Condition.length_expectations]

/-- Test `k` of a guard reads the latest result of bit `k` and expects bit `k` of the value. -/
theorem getElem?_guardTests (ms : List Nat) (c : Condition) {k : Nat} (hk : k < c.bits.length) :
    (guardTests ms c)[k]? = some (latestResult ms c.bits[k], Condition.expects c.value k) := by
  simp [guardTests, Condition.expectations, hk]

theorem getElem?_testTargets (r n : Nat) {k : Nat} (hk : k < n) :
    (testTargets r n)[k]? = some (if k + 1 < n then condLabel r (k + 1) else thenLabel r) := by
  unfold testTargets
  split_ifs with h
  · rw [List.getElem?_append_left (by simp; omega), List.getElem?_map,
      List.getElem?_range (by omega)]
    rfl
  · have hlast : k - ((List.range (n - 1)).map fun k => condLabel r (k + 1)).length = 0 := by
      simp
      omega
    rw [List.getElem?_append_right (by simp; omega), hlast]
    rfl

/-- Region `r` as it lies in `f` from block `s` on, lowering the guarded instruction `i` with
condition `c` after the measurements `ms`. With `n` compared bits: test `k` reads the result of
the latest measurement into bit `k`, at the end of block `s` for the first test and in block
`s + k` labelled `cond<r>.<k>` for the others; block `s + n` is `then<r>` and holds the calls of
`i`; block `s + n + 1` is `continue<r>`. Whatever the reads give, the run from block `s` visits
no block twice, ends at `continue<r>`, and passes through `then<r>` exactly when every read
matches its bit of the value (bits from 64 on taken as clear). -/
structure RegionAt (f : Function) (s r : Nat) (ms : List Nat) (i : Instruction) (c : Condition) :
    Prop where
  reads : ∀ k (hk : k < c.bits.length), ∃ b m, f.blocks[s + k]? = some b ∧ IsLatest ms c.bits[k] m ∧
    Instr.call Runtime.readResult.name .bool [resultHandle m] (some (testName r k)) ∈ b.instrs
  cond_label : ∀ k, 0 < k → k < c.bits.length →
    ∃ b, f.blocks[s + k]? = some b ∧ b.label = condLabel r k
  body : f.blocks[s + c.bits.length]? =
    some ⟨thenLabel r, i.adaptiveCalls ms.length ++ [.br (continueLabel r)]⟩
  join_label : ∃ b, f.blocks[s + c.bits.length + 1]? = some b ∧ b.label = continueLabel r
  runs : ∀ ρ : String → Bool, ∃ w : List Nat, w.head? = some s ∧
    w.getLast? = some (s + c.bits.length + 1) ∧ w.IsChain (fun a b => f.next ρ a = some b) ∧
    w.Nodup ∧ (s + c.bits.length ∈ w ↔ ∀ k < c.bits.length, ρ (testName r k) = Condition.expects c.value k)

theorem adaptiveLines_cons (P : List Instruction) (i : Instruction) (is : List Instruction) :
    adaptiveLines P (i :: is) = adaptiveSegment P i ++ adaptiveLines (P ++ [i]) is := rfl

theorem adaptiveSegment_guarded {P : List Instruction} {i : Instruction} {c : Condition}
    (hc : i.condition = some c) :
    adaptiveSegment P i = (newQubits (firstUses P) i.qubits).map (fun q => Line.instr (allocCall q)) ++
      regionLines (guardedCount P) (guardTests (measuredBits P) c) (i.adaptiveCalls (measuredBits P).length) := by
  simp [adaptiveSegment, hc]

/-- The lines of a region: its first test, whole blocks, and the join label. -/
theorem regionLines_eq {r : Nat} {tests : List (Value × Bool)} {body : List Instr}
    {x : (Value × Bool) × String} {xs : List ((Value × Bool) × String)}
    (hts : tests.zip (testTargets r tests.length) = x :: xs) :
    regionLines r tests body = (testInstrs r (continueLabel r) 0 x).map Line.instr ++
      (linesOf (regionBlocks r (continueLabel r) body 0 (x :: xs)) ++ [Line.label (continueLabel r)]) := by
  unfold regionLines
  rw [hts, ← List.append_assoc, ← testLines_body]
  simp

/-- Where the lines of a region stand among the lines of some blocks, its blocks stand among
those blocks: from some block `s` on, block `s + k` ends with test `k` and block `s + k + 1` is
labelled by the target of test `k`; block `s + n`, after the `n` tests, holds the body and its
branch to the join block, which comes next. -/
theorem regionLines_blocks {bs : List Block} {A Rest : List Line} {r : Nat}
    {tests : List (Value × Bool)} {body : List Instr} (hne : tests ≠ [])
    (h : linesOf bs = A ++ (regionLines r tests body ++ Rest)) :
    ∃ s, (∀ k x, (tests.zip (testTargets r tests.length))[k]? = some x →
        (∃ b pre, bs[s + k]? = some b ∧ b.instrs = pre ++ testInstrs r (continueLabel r) k x) ∧
          ∃ b, bs[s + (k + 1)]? = some b ∧ b.label = x.2) ∧
      bs[s + tests.length]? = some ⟨thenLabel r, body ++ [.br (continueLabel r)]⟩ ∧
      ∃ c, bs[s + (tests.length + 1)]? = some c ∧ c.label = continueLabel r := by
  set ts := tests.zip (testTargets r tests.length) with hts
  have hlen : ts.length = tests.length := by
    simp only [ts, List.length_zip, length_testTargets]
    omega
  have hn : 0 < tests.length := List.length_pos_iff.2 hne
  obtain ⟨x₀, xs, hx⟩ : ∃ x₀ xs, ts = x₀ :: xs :=
    List.exists_cons_of_ne_nil (by rw [← List.length_pos_iff, hlen]; exact hn)
  have hL : linesOf bs = A ++ ((testInstrs r (continueLabel r) 0 x₀).map Line.instr ++
      (linesOf (regionBlocks r (continueLabel r) body 0 ts) ++ Line.label (continueLabel r) :: Rest)) := by
    rw [h, regionLines_eq (hx ▸ hts.symm), ← hx]
    simp
  obtain ⟨s, b₀, pre₀, hb₀, hi₀, hmid, cj, hcj, hlj⟩ :=
    linesOf_eq_blocks_append (by simp [testInstrs]) hL
  rw [length_regionBlocks, hlen] at hcj hmid
  -- block `s + k + 1` is the `k`-th block the region opens after its first test
  have hlabel : ∀ k x, ts[k]? = some x → ∃ b, bs[s + (k + 1)]? = some b ∧ b.label = x.2 := by
    intro k x hk
    have hk' : k < tests.length := hlen ▸ (List.getElem?_eq_some_iff.1 hk).1
    obtain ⟨b, hb, hbl⟩ := regionBlocks_label r _ body 0 k ts x hk
    exact ⟨b, by rw [hmid k hk', hb], hbl⟩
  refine ⟨s, fun k x hk => ⟨?_, hlabel k x hk⟩, ?_, cj, hcj, hlj⟩
  · -- the first test closes block `s`, the others open blocks
    rcases k with _ | m
    · obtain rfl : x₀ = x := by simpa [hx] using hk
      exact ⟨b₀, pre₀, hb₀, hi₀⟩
    · obtain ⟨b, hb, hbi⟩ := regionBlocks_test r _ body 0 m ts x hk
      have hm : m < tests.length := by
        have := (List.getElem?_eq_some_iff.1 hk).1
        omega
      exact ⟨b, [], by rw [hmid m hm, hb], by simpa [Nat.add_comm] using hbi⟩
  · -- the body's block is the last one the region opens, labelled by the last test's target
    have hk : tests.length - 1 < tests.length := by omega
    have hlast : tests.length - 1 + 1 = tests.length := by omega
    have hts_last : ts[tests.length - 1]? = some (tests[tests.length - 1], thenLabel r) := by
      rw [hts, List.getElem?_zip_eq_some]
      exact ⟨List.getElem?_eq_getElem hk, by simpa [hlast] using getElem?_testTargets r _ hk⟩
    obtain ⟨b, hb, hbl⟩ := regionBlocks_label r _ body 0 _ ts _ hts_last
    have hbi := regionBlocks_body r (continueLabel r) body 0 ts (by simp [hx])
    rw [hlen, hb] at hbi
    rw [← hlast, hmid _ hk, hb]
    obtain ⟨l, is⟩ := b
    simp only [Option.map_some, Option.some.injEq] at hbi hbl
    simp [hbl, hbi]

/-- From the block of test `k`, a run goes to the block labelled by the test's target when the
read matches what the test expects, and to the join block otherwise. -/
theorem next_test {f : Function} (hnd : (f.blocks.map (·.label)).Nodup) (ρ : String → Bool)
    {j jt jj r k : Nat} {join : String} {x : (Value × Bool) × String} {b : Block} {pre : List Instr}
    (hb : f.blocks[j]? = some b) (hi : b.instrs = pre ++ testInstrs r join k x)
    (ht : ∃ c, f.blocks[jt]? = some c ∧ c.label = x.2)
    (hj : ∃ c, f.blocks[jj]? = some c ∧ c.label = join) :
    f.next ρ j = some (if ρ (testName r k) == x.1.2 then jt else jj) := by
  obtain ⟨ct, hct, hlt⟩ := ht
  obtain ⟨cj, hcj, hlj⟩ := hj
  have hlast : b.instrs.getLast? = some (.condBr (.named .bool (testName r k))
      (if x.1.2 then x.2 else join) (if x.1.2 then join else x.2)) := by
    simp [hi, testInstrs]
  -- the branch goes to the target exactly when the read equals the expected bit
  cases hρ : ρ (testName r k) <;> cases he : x.1.2
  all_goals first
    | exact Function.next_eq hnd hb hlast hct (by simp [Instr.successor?, Value.truth, hρ, he, hlt])
    | exact Function.next_eq hnd hb hlast hcj (by simp [Instr.successor?, Value.truth, hρ, he, hlj])

/-- A guarded instruction lowers to a region that implements its condition: test `k` reads the
latest result of bit `k` in block `s + k`, the blocks `cond<r>.<k>`, `then<r>` and
`continue<r>` follow in order, and whatever the reads give, the run from the first test visits
no block twice, ends at `continue<r>`, and passes through the instruction's calls in `then<r>`
exactly when every read matches its bit of the value. -/
theorem region_runs {llvm : Llvm} {o : Options} {src : Source} {g : Generated}
    (hp : o.profile = .adaptive) (h : translate llvm o src = .ok g) {j : Nat} {i : Instruction} {c : Condition}
    (hi : src.instructions[j]? = some i) (hc : i.condition = some c) :
    ∃ f, g.module.entryPoint? = some f ∧ ∃ s, RegionAt f s (guardedCount (src.instructions.take j))
      (measuredBits (src.instructions.take j)) i c := by
  obtain ⟨f, hf, -, -, hlines, hg⟩ := entryPoint?_generate_adaptive hp (translate_eq_ok h).1
  have hnd : (f.blocks.map (·.label)).Nodup :=
    (Function.wellFormed_of_shaped (hlines ▸ shaped_adaptive hg src.bitCount)).labels_nodup
  refine ⟨f, hf, ?_⟩
  obtain ⟨hsplit, -⟩ := eq_take_cons_drop hi
  set P := src.instructions.take j
  set Q := src.instructions.drop (j + 1)
  have hgi : GuardChecked P i := by
    rw [hsplit, guardsChecked_append] at hg
    simpa using hg.2.1
  obtain ⟨-, hne, hread⟩ := hgi c hc
  set r := guardedCount P
  set ms := measuredBits P
  set body := i.adaptiveCalls ms.length
  set ts := (guardTests ms c).zip (testTargets r (guardTests ms c).length) with hts
  have hn : 0 < c.bits.length := List.length_pos_iff.2 hne
  -- test `k` reads the latest result of bit `k`, expects bit `k` of the value, and goes on to
  -- the next test's block or, for the last test, to the body's
  have hts_get : ∀ k (hk : k < c.bits.length), ts[k]? =
      some ((latestResult ms c.bits[k], Condition.expects c.value k),
        if k + 1 < c.bits.length then condLabel r (k + 1) else thenLabel r) := by
    intro k hk
    rw [hts, List.getElem?_zip_eq_some]
    exact ⟨getElem?_guardTests ms c hk, by rw [length_guardTests]; exact getElem?_testTargets r _ hk⟩
  have hL : linesOf f.blocks = (Line.label "entry" :: adaptiveLines [] P ++
      (newQubits (firstUses P) i.qubits).map (fun q => Line.instr (allocCall q))) ++
      (regionLines r (guardTests ms c) body ++ (adaptiveLines (P ++ [i]) Q ++
        (adaptiveEpilogue src.bitCount src.instructions).map Line.instr)) := by
    rw [hlines]
    nth_rewrite 1 [hsplit]
    rw [adaptiveLines_append, List.nil_append, adaptiveLines_cons, adaptiveSegment_guarded hc]
    simp
    rfl
  obtain ⟨s, hblocks, hbody, cj, hcj, hlj⟩ :=
    regionLines_blocks (by rw [← List.length_pos_iff, length_guardTests]; exact hn) hL
  rw [length_guardTests] at hbody hcj
  refine ⟨s, ⟨fun k hk => ?_, fun k hk₀ hk => ?_, hbody, ⟨cj, hcj, hlj⟩, fun ρ => ?_⟩⟩
  · -- the read of test `k` names the latest result of bit `k`
    obtain ⟨⟨b, pre, hb, hbi⟩, -⟩ := hblocks k _ (hts_get k hk)
    obtain ⟨m, hm⟩ := Option.isSome_iff_exists.1 (hread _ (List.getElem_mem hk))
    refine ⟨b, m, hb, lastIndex_eq_some_iff.1 hm, ?_⟩
    simp [hbi, testInstrs, latestResult, hm]
  · obtain ⟨-, b, hb, hbl⟩ := hblocks (k - 1) _ (hts_get (k - 1) (by omega))
    refine ⟨b, by rwa [show k - 1 + 1 = k by omega] at hb, ?_⟩
    simp [hbl, show k - 1 + 1 = k by omega, hk]
  · -- each test goes on when its read matches, and to the join block otherwise
    have htest : ∀ k < c.bits.length, f.next ρ (s + k) = some
        (if (ρ (testName r k) == Condition.expects c.value k) then s + k + 1 else s + c.bits.length + 1) := by
      intro k hk
      obtain ⟨⟨b, pre, hb, hbi⟩, -⟩ := hblocks k _ (hts_get k hk)
      exact next_test hnd ρ hb hbi (hblocks k _ (hts_get k hk)).2 ⟨cj, hcj, hlj⟩
    have hthen : f.next ρ (s + c.bits.length) = some (s + c.bits.length + 1) :=
      Function.next_eq hnd hbody (t := .br (continueLabel r)) (by simp) hcj (by simp [Instr.successor?, hlj])
    obtain ⟨w, hhead, hlast, hchain, hnodup, hmem⟩ := Function.run_testChain _ htest hthen
    exact ⟨w, hhead, hlast, hchain, hnodup, by simpa using hmem⟩

theorem region_runs_feedForward :
    (Options.ofProfile .adaptive).profile = .adaptive ∧
      ∃ g, translate Llvm.acceptingAll (Options.ofProfile .adaptive) (Program.feedForward).toSource =
          Except.ok g ∧
        (Program.feedForward).toSource.instructions[2]? =
          some { name := "x", qubits := [1], condition := some (Condition.bit 0 true) } ∧
        ∃ f, g.module.entryPoint? = some f ∧ ∃ s,
          RegionAt f s (guardedCount ((Program.feedForward).toSource.instructions.take 2))
            (measuredBits ((Program.feedForward).toSource.instructions.take 2))
            { name := "x", qubits := [1], condition := some (Condition.bit 0 true) } (Condition.bit 0 true) :=
  ⟨rfl, _, rfl, rfl, @region_runs Llvm.acceptingAll (Options.ofProfile .adaptive)
    (Program.feedForward).toSource _ rfl rfl 2
    { name := "x", qubits := [1], condition := some (Condition.bit 0 true) } (Condition.bit 0 true) rfl rfl⟩

end QirGen
