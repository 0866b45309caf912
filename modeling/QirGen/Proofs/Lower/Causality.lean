import QirGen.Proofs.Lower.Errors
import QirGen.Circuit.Build

/-!
# Translation reads its source once, in order

Translation asks its source for the instruction at each position from `0` up to the count the
source reports, lowers it before asking for the next, and reads nothing else of the source but
its name and declared counts; LLVM reads only the module. Nothing it does looks ahead, so what
it gives depends only on the positions it reaches:

* `lowerFrom_add` — a pass over `a + b` positions is the pass over the first `a` followed by the
  pass over the next `b`;
* `lowerFrom_eq_lowerList` — a pass over positions that all hold an instruction is the lowering
  of those instructions, in order;
* `generate_congr` — sources with the same name and counts whose passes agree generate alike.

Main statement: `translate_reads_in_order`. A program that reports `n` of its `m` instructions
translates as its first `n` instructions when `n ≤ m`; past its end it gives the first lowering
error of its instructions, or else the missing position `m`; and a failure at position `i` is
the failure of every program that agrees with it up to `i`.
-/

namespace QirGen

open Ir Circuit Lowering

/-- The program with its first `n` instructions only. -/
def Circuit.Program.truncate (p : Program) (n : Nat) : Program :=
  { p with instructions := p.instructions.take n }

/-- Translation of a source fails at position `i` with `e`: the options are valid, the
instructions before `i` lower, and the one at `i` fails to. -/
def FailsAt (o : Options) (src : Source) (i : Nat) (e : TranslateError) : Prop :=
  o.validate = .ok () ∧ ∃ s ins, lowerFrom src 0 i (translateStart o src) = .ok s ∧
    src.instructionAt? i = some ins ∧ s.lower i ins = .error e

/-- Two programs agree up to position `i`: the same name, the same declared counts, and the
same instructions at positions `0` to `i`. -/
structure Circuit.Program.AgreesUpTo (q p : Program) (i : Nat) : Prop where
  name_eq : q.name = p.name
  numQubits_eq : q.numQubits = p.numQubits
  numClbits_eq : q.numClbits = p.numClbits
  take_eq : q.instructions.take (i + 1) = p.instructions.take (i + 1)

/-! ### Passes over positions -/

/-- A pass over `a + b` positions is the pass over the first `a`, then over the next `b`. -/
theorem lowerFrom_add (src : Source) :
    ∀ (a b index : Nat) (s : Lowering),
      lowerFrom src index (a + b) s = lowerFrom src index a s >>= lowerFrom src (index + a) b
  | 0, b, index, s => by rw [Nat.zero_add, Nat.add_zero]; rfl
  | a + 1, b, index, s => by
    rw [Nat.add_right_comm]
    unfold lowerFrom
    split
    · rfl
    · rename_i i _
      -- the first position lowers alike on both sides; the rest is the induction hypothesis
      rw [bind_assoc]
      congr 1
      funext s₁
      rw [lowerFrom_add src a b (index + 1) s₁, Nat.add_right_comm, Nat.add_assoc]

/-- A pass over positions that all hold an instruction lowers those instructions in order. -/
theorem lowerFrom_eq_lowerList {src : Source} :
    ∀ {index n : Nat}, (∀ k, index ≤ k → k < index + n → (src.instructionAt? k).isSome) →
      ∀ s, lowerFrom src index n s =
        lowerList index ((List.range' index n).filterMap src.instructionAt?) s
  | _, 0, _, _ => rfl
  | index, n + 1, hall, s => by
    obtain ⟨i, hi⟩ := Option.isSome_iff_exists.1 (hall index (Nat.le_refl _) (by omega))
    have hrest : ∀ k, index + 1 ≤ k → k < index + 1 + n → (src.instructionAt? k).isSome :=
      fun k hk hk' => hall k (by omega) (by omega)
    simp only [lowerFrom, hi, List.range'_succ, List.filterMap_cons, lowerList]
    congr 1
    funext s₁
    exact lowerFrom_eq_lowerList hrest s₁

/-- The positions below `n` of a list, read in order, are its first `n` elements. -/
theorem filterMap_range'_getElem? {α : Type} (l : List α) (n : Nat) :
    (List.range' 0 n).filterMap (l[·]?) = l.take n := by
  induction n with
  | zero => rfl
  | succ n ih =>
    rw [List.range'_concat, List.filterMap_append, ih, List.take_add_one]
    simp [List.filterMap_cons]
    cases l[n]? <;> rfl

/-- A pass over the first `n ≤ m` positions of a program of `m` instructions lowers its first
`n` instructions. -/
theorem lowerFrom_toSource_take (p : Program) {n : Nat} (hn : n ≤ p.instructions.length)
    (c : Nat) (s : Lowering) :
    lowerFrom (p.toSource.claiming c) 0 n s = lowerList 0 (p.instructions.take n) s := by
  rw [lowerFrom_eq_lowerList, ← filterMap_range'_getElem?]
  · rfl
  · intro k _ hk
    simp [Source.claiming, Program.toSource, List.getElem?_eq_getElem (show k < p.instructions.length by omega)]

/-! ### Translation depends on the positions it reaches -/

/-- Sources with the same name and declared counts whose passes over their positions agree
generate alike. -/
theorem generate_congr {o : Options} {src src' : Source} (hn : src'.name = src.name)
    (hq : src'.qubitCount = src.qubitCount) (hb : src'.bitCount = src.bitCount)
    (hl : ∀ s, lowerFrom src' 0 src'.count s = lowerFrom src 0 src.count s) :
    generate o src' = generate o src := by
  simp only [generate, hn, hq, hb, hl]

/-- A program reporting `n ≤ m` of its `m` instructions generates as its first `n`. -/
theorem generate_claiming_of_le (o : Options) (p : Program) {n : Nat}
    (hn : n ≤ p.instructions.length) :
    generate o (p.toSource.claiming n) = generate o (p.truncate n).toSource := by
  refine generate_congr rfl rfl rfl fun s => ?_
  -- the truncated program is its own source claiming its own length
  show lowerFrom (p.toSource.claiming n) 0 n s = lowerFrom ((p.truncate n).toSource.claiming
    (p.truncate n).instructions.length) 0 (p.truncate n).instructions.length s
  rw [lowerFrom_toSource_take p hn, lowerFrom_toSource_take _ (Nat.le_refl _), List.take_length]
  rfl

/-- Past the last instruction a pass meets the missing position. -/
theorem lowerFrom_past_end (p : Program) (c k : Nat) (s : Lowering) :
    lowerFrom (p.toSource.claiming c) p.instructions.length (k + 1) s =
      .error (.program (.instructionOutOfRange p.instructions.length c)) := by
  simp [lowerFrom, Source.claiming, Program.toSource]

/-- A program reporting more instructions than it holds, with valid options, gives the first
lowering error of its instructions, or else the error of the first missing position. -/
theorem generate_claiming_of_lt {o : Options} (p : Program) {n : Nat}
    (hn : p.instructions.length < n) (hv : o.validate = .ok ()) :
    generate o (p.toSource.claiming n) = (do
      let _ ← lowerList 0 p.instructions (translateStart o p.toSource)
      throw (.program (.instructionOutOfRange p.instructions.length n))) := by
  obtain ⟨k, rfl⟩ : ∃ k, n = p.instructions.length + (k + 1) := ⟨n - p.instructions.length - 1, by omega⟩
  -- the pass splits at the end of the program: the instructions, then the missing position
  have hpass : lowerFrom (p.toSource.claiming (p.instructions.length + (k + 1))) 0
      (p.instructions.length + (k + 1)) (translateStart o p.toSource) =
      lowerList 0 p.instructions (translateStart o p.toSource) >>= fun _ =>
        .error (.program (.instructionOutOfRange p.instructions.length
          (p.instructions.length + (k + 1)))) := by
    rw [lowerFrom_add, lowerFrom_toSource_take p (Nat.le_refl _), List.take_length, Nat.zero_add]
    congr 1
    funext s
    exact lowerFrom_past_end p _ k s
  simp only [generate, hv, ok_bind]
  change lowerFrom _ 0 (p.instructions.length + (k + 1)) (translateStart o p.toSource) >>= _ = _
  rw [hpass, bind_assoc]
  congr 1

/-- A failure at position `i` is a failed pass over the first `i + 1` positions. -/
theorem lowerFrom_of_failsAt {o : Options} {src : Source} {i : Nat} {e : TranslateError}
    (h : FailsAt o src i e) : lowerFrom src 0 (i + 1) (translateStart o src) = .error e := by
  obtain ⟨-, s, ins, hpre, hi, hlow⟩ := h
  rw [lowerFrom_add, hpre, ok_bind, Nat.zero_add]
  simp only [lowerFrom, hi, hlow]
  rfl

/-- Generating any program that agrees up to position `i` with a program failing there fails
with the same error. -/
theorem generate_eq_of_failsAt {o : Options} {p q : Program} {i : Nat} {e : TranslateError}
    (h : FailsAt o p.toSource i e) (hq : q.AgreesUpTo p i) : generate o q.toSource = .error e := by
  have hpass := lowerFrom_of_failsAt h
  obtain ⟨-, ins, -, hi, -⟩ := h.2
  have hip : i < p.instructions.length := by
    by_contra hle
    simp [Program.toSource, List.getElem?_eq_none (Nat.le_of_not_lt hle)] at hi
  have hlen : i + 1 ≤ q.instructions.length := by
    have := congrArg List.length hq.take_eq
    simp only [List.length_take] at this
    omega
  have hstart : translateStart o q.toSource = translateStart o p.toSource := by
    simp only [translateStart, Program.toSource, hq.name_eq, hq.numQubits_eq, hq.numClbits_eq]
  -- both passes over the first `i + 1` positions lower the same instructions from the same start
  have hqpass : lowerFrom q.toSource 0 (i + 1) (translateStart o q.toSource) = .error e :=
    calc lowerFrom q.toSource 0 (i + 1) (translateStart o q.toSource)
        = lowerList 0 (q.instructions.take (i + 1)) (translateStart o q.toSource) :=
          lowerFrom_toSource_take q hlen q.instructions.length _
      _ = lowerList 0 (p.instructions.take (i + 1)) (translateStart o p.toSource) := by
          rw [hq.take_eq, hstart]
      _ = lowerFrom p.toSource 0 (i + 1) (translateStart o p.toSource) :=
          (lowerFrom_toSource_take p hip p.instructions.length _).symm
      _ = .error e := hpass
  obtain ⟨k, hk⟩ : ∃ k, q.toSource.count = (i + 1) + k :=
    ⟨q.instructions.length - (i + 1), by simp only [Program.toSource]; omega⟩
  simp only [generate, h.1, ok_bind]
  change lowerFrom _ 0 q.toSource.count (translateStart o q.toSource) >>= _ = _
  rw [hk, lowerFrom_add, hqpass]
  rfl

/-- **Translation is causal.** A program that reports `n` of its `m` instructions translates as
its first `n` instructions when `n ≤ m`. When `n > m` and the options are valid it gives the
first error of lowering its instructions in order, or else the error of the missing position
`m`. And a program whose translation fails at position `i` shares that failure with every
program that agrees with it up to `i`. -/
theorem translate_reads_in_order (llvm : Llvm) (o : Options) (p : Program) (n : Nat) :
    (n ≤ p.instructions.length →
      translate llvm o (p.toSource.claiming n) = translate llvm o (p.truncate n).toSource) ∧
    (p.instructions.length < n → o.validate = .ok () →
      translate llvm o (p.toSource.claiming n) = (do
        let _ ← lowerList 0 p.instructions (translateStart o p.toSource)
        throw (.program (.instructionOutOfRange p.instructions.length n)))) ∧
    (∀ (i : Nat) (e : TranslateError) (q : Program), FailsAt o p.toSource i e →
      q.AgreesUpTo p i → translate llvm o q.toSource = .error e) := by
  refine ⟨fun hn => ?_, fun hn hv => ?_, fun _ _ _ h hq => ?_⟩
  · simp only [translate, generate_claiming_of_le o p hn]
  · -- the pass fails before LLVM is reached
    simp only [translate, generate_claiming_of_lt p hn hv]
    cases lowerList 0 p.instructions (translateStart o p.toSource) <;> rfl
  · simp only [translate, generate_eq_of_failsAt h hq]
    rfl

/-- The Bell pair reporting five instructions lowers its four, then misses position four. -/
theorem translate_reads_in_order_bell :
    (Program.bell).instructions.length < 5 ∧ (Options.ofProfile .base).validate = .ok () ∧
      translate Llvm.acceptingAll (Options.ofProfile .base) ((Program.bell).toSource.claiming 5) =
        .error (.program (.instructionOutOfRange 4 5)) :=
  ⟨by decide, rfl, ((translate_reads_in_order _ _ _ 5).2.1 (by decide) rfl).trans rfl⟩

end QirGen
