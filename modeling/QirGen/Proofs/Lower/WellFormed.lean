import QirGen.Proofs.Lower.Layout
import QirGen.Proofs.Lower.Base

/-!
# Lowering writes well-formed functions

Under the base profile the entry function is one block of calls on static operands, closed by
the return: nothing is bound, nothing is read and nothing branches. Under the adaptive profile
its lines are shaped (`shaped_adaptive`), with the entry block and the join blocks marked. Either
way the entry function is well formed, for every program lowering accepts.
-/

namespace QirGen

open Ir Circuit Lowering

/-- A call on static operands: it binds nothing and reads no value. -/
def Ir.Instr.IsStaticCall (x : Instr) : Prop := x.isCall = true ∧ x.bound? = none ∧ x.uses = []

/-- Constants name no value. -/
theorem Ir.Value.name?_pointer (t : Ty) (i : Nat) : (Value.pointer t i).name? = none := by
  unfold Value.pointer
  split <;> rfl

@[simp] theorem Ir.Value.name?_staticQubit (q : Nat) : (Value.staticQubit q).name? = none :=
  name?_pointer _ _

@[simp] theorem Ir.Value.name?_staticResult (k : Nat) : (Value.staticResult k).name? = none :=
  name?_pointer _ _

@[simp] theorem Ir.Value.name?_double (x : Binary64) : (Value.double x).name? = none := rfl

theorem GateKind.baseCalls_static (kind : GateKind) (i : Instruction) :
    ∀ x ∈ kind.baseCalls i, x.IsStaticCall := by
  intro x hx
  unfold baseCalls at hx
  split at hx
  case h_1 =>
    obtain ⟨p, -, rfl⟩ := List.mem_map.1 hx
    simp [Instr.IsStaticCall, Instr.isCall, Instr.uses]
  case h_4 => simp at hx
  -- a barrier or a gate: one call whose arguments are all constants
  all_goals
    rw [List.mem_singleton.1 hx]
    simp [Instr.IsStaticCall, Instr.isCall, Instr.uses, List.filterMap_append, List.filterMap_map,
      Function.comp_def]

theorem Circuit.Instruction.baseCalls_static (i : Instruction) : ∀ x ∈ i.baseCalls, x.IsStaticCall := by
  cases hk : GateKind.ofName? i.name with
  | none => simp [Instruction.baseCalls, hk]
  | some kind => simpa [Instruction.baseCalls, hk] using kind.baseCalls_static i

/-- The base epilogue is static calls, then the return. -/
theorem baseEpilogue_calls (R : Nat) :
    ∃ calls : List Instr, (∀ x ∈ calls, x.IsStaticCall) ∧ baseEpilogue R = calls ++ [Instr.ret] := by
  refine ⟨.call Runtime.arrayStartRecord.name .void [] none ::
    (List.range R).map (fun c => .call Runtime.resultRecord.name .void [.staticResult c] none) ++
    [.call Runtime.arrayEndRecord.name .void [] none], fun x hx => ?_, by simp [baseEpilogue]⟩
  simp only [List.mem_cons, List.mem_append, List.mem_map, List.mem_range, List.not_mem_nil,
    or_false] at hx
  rcases hx with (rfl | ⟨c, -, rfl⟩) | rfl <;> simp [Instr.IsStaticCall, Instr.isCall, Instr.uses]

/-- One block of static calls, closed by the return, is shaped. -/
theorem shaped_staticCalls {cs : List Instr} (h : ∀ x ∈ cs, x.IsStaticCall) (cut : String → Bool) :
    Shaped cut (Line.label "entry" :: (cs ++ [Instr.ret]).map Line.instr) := by
  have hcalls : ∀ x ∈ cs, x.isCall = true := fun x hx => (h x hx).1
  have hret : Instr.ret ∉ cs := fun hm => by simpa [Instr.isCall] using hcalls _ hm
  have hbound : (cs ++ [Instr.ret]).filterMap Instr.bound? = [] :=
    List.filterMap_eq_nil_iff.2 fun x hx => by
      rcases List.mem_append.1 hx with hx | hx
      · exact (h x hx).2.1
      · simp_all [Instr.bound?]
  have hinstrs : (Line.label "entry" :: (cs ++ [Instr.ret]).map Line.instr).filterMap Line.instr? =
      cs ++ [Instr.ret] := by
    rw [List.filterMap_cons_none rfl, filterMap_instr?_map]
  refine ⟨?_, ?_, ?_, ?_, ?_, ?_, ?_, ?_⟩
  · rw [List.map_append]
    exact isChain_entry (tame_calls hcalls) "entry"
  · rw [List.map_append, ← List.cons_append]
    exact List.getLast?_concat
  · rw [hinstrs, List.count_append, List.count_eq_zero.2 hret]
    simp
  · refine ⟨by simp [Line.targets], ?_⟩
    rw [List.map_append]
    exact (ahead_calls hcalls).append ⟨by simp [Line.targets, Instr.targets], trivial⟩
  · refine scoped_of_uses_outer fun x hx n hn => ?_
    rw [List.filterMap_cons_none rfl, filterMap_instr?_map] at hx
    rcases List.mem_append.1 hx with hx | hx
    · simp [(h x hx).2.2] at hn
    · simp_all [Instr.uses]
  · rw [List.filterMap_cons, labels_calls]
    simp [Line.label?]
  · rw [hinstrs, hbound]
    simp
  · rw [hinstrs, hbound]
    exact List.nodup_nil

/-- The entry function of a generated module is well formed. -/
theorem entryPoint?_generate_wellFormed {o : Options} {src : Source} {m : Module}
    (h : generate o src = .ok m) : ∃ f, m.entryPoint? = some f ∧ f.WellFormed := by
  cases hp : o.profile with
  | base =>
    have hf := entryPoint?_base hp h
    refine ⟨_, hf, @Function.wellFormed_of_shaped (fun _ => true) _ ?_⟩
    obtain ⟨calls, hcalls, hEq⟩ := baseEpilogue_calls src.bitCount
    rw [linesOf_single, hEq, ← List.append_assoc]
    exact shaped_staticCalls (fun x hx => (List.mem_append.1 hx).elim
      (fun hx => by
        obtain ⟨i, -, hx⟩ := List.mem_flatMap.1 hx
        exact i.baseCalls_static x hx)
      (hcalls x)) _
  | adaptive =>
    obtain ⟨f, hf, -, -, hlines, hg⟩ := entryPoint?_generate_adaptive hp h
    refine ⟨f, hf, @Function.wellFormed_of_shaped (isJoin (guardedCount src.instructions)) f ?_⟩
    rw [hlines]
    exact shaped_adaptive hg src.bitCount

/-- Every entry function lowering writes is well formed: distinct labels that are no value
names, blocks closed by one terminator, branches forward to later blocks with every block
after the entry branched to, one return at the very end, each value name bound once, and
every read of a value where it is bound earlier in its block or in a block that dominates
it. -/
theorem entryPoint?_wellFormed {llvm : Llvm} {o : Options} {src : Source} {g : Generated}
    (h : translate llvm o src = .ok g) : ∃ f, g.module.entryPoint? = some f ∧ f.WellFormed :=
  entryPoint?_generate_wellFormed (translate_eq_ok h).1

/-- A program that flips qubit 1 when the measurement of qubit 0 reads one. -/
def Circuit.Program.feedForward : Program :=
  { Program.withSize "feed_forward" 2 1 with
    instructions :=
      [Instruction.single "h" 0, Instruction.measure 0 0,
       { name := "x", qubits := [1], condition := some (Condition.bit 0 true) }] }

theorem entryPoint?_wellFormed_feedForward :
    ∃ g, translate Llvm.acceptingAll (Options.ofProfile .adaptive) (Program.feedForward).toSource =
        Except.ok g ∧
      ∃ f, g.module.entryPoint? = some f ∧ f.WellFormed :=
  ⟨_, rfl, @entryPoint?_wellFormed Llvm.acceptingAll (Options.ofProfile .adaptive)
    (Program.feedForward).toSource _ rfl⟩

end QirGen
