import QirGen.Proofs.Lower.Reuse
import QirGen.Proofs.Lower.Declarations

/-!
# What lowering leaves alone

Lowering changes its builder through four operations only: calls, other instructions, new
blocks, and moves of the insertion point; attributes and flags are written by `finish` alone.
A property of builders that the four keep (`Builder.Stable`) therefore holds after every run of
calls (`Builder.Calls`), which covers the steps that only call runtime functions, and after every
lowering step, a whole run and the recording of the outputs.

The module's name is such a property, and so is its list of flags. Main statements:
`name_generate` (the module is named after the options, or the program) and `flags_generate`
(the four profile flags, exactly when the options ask for them).
-/

namespace QirGen

open Ir Circuit

namespace Ir.Builder

/-- A property of builders kept by calls, other instructions, new blocks, and moves of the
insertion point. -/
structure Stable (P : Builder → Prop) : Prop where
  call : ∀ b c args r, P b → P (b.call c args r).1
  push : ∀ b i, P b → P (b.push i)
  appendBlock : ∀ b l, P b → P (b.appendBlock l).1
  positionAtEnd : ∀ b r, P b → P (b.positionAtEnd r)

variable {P : Builder → Prop} {b : Builder}

theorem Stable.callUnit (hP : Stable P) (c : Callee) (args : List Value) (hb : P b) :
    P (b.callUnit c args) :=
  hP.call b c args none hb

theorem Stable.condBr (hP : Stable P) (v : Value) (t e : Nat) (hb : P b) : P (b.condBr v t e) :=
  hP.push b _ hb

theorem Stable.br (hP : Stable P) (t : Nat) (hb : P b) : P (b.br t) := hP.push b _ hb

theorem Stable.ret (hP : Stable P) (hb : P b) : P b.ret := hP.push b _ hb

/-- A run of calls keeps the property. -/
theorem Calls.stable (hP : Stable P) {b' : Builder} (h : b.Calls b') (hb : P b) : P b' := by
  induction h with
  | refl => exact hb
  | call _ args r _ ih => exact ih (hP.call _ _ args r hb)

/-- Every writing operation keeps the module's name. -/
theorem stable_name (n : String) : Stable fun b => b.module.name = n := by
  refine ⟨fun b c args r hb => ?_, fun b i hb => hb, fun b l hb => hb, fun b r hb => hb⟩
  simp only [Builder.call, Builder.push, Builder.modifyCurrent, Builder.declare]
  split <;> exact hb

/-- Every writing operation keeps the module's flags. -/
theorem stable_flags (fs : List Flag) : Stable fun b => b.module.flags = fs := by
  refine ⟨fun b c args r hb => ?_, fun b i hb => hb, fun b l hb => hb, fun b r hb => hb⟩
  simp only [Builder.call, Builder.push, Builder.modifyCurrent, Builder.declare]
  split <;> exact hb

end Ir.Builder

namespace Lowering

variable {P : Builder → Prop} {s s' : Lowering} {kind : GateKind}

theorem appendBlocks_stable (hP : Builder.Stable P) :
    ∀ (labels : List String) {b : Builder}, P b → P (appendBlocks b labels).1
  | [], _, hb => hb
  | l :: ls, b, hb => appendBlocks_stable hP ls (hP.appendBlock b l hb)

theorem emitTests_stable (hP : Builder.Stable P) (region join : Nat) :
    ∀ (k : Nat) (tests : List ((Value × Bool) × Nat)) {b : Builder}, P b →
      P (emitTests region join b k tests)
  | _, [], _, hb => hb
  | k, ((v, e), t) :: tests, b, hb => by
    have hb₁ := hP.call b Runtime.readResult [v] (some ("c" ++ toString region ++ "." ++ toString k)) hb
    simp only [emitTests]
    -- the branch on the read bit goes either way; the next test is written in the target
    split
    · exact emitTests_stable hP region join (k + 1) tests
        (hP.positionAtEnd _ t (hP.condBr _ _ _ hb₁))
    · exact emitTests_stable hP region join (k + 1) tests
        (hP.positionAtEnd _ t (hP.condBr _ _ _ hb₁))

theorem emitConditional_stable (hP : Builder.Stable P) {index : Nat} {i : Instruction}
    {c : Condition} {qs : List Value} (h : s.emitConditional kind index i c qs = .ok s')
    (hb : P s.builder) : P s'.builder := by
  obtain ⟨-, -, -, b₁, refs, b₂, body, b₃, join, s₁, hab₁, hab₂, hab₃, he, rfl⟩ :=
    emitConditional_eq_ok h
  -- the appended blocks and the tests keep the property, then the body and the branch to the join
  have hb₁ := appendBlocks_stable hP
    ((List.range (c.bits.length - 1)).map fun k => "cond" ++ toString s.regions ++ "." ++ toString (k + 1)) hb
  rw [hab₁] at hb₁
  have hb₂ := hP.appendBlock b₁ ("then" ++ toString s.regions) hb₁
  rw [hab₂] at hb₂
  have hb₃ := hP.appendBlock b₂ ("continue" ++ toString s.regions) hb₂
  rw [hab₃] at hb₃
  have hs₁ := (emit_calls he).stable hP (emitTests_stable hP s.regions join 0 _ hb₃)
  exact hP.positionAtEnd _ join (hP.br join hs₁)

theorem lower_stable (hP : Builder.Stable P) {index : Nat} {i : Instruction}
    (h : s.lower index i = .ok s') (hb : P s.builder) : P s'.builder := by
  obtain ⟨kind, -, -, -, r, qs, hres, hemit⟩ := lower_eq_ok h
  have hr := (resolveQubits_calls hres).stable hP hb
  cases hc : i.condition with
  | none =>
    rw [hc] at hemit
    exact (emit_calls hemit).stable hP hr
  | some c =>
    rw [hc] at hemit
    exact emitConditional_stable hP hemit hr

theorem lowerList_stable (hP : Builder.Stable P) :
    ∀ {index : Nat} {is : List Instruction} {s s' : Lowering},
      lowerList index is s = .ok s' → P s.builder → P s'.builder
  | _, [], s, s', h, hb => by
    simp only [lowerList, Except.ok.injEq] at h
    subst h
    exact hb
  | index, i :: is, s, s', h, hb => by
    obtain ⟨s₁, h₁, h⟩ := lowerList_cons_eq_ok h
    exact lowerList_stable hP h (lower_stable hP h₁ hb)

/-- Recording the outputs changes only the builder. -/
theorem recordOutputs_handles (h : s.recordOutputs = .ok s') :
    s'.handles = s.handles ∧ s'.profile = s.profile := by
  obtain ⟨b₀, vs, -, rfl⟩ := recordOutputs_eq_ok h
  exact ⟨rfl, rfl⟩

/-- Finishing keeps the module's name. -/
theorem name_finish (s : Lowering) (flags : Bool) :
    (s.finish flags).name = s.builder.module.name := by
  have hrel := (Handles.releaseAll_calls s.handles s.builder).stable
    (Builder.stable_name s.builder.module.name) rfl
  unfold finish
  split <;> simpa [Builder.addFlag, Builder.setAttribute, Builder.modifyCurrent, Builder.ret,
    Builder.push] using hrel

/-- Finishing writes the four profile flags after those already there, if asked to. -/
theorem flags_finish (s : Lowering) (flags : Bool) :
    (s.finish flags).flags = s.builder.module.flags ++
      if flags then
        [⟨1, "qir_major_version", .int 1⟩, ⟨7, "qir_minor_version", .int 0⟩,
          ⟨1, "dynamic_qubit_management", .bool (s.handles.mode == .dynamic)⟩,
          ⟨1, "dynamic_result_management", .bool (s.handles.mode == .dynamic)⟩]
      else [] := by
  have hrel := (Handles.releaseAll_calls s.handles s.builder).stable
    (Builder.stable_flags s.builder.module.flags) rfl
  unfold finish
  split <;> simpa [Builder.addFlag, Builder.setAttribute, Builder.modifyCurrent, Builder.ret,
    Builder.push] using hrel

end Lowering

open Lowering

/-- A generated module is named after the options' module name, or else the program's,
made safe to quote. -/
theorem name_generate {o : Options} {src : Source} {m : Module} (h : generate o src = .ok m) :
    m.name = sanitizeModuleName (o.moduleName.getD src.name) := by
  obtain ⟨s₁, s₂, h₁, h₂, hg⟩ := generate_eq_ok h
  have hP := Builder.stable_name (sanitizeModuleName (o.moduleName.getD src.name))
  rw [hg, name_finish]
  exact (recordOutputs_calls h₂).stable hP (lowerList_stable hP h₁ rfl)

/-- A generated module carries the four profile flags, in order, exactly when the options ask
for them. -/
theorem flags_generate {o : Options} {src : Source} {m : Module} (h : generate o src = .ok m) :
    m.flags =
      if o.emitModuleFlags then
        [⟨1, "qir_major_version", .int 1⟩, ⟨7, "qir_minor_version", .int 0⟩,
          ⟨1, "dynamic_qubit_management", .bool (o.profile == .adaptive)⟩,
          ⟨1, "dynamic_result_management", .bool (o.profile == .adaptive)⟩]
      else [] := by
  obtain ⟨s₁, s₂, h₁, h₂, hg⟩ := generate_eq_ok h
  have hP := Builder.stable_flags []
  have hnil : s₂.builder.module.flags = [] :=
    (recordOutputs_calls h₂).stable hP (lowerList_stable hP h₁ rfl)
  -- the addressing is the profile's from the start, and neither lowering nor recording changes it
  have hmode : s₂.handles.mode = o.profile.addressing := by
    rw [(recordOutputs_handles h₂).1, (lowerList_frame h₁).keeps.mode_eq]
    rfl
  rw [hg, flags_finish, hnil, hmode, List.nil_append]
  cases o.profile <;> rfl

end QirGen
