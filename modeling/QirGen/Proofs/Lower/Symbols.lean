import QirGen.Proofs.Lower.Declarations
import QirGen.Proofs.Lower.Base
import QirGen.Proofs.Lower.Adaptive
import QirGen.Circuit.Build

/-!
# Defined and declared symbols

A generated module defines one function, the entry point, and declares the runtime functions
its calls name (`declarations_generate`). The options' check reads only the characters of the
entry point's name, and every runtime function's name passes it (`Runtime.isIdentifier_name`),
so a definition and a declaration can share a name. They do exactly when the entry function
calls a runtime function named like the entry point (`entryPoint_declared_iff`). Every runtime
name starts with `__quantum__`, so an entry point outside that prefix is never declared.
-/

namespace QirGen

open Ir Circuit

namespace Runtime

/-- The prefix the name of every runtime function starts with. -/
def reservedPrefix : String := "__quantum__"

theorem reservedPrefix_name : ∀ c ∈ callees, reservedPrefix.toList <+: c.name.toList := by
  decide

/-- Every runtime function's name would pass as an entry point. -/
theorem isIdentifier_name : ∀ c ∈ callees, isIdentifier c.name = true := by
  decide

end Runtime

/-- The entry function of a generated module carries the name the options give. -/
theorem entryPoint?_name {o : Options} {src : Source} {m : Module}
    (h : generate o src = .ok m) : ∃ f, m.entryPoint? = some f ∧ f.name = o.entryPoint := by
  cases hp : o.profile with
  | base => exact ⟨_, entryPoint?_base hp h, rfl⟩
  | adaptive =>
    obtain ⟨f, hf, hname, -⟩ := entryPoint?_generate_adaptive hp h
    exact ⟨f, hf, hname⟩

/-- A generated module declares a name exactly when its entry function calls a function of
that name. -/
theorem declared_iff_called {o : Options} {src : Source} {m : Module}
    (h : generate o src = .ok m) {f : Function} (hf : m.entryPoint? = some f) (n : String) :
    (∃ c ∈ m.declarations, c.name = n) ↔ ∃ x ∈ f.instrs, x.callee? = some n := by
  have hnames := (declarations_generate h hf).1
  have hmem : n ∈ m.declarations.map (·.name) ↔ ∃ x ∈ f.instrs, x.callee? = some n := by
    rw [hnames, List.mem_eraseDups, List.mem_filterMap]
  rw [← hmem, List.mem_map]

/-- In a generated module the entry point's name is declared exactly when the entry function
calls a runtime function of that name, and never when the name does not start with
`__quantum__`. -/
theorem entryPoint_declared_iff {o : Options} {src : Source} {m : Module}
    (h : generate o src = .ok m) :
    ∃ f, m.entryPoint? = some f ∧ f.name = o.entryPoint ∧
      ((∃ c ∈ m.declarations, c.name = o.entryPoint) ↔
        ∃ x ∈ f.instrs, x.callee? = some o.entryPoint) ∧
      (¬ Runtime.reservedPrefix.toList <+: o.entryPoint.toList →
        ∀ c ∈ m.declarations, c.name ≠ o.entryPoint) := by
  obtain ⟨f, hf, hname⟩ := entryPoint?_name h
  refine ⟨f, hf, hname, declared_iff_called h hf _, ?_⟩
  -- a declaration is a runtime function, whose name carries the prefix
  intro hpre c hc heq
  exact hpre (heq ▸ Runtime.reservedPrefix_name c ((declarations_generate h hf).2 c hc))

end QirGen
