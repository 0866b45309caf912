import Mathlib
import QirGen.Config.Yaml

/-!
# Which settings take effect

Settings come from three places, in order of precedence: the environment, a configuration
file, and the defaults (which the file's reading fills in for the keys it lacks). The file is
read with any YAML library `yaml`; all that matters of it is the settings it gives. The settings
in effect (`Config.effective`) take each field from its variable when that is set, else from the
file; the module-flags variable must spell a switch.

Merging the environment gives exactly the settings in effect (`mergeFrom_eq_ok_iff`). Loading
a file checks the file's own settings before the environment is merged, and the settings in
effect after it (`load_eq_ok_iff`): a file value that the environment overrides still decides
whether loading succeeds.
-/

namespace QirGen
namespace Config

/-- The settings in effect: each field from its variable when the environment sets it, else the
given one; none when the module-flags variable spells no switch. -/
def effective (c : Config) (env : String → Option String) : Option Config := do
  let flags ← match env moduleFlagsVariable with
    | none => some c.emitModuleFlags
    | some v => switchOf? (v.map Char.toLower)
  return { profile := (env profileVariable).getD c.profile,
           entryPoint := (env entryPointVariable).getD c.entryPoint,
           moduleName := (env moduleNameVariable).or c.moduleName,
           emitModuleFlags := flags }

variable {c c' : Config} {env : String → Option String}

/-- Merging the environment gives the settings in effect, and fails exactly when the
module-flags variable spells no switch. -/
theorem mergeFrom_eq_ok_iff : c.mergeFrom env = .ok c' ↔ c.effective env = some c' := by
  cases c
  unfold mergeFrom effective
  -- the module-flags variable decides whether merging fails; the text settings only take their
  -- variable's value when it is set
  cases env moduleFlagsVariable with
  | none =>
    cases env profileVariable <;> cases env entryPointVariable <;> cases env moduleNameVariable <;>
      simp [pure, Except.pure, eq_comm]
  | some v =>
    cases hs : switchOf? (v.map Char.toLower) <;>
      cases env profileVariable <;> cases env entryPointVariable <;> cases env moduleNameVariable <;>
      simp [hs, pure, Except.pure, eq_comm]

variable {yaml : SerdeYaml} {path text : String}

/-- Settings read from a file are checked on their own. -/
theorem fromFile_of_config (hfile : yaml.config text = .ok c) :
    fromFile yaml path (some text) = (do c.validate; pure c) := by
  simp only [fromFile, hfile]

/-- Loading a file whose reading gives the settings `c` succeeds exactly when `c` passes the
check on its own and the settings in effect under the environment pass it too, and then gives
the settings in effect. -/
theorem load_eq_ok_iff (hfile : yaml.config text = .ok c) :
    load yaml (some (path, some text)) env = .ok c' ↔
      c.validate = .ok () ∧ c.effective env = some c' ∧ c'.validate = .ok () := by
  unfold load
  dsimp only
  rw [fromFile_of_config hfile, ← mergeFrom_eq_ok_iff]
  -- the file's own check comes first, then the merge, then the check of what is in effect
  cases hv : c.validate with
  | error e => simp [bind, Except.bind]
  | ok u =>
    cases hm : c.mergeFrom env with
    | error e => simp [bind, Except.bind, pure, Except.pure, hm]
    | ok c₂ =>
      cases hv' : c₂.validate <;>
        simp only [bind, Except.bind, pure, Except.pure, hm, hv', reduceCtorEq, Except.ok.injEq,
          true_and, false_iff, iff_self_and, not_and] <;>
        rintro rfl <;> simp [hv']

/-- An empty file read with the YAML reader, with the profile set in the environment: the
defaults, with that profile. -/
theorem load_eq_ok_iff_empty :
    yamlReader.config "" = .ok {} ∧
      (load yamlReader (some ("config.yaml", some ""))
          (fun k => if k = profileVariable then some "Base" else none) =
          .ok { profile := "Base" } ↔
        ({} : Config).validate = .ok () ∧
          ({} : Config).effective (fun k => if k = profileVariable then some "Base" else none) =
            some { profile := "Base" } ∧
          ({ profile := "Base" } : Config).validate = .ok ()) := by
  have h : yamlReader.config "" = .ok {} := by cbv
  exact ⟨h, load_eq_ok_iff h⟩

end Config
end QirGen
