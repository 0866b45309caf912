import QirGen.Lower.Options

/-!
# Generator configuration

A `Config` holds the generator's settings as written, before they are checked: the
profile's name, the entry point's name, the module's name and whether module flags are
emitted. `Config.options` checks them and gives the lowering options: the profile
name must name a profile, and the entry point must be an identifier.

Environment variables override settings one by one; the module-flags variable must spell
a switch.
-/

namespace QirGen

/-- Generator settings as written. -/
structure Config where
  profile : String := "AdaptiveProfileExecution"
  entryPoint : String := "main"
  moduleName : Option String := none
  emitModuleFlags : Bool := true
  deriving DecidableEq, Inhabited

namespace Config

/-- The variable that sets the profile. -/
def profileVariable : String := "ARVAK_QIR_PROFILE"
/-- The variable that sets the entry point. -/
def entryPointVariable : String := "ARVAK_QIR_ENTRY_POINT"
/-- The variable that sets the module name. -/
def moduleNameVariable : String := "ARVAK_QIR_MODULE_NAME"
/-- The variable that switches module flags. -/
def moduleFlagsVariable : String := "ARVAK_QIR_MODULE_FLAGS"

/-- The lowering options the settings give, or why they give none: the profile is
checked first, then the options. -/
def options (c : Config) : Except TranslateError Options := do
  let profile ← Profile.parse c.profile
  let o : Options := { profile := profile, entryPoint := c.entryPoint,
                       moduleName := c.moduleName, emitModuleFlags := c.emitModuleFlags }
  o.validate
  pure o

/-- Checks the settings. -/
def validate (c : Config) : Except TranslateError Unit := c.options.map fun _ => ()

/-- The switch a text spells, in any ASCII case: `1`, `true`, `yes`, `on` or `0`,
`false`, `no`, `off`. -/
def switchOf? (lower : String) : Option Bool :=
  if ["1", "true", "yes", "on"].contains lower then some true
  else if ["0", "false", "no", "off"].contains lower then some false
  else none

/-- The settings with those the environment sets replaced. -/
def mergeFrom (c : Config) (env : String → Option String) : Except TranslateError Config := do
  let c := match env profileVariable with
    | some v => { c with profile := v }
    | none => c
  let c := match env entryPointVariable with
    | some v => { c with entryPoint := v }
    | none => c
  let c := match env moduleNameVariable with
    | some v => { c with moduleName := some v }
    | none => c
  match env moduleFlagsVariable with
  | none => pure c
  | some v =>
    let lower := v.map Char.toLower
    match switchOf? lower with
    | some b => pure { c with emitModuleFlags := b }
    | none => .error (.config (moduleFlagsVariable ++ " must be a boolean, got '" ++ lower ++ "'"))

/-- The default settings with the environment's applied, unchecked. -/
def fromEnv (env : String → Option String) : Except TranslateError Config :=
  ({} : Config).mergeFrom env

end Config
end QirGen
