import QirGen.Config.Basic

/-!
# Configuration files

A configuration file is YAML read as `QirConfig`: the keys `profile`, `entry_point`,
`module_name` and `emit_module_flags`, each optional. The YAML library is a parameter
(`SerdeYaml`); a file that cannot be read or decoded is a configuration error whose message
starts with the file's path, and settings read from a file are checked at once.
-/

namespace QirGen
namespace Config

/-- serde_yaml_ng as configuration files are read with it: the settings a text holds under the
derived reading of `QirConfig`, or the library's message. -/
structure SerdeYaml where
  config : String → Except String Config

/-- The settings in a file, given its path and its text (none when it does not exist),
checked. -/
def fromFile (yaml : SerdeYaml) (path : String) (contents : Option String) :
    Except TranslateError Config := do
  match contents with
  | none => .error (.config (path ++ ": No such file or directory (os error 2)"))
  | some text =>
    match yaml.config text with
    | .error e => .error (.config (path ++ ": " ++ e))
    | .ok c =>
      c.validate
      pure c

/-- The settings from a file if one is given, else the defaults, with the environment's
applied, checked. -/
def load (yaml : SerdeYaml) (file : Option (String × Option String)) (env : String → Option String) :
    Except TranslateError Config := do
  let c ← match file with
    | some (path, contents) => fromFile yaml path contents
    | none => pure {}
  let c ← c.mergeFrom env
  c.validate
  pure c

end Config
end QirGen
