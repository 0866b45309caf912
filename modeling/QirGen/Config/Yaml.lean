import QirGen.Config.File
import QirGen.Yaml.Decode

/-!
# Configuration files through the YAML reader

The YAML reader of `QirGen.Yaml` read as `QirConfig`: a mapping whose four keys are optional and
whose other keys are ignored. The profile and the entry point take any scalar as text; the module
name is missing when empty or null; the flag must be a plain boolean.
-/

namespace QirGen
namespace Config

open Yaml in
/-- The keys of a configuration file and how each is read. -/
def fields : List (RecordField Config) :=
  [ ⟨"profile", fun ev path pos c => do
      let (s, pos) ← ev.string "a string" path 2 pos
      pure ({ c with profile := s }, pos)⟩,
    ⟨"entry_point", fun ev path pos c => do
      let (s, pos) ← ev.string "a string" path 2 pos
      pure ({ c with entryPoint := s }, pos)⟩,
    ⟨"module_name", fun ev path pos c => do
      let (s, pos) ← ev.optionalString path 2 pos
      pure ({ c with moduleName := s }, pos)⟩,
    ⟨"emit_module_flags", fun ev path pos c => do
      let (b, pos) ← ev.bool path 2 pos
      pure ({ c with emitModuleFlags := b }, pos)⟩ ]

/-- Reads settings from the text of a configuration file. -/
def ofYaml (text : String) : Except Yaml.DecodeError Config :=
  Yaml.decodeText text fun ev => ev.record "QirConfig" fields {}

/-- The YAML reader as the configuration's `SerdeYaml`. -/
def yamlReader : SerdeYaml := ⟨fun text => (ofYaml text).mapError (·.message)⟩

end Config
end QirGen
