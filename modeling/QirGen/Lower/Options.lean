import QirGen.Lower.Error

/-!
# Lowering options

The profile, the entry-point name, an optional module name (the program's name by
default) and whether module flags are written. The entry point must be an identifier:
an ASCII letter or one of `_ . $` first, then ASCII letters, digits or `_ . $ -`.

Module names are quoted in the text form, so control characters (Unicode Cc), quotes,
apostrophes and backslashes in them become `_`; an empty name becomes `module`.
-/

namespace QirGen

/-- The options of one lowering. -/
structure Options where
  profile : Profile
  entryPoint : String := "main"
  moduleName : Option String := none
  emitModuleFlags : Bool := true
  deriving DecidableEq, Inhabited

/-- A Unicode control character (general category Cc). -/
def isControl (c : Char) : Bool := c.toNat < 0x20 || (0x7f ≤ c.toNat && c.toNat < 0xa0)

/-- Whether a name is an identifier for a function. -/
def isIdentifier (s : String) : Bool :=
  match s.toList with
  | [] => false
  | c :: rest =>
      (c.isAlpha || c == '_' || c == '.' || c == '$') &&
      rest.all fun c => c.isAlphanum || c == '_' || c == '.' || c == '$' || c == '-'

/-- A module name made safe to quote. -/
def sanitizeModuleName (s : String) : String :=
  let cleaned := s.map fun c => if isControl c || c == '"' || c == '\'' || c == '\\' then '_' else c
  if cleaned.isEmpty then "module" else cleaned

namespace Options

/-- The default options of a profile. -/
def ofProfile (profile : Profile) : Options := { profile }

/-- Checks that the options can give a well-formed module. -/
def validate (o : Options) : Except TranslateError Unit :=
  if isIdentifier o.entryPoint then .ok ()
  else .error (.config ("entry point '" ++ o.entryPoint ++ "' is not a valid identifier"))

end Options
end QirGen
