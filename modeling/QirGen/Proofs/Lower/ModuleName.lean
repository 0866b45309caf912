import QirGen.Proofs.Lower.TextAttributes

/-!
# Module names made safe to quote

A module's name stands between quotes on the first two lines of its text: `; ModuleID = '…'`
and `source_filename = "…"`. `sanitizeModuleName` replaces every character that could end or
break such a quoted text (`Unquotable`: a control character, a quote, an apostrophe or a
backslash) by `_`, and names the empty name `module`.

The name it gives is never empty and holds no such character (`not_unquotable_sanitizeModuleName`);
for a name that is not empty it keeps every other character in place
(`sanitizeModuleName_toList_of_ne`). A name with no such character is its own safe form, so
making a name safe twice changes nothing. Main statement: `sanitizeModuleName_quotable`, which
also reads the two header lines of every translated module back.
-/

namespace QirGen

open Ir

/-- A character a quoted module name may not hold: a control character (Unicode Cc), a quote,
an apostrophe or a backslash. -/
def Unquotable (c : Char) : Prop := isControl c = true ∨ c = '"' ∨ c = '\'' ∨ c = '\\'

instance : DecidablePred Unquotable := fun c =>
  inferInstanceAs (Decidable (isControl c = true ∨ c = '"' ∨ c = '\'' ∨ c = '\\'))

/-- The character a safe module name holds in place of `c`. -/
def safeChar (c : Char) : Char := if Unquotable c then '_' else c

theorem not_unquotable_safeChar (c : Char) : ¬ Unquotable (safeChar c) := by
  unfold safeChar
  split
  · decide
  · assumption

theorem safeChar_of_not_unquotable {c : Char} (h : ¬ Unquotable c) : safeChar c = c := if_neg h

/-- The replacement the definition writes, with its test read as `Unquotable`. -/
theorem cleaned_toList (s : String) :
    (s.map fun c => if isControl c || c == '"' || c == '\'' || c == '\\' then '_' else c).toList =
      s.toList.map safeChar := by
  rw [String.toList_map]
  refine List.map_congr_left fun c _ => ?_
  -- the same test, written with Boolean operators
  exact if_congr (by simp [Unquotable, or_assoc]) rfl rfl

theorem sanitizeModuleName_empty : sanitizeModuleName "" = "module" := by
  simp [sanitizeModuleName]

/-- A name that is not empty keeps its characters, each unquotable one replaced by `_`. -/
theorem sanitizeModuleName_toList_of_ne {s : String} (hs : s ≠ "") :
    (sanitizeModuleName s).toList = s.toList.map safeChar := by
  have hne : s.toList ≠ [] := by simpa using hs
  unfold sanitizeModuleName
  dsimp only
  rw [if_neg (by simpa [← String.toList_eq_nil_iff, cleaned_toList] using hne), cleaned_toList]

theorem sanitizeModuleName_ne_empty (s : String) : sanitizeModuleName s ≠ "" := by
  by_cases hs : s = ""
  · rw [hs, sanitizeModuleName_empty]
    decide
  · rw [Ne, ← String.toList_eq_nil_iff, sanitizeModuleName_toList_of_ne hs, List.map_eq_nil_iff]
    simpa using hs

/-- A safe name holds no character that could end or break its quotes. -/
theorem not_unquotable_sanitizeModuleName (s : String) :
    ∀ c ∈ (sanitizeModuleName s).toList, ¬ Unquotable c := by
  by_cases hs : s = ""
  · rw [hs, sanitizeModuleName_empty]
    simp [Unquotable, isControl]
  · rw [sanitizeModuleName_toList_of_ne hs]
    intro c hc
    obtain ⟨c', -, rfl⟩ := List.mem_map.1 hc
    exact not_unquotable_safeChar c'

/-- A name that is not empty and holds no unquotable character is its own safe form. -/
theorem sanitizeModuleName_of_safe {s : String} (hs : s ≠ "") (hsafe : ∀ c ∈ s.toList, ¬ Unquotable c) :
    sanitizeModuleName s = s := by
  apply String.ext
  rw [sanitizeModuleName_toList_of_ne hs]
  -- every character is its own replacement
  conv => rhs; rw [← List.map_id s.toList]
  exact List.map_congr_left fun c hc => safeChar_of_not_unquotable (hsafe c hc)

/-! ### The header lines of a module's text -/

/-- The first two lines of a module's text name the module, when its name is one line. -/
theorem Module.headerLines {m : Module} (hname : OneLine m.name) :
    (m.render.toList.splitOn '\n').take 2 =
      [("; ModuleID = '" ++ m.name ++ "'").toList, ("source_filename = \"" ++ m.name ++ "\"").toList] := by
  have h₁ : OneLine ("; ModuleID = '" ++ m.name ++ "'") := by simp [hname]; decide
  have h₂ : OneLine ("source_filename = \"" ++ m.name ++ "\"") := by simp [hname]; decide
  rw [Module.render_eq_unlines, Module.textLines]
  simp only [List.cons_append]
  rw [splitOn_unlines_cons h₁, splitOn_unlines_cons h₂]
  rfl

/-- **Module names are made safe to quote.** The safe form of a name is never empty and holds no
control character, quote, apostrophe or backslash. The empty name becomes `module`; any other
name keeps its length and every character, each unquotable one replaced by `_`. Making a name
safe twice changes nothing. So the first two lines of every translated module are the module
line and the source line, each quoting exactly the safe form of the module's name. -/
theorem sanitizeModuleName_quotable (s : String) :
    sanitizeModuleName s ≠ "" ∧
    (∀ c ∈ (sanitizeModuleName s).toList, ¬ Unquotable c) ∧
    (s = "" → sanitizeModuleName s = "module") ∧
    (s ≠ "" → (sanitizeModuleName s).toList = s.toList.map safeChar ∧
      (sanitizeModuleName s).length = s.length) ∧
    sanitizeModuleName (sanitizeModuleName s) = sanitizeModuleName s ∧
    ∀ llvm o src g, translate llvm o src = .ok g → o.moduleName.getD src.name = s →
      (g.text.toList.splitOn '\n').take 2 =
        [("; ModuleID = '" ++ sanitizeModuleName s ++ "'").toList,
          ("source_filename = \"" ++ sanitizeModuleName s ++ "\"").toList] := by
  refine ⟨sanitizeModuleName_ne_empty s, not_unquotable_sanitizeModuleName s,
    fun hs => hs ▸ sanitizeModuleName_empty, fun hs => ?_,
    sanitizeModuleName_of_safe (sanitizeModuleName_ne_empty s) (not_unquotable_sanitizeModuleName s),
    fun llvm o src g hg hname => ?_⟩
  · have hlist := sanitizeModuleName_toList_of_ne hs
    refine ⟨hlist, ?_⟩
    rw [← String.length_toList, hlist, List.length_map, String.length_toList]
  · obtain ⟨hm, htext, -⟩ := translate_eq_ok hg
    have hmodule := name_generate hm
    rw [hname] at hmodule
    rw [htext, Module.headerLines (hmodule ▸ oneLine_sanitizeModuleName s), hmodule]

/-- The Bell program translated under a module name with quotes and a line break: the name is
quoted on the first two lines with each of those characters made `_`. -/
theorem sanitizeModuleName_quotable_bell :
    sanitizeModuleName "bell \"state\"\n" = "bell _state__" ∧
    ∃ g, translate Llvm.acceptingAll { Options.ofProfile .base with moduleName := some "bell \"state\"\n" }
        (Circuit.Program.bell).toSource = .ok g ∧
      (g.text.toList.splitOn '\n').take 2 =
        [("; ModuleID = 'bell _state__'").toList, ("source_filename = \"bell _state__\"").toList] := by
  have hsafe := sanitizeModuleName_quotable "bell \"state\"\n"
  have hname : sanitizeModuleName "bell \"state\"\n" = "bell _state__" := by
    apply String.ext
    rw [(hsafe.2.2.2.1 (by simp)).1]
    simp [safeChar, Unquotable, isControl]
  obtain ⟨g, hg⟩ : ∃ g, translate Llvm.acceptingAll
      { Options.ofProfile .base with moduleName := some "bell \"state\"\n" }
      (Circuit.Program.bell).toSource = .ok g := ⟨_, rfl⟩
  refine ⟨hname, g, hg, ?_⟩
  rw [hsafe.2.2.2.2.2 _ _ _ g hg rfl, hname]
  rfl

end QirGen
