import QirGen.Ir.Render

/-!
# The lines of a module's text

`Module.render` writes a module line by line, each line ended by a line break. `textLines`
lists those lines: the header; for each function a blank line, its `define` line, its blocks
(a label line, then one line per instruction) separated by blank lines, and the closing brace;
the declarations, each attribute group and the module flags, each part after a blank line.
`render_eq_unlines` proves the text is those lines, and `splitOn_unlines` reads them back when
none holds a line break (`OneLine`).
-/

namespace QirGen
namespace Ir

/-- Lines, each ended by a line break. -/
def unlines (ls : List String) : String := String.join (ls.map (· ++ "\n"))

@[simp] theorem unlines_nil : unlines [] = "" := rfl

@[simp] theorem unlines_cons (l : String) (ls : List String) :
    unlines (l :: ls) = l ++ "\n" ++ unlines ls := by
  simp [unlines, String.join_cons, String.append_assoc]

@[simp] theorem unlines_append (ls ms : List String) : unlines (ls ++ ms) = unlines ls ++ unlines ms := by
  simp [unlines, String.join_append]

theorem unlines_flatMap {α : Type} (xs : List α) (g : α → List String) :
    unlines (xs.flatMap g) = String.join (xs.map fun x => unlines (g x)) := by
  induction xs with
  | nil => rfl
  | cons x xs ih => simp [String.join_cons, ih]

/-- Groups of lines separated by blank lines. -/
theorem unlines_intercalate : ∀ (ls : List (List String)),
    unlines ([""].intercalate ls) = String.intercalate "\n" (ls.map unlines)
  | [] => rfl
  | [l] => by simp
  | l :: l' :: ls => by
    rw [List.intercalate_cons_cons, List.map_cons, List.map_cons, String.intercalate_cons_cons,
      unlines_append, unlines_append, ← List.map_cons, ← unlines_intercalate (l' :: ls)]
    simp [String.append_assoc]

/-- A text without line breaks. -/
def OneLine (s : String) : Prop := '\n' ∉ s.toList

/-- Splitting at line breaks reads a first line of one line back. -/
theorem splitOn_unlines_cons {l : String} (hl : OneLine l) (ls : List String) :
    (unlines (l :: ls)).toList.splitOn '\n' = l.toList :: (unlines ls).toList.splitOn '\n' := by
  rw [unlines_cons, String.toList_append, String.toList_append,
    show ("\n" : String).toList = ['\n'] from rfl, List.append_assoc, List.singleton_append,
    List.splitOn_append_cons_self_of_not_mem hl]

/-- Splitting lines at their breaks gives them back, and the empty text after the last. -/
theorem splitOn_unlines : ∀ {ls : List String}, (∀ l ∈ ls, OneLine l) →
    (unlines ls).toList.splitOn '\n' = ls.map String.toList ++ [[]]
  | [], _ => rfl
  | l :: ls, h => by
    rw [splitOn_unlines_cons (h l List.mem_cons_self),
      splitOn_unlines fun l' hl' => h l' (List.mem_cons_of_mem l hl')]
    rfl

/-! ### The lines of each part -/

/-- The lines of a block: its label, then its instructions. -/
def Block.textLines (b : Block) : List String := (b.label ++ ":") :: b.instrs.map Instr.text

/-- The line that opens a function, referring to its attribute group if it has one. -/
def Function.defineLine (f : Function) (group : Option Nat) : String :=
  match group with
  | some g => "define void @" ++ f.name ++ "() #" ++ toString g ++ " \x7b"
  | none => "define void @" ++ f.name ++ "() \x7b"

/-- The lines of a function: its opening line, its blocks separated by blank lines, and the
closing brace. -/
def Function.textLines (f : Function) (group : Option Nat) : List String :=
  f.defineLine group :: [""].intercalate (f.blocks.map Block.textLines) ++ ["\x7d"]

/-- The line of attribute group `i`, holding the attributes of `f`. -/
def Function.groupLine (f : Function) (i : Nat) : String :=
  "attributes #" ++ toString i ++ " = \x7b " ++ String.intercalate " " (f.attributes.map Attribute.text) ++
    " \x7d"

/-- The line naming the first `n` flags as the module's flags. -/
def flagsLine (n : Nat) : String :=
  "!llvm.module.flags = !\x7b" ++ String.intercalate ", " ((List.range n).map fun i => "!" ++ toString i) ++
    "\x7d"

/-- The lines of a module's text (see the module comment). -/
def Module.textLines (m : Module) : List String :=
  ["; ModuleID = '" ++ m.name ++ "'", "source_filename = \"" ++ m.name ++ "\"", "",
    "%Qubit = type opaque", "%Result = type opaque"] ++
  (m.functions.zip (groupNumbers 0 m.functions)).flatMap (fun p => "" :: p.1.textLines p.2) ++
  (if m.declarations.isEmpty then [] else "" :: m.declarations.map Callee.text) ++
  ((List.range (m.functions.filter fun f => !f.attributes.isEmpty).length).zip
      (m.functions.filter fun f => !f.attributes.isEmpty)).flatMap (fun p => ["", p.2.groupLine p.1]) ++
  (if m.flags.isEmpty then []
   else "" :: flagsLine m.flags.length ::
     ((List.range m.flags.length).zip m.flags).map fun p => "!" ++ toString p.1 ++ " = " ++ p.2.text)

theorem Block.text_eq_unlines (b : Block) : b.text = unlines b.textLines := by
  apply String.ext
  simp [Block.text, Block.textLines, unlines, String.toList_join, List.flatMap_map]

theorem Function.text_eq_unlines (f : Function) (group : Option Nat) :
    f.text group = unlines (f.textLines group) := by
  have hblocks : String.intercalate "\n" (f.blocks.map Block.text) =
      unlines ([""].intercalate (f.blocks.map Block.textLines)) := by
    rw [unlines_intercalate, List.map_map, show Block.text = unlines ∘ Block.textLines from
      funext Block.text_eq_unlines]
  unfold Function.text Function.textLines Function.defineLine
  -- both open with the `define` line, then hold the blocks and the closing brace
  cases group <;>
  · dsimp only
    rw [hblocks, unlines_append, unlines_cons]
    exact String.ext (by simp)

/-- A line of groups separated by blank lines is blank or a line of a group. -/
theorem mem_intercalate_blank {l : String} : ∀ {L : List (List String)},
    l ∈ [""].intercalate L → l = "" ∨ ∃ x ∈ L, l ∈ x
  | [], h => by simp at h
  | [x], h => Or.inr ⟨x, List.mem_singleton_self x, by simpa using h⟩
  | x :: y :: L, h => by
    rw [List.intercalate_cons_cons, List.mem_append, List.mem_append, List.mem_singleton] at h
    rcases h with (h | h) | h
    · exact Or.inr ⟨x, List.mem_cons_self, h⟩
    · exact Or.inl h
    · rcases mem_intercalate_blank h with h | ⟨z, hz, hl⟩
      · exact Or.inl h
      · exact Or.inr ⟨z, List.mem_cons_of_mem x hz, hl⟩

/-- A line of a function's body is blank, the closing brace, a block's label or an
instruction. -/
theorem Function.mem_bodyLines {f : Function} {l : String}
    (h : l ∈ [""].intercalate (f.blocks.map Block.textLines) ++ ["\x7d"]) :
    l = "" ∨ l = "\x7d" ∨ ∃ b ∈ f.blocks, l = b.label ++ ":" ∨ ∃ x ∈ b.instrs, l = x.text := by
  rcases List.mem_append.1 h with h | h
  · rcases mem_intercalate_blank h with h | ⟨ls, hls, hl⟩
    · exact Or.inl h
    · obtain ⟨b, hb, rfl⟩ := List.mem_map.1 hls
      rcases List.mem_cons.1 hl with hl | hl
      · exact Or.inr (Or.inr ⟨b, hb, Or.inl hl⟩)
      · obtain ⟨x, hx, rfl⟩ := List.mem_map.1 hl
        exact Or.inr (Or.inr ⟨b, hb, Or.inr ⟨x, hx, rfl⟩⟩)
  · exact Or.inr (Or.inl (List.mem_singleton.1 h))

theorem join_map_eq_unlines {α : Type} (xs : List α) (g : α → String) (ls : α → List String)
    (h : ∀ x, g x = unlines (ls x)) : String.join (xs.map g) = unlines (xs.flatMap ls) := by
  rw [unlines_flatMap]
  exact congrArg String.join (List.map_congr_left fun x _ => h x)

/-! ### Each part of the text, line by line -/

theorem header_eq_unlines (name : String) :
    "; ModuleID = '" ++ name ++ "'\nsource_filename = \"" ++ name ++
      "\"\n\n%Qubit = type opaque\n%Result = type opaque\n" =
      unlines ["; ModuleID = '" ++ name ++ "'", "source_filename = \"" ++ name ++ "\"", "",
        "%Qubit = type opaque", "%Result = type opaque"] :=
  String.ext (by simp)

theorem functions_eq_unlines (ps : List (Function × Option Nat)) :
    String.join (ps.map fun x => "\n" ++ x.fst.text x.snd) =
      unlines (ps.flatMap fun p => "" :: p.fst.textLines p.snd) :=
  join_map_eq_unlines ps _ _ fun x => by
    rw [Function.text_eq_unlines, unlines_cons]
    exact String.ext (by simp)

theorem declarations_eq_unlines (ds : List Callee) :
    (if ds.isEmpty = true then "" else "\n" ++ String.join (ds.map fun c => c.text ++ "\n")) =
      unlines (if ds.isEmpty = true then [] else "" :: ds.map Callee.text) := by
  split
  · rfl
  · rw [unlines_cons, unlines, List.map_map]
    exact String.ext (by simp [Function.comp_def])

theorem groups_eq_unlines (ps : List (Nat × Function)) :
    String.join (ps.map fun x => "\nattributes #" ++ toString x.fst ++ " = \x7b " ++
      " ".intercalate (x.snd.attributes.map Attribute.text) ++ " \x7d\n") =
      unlines (ps.flatMap fun p => ["", p.snd.groupLine p.fst]) :=
  join_map_eq_unlines ps _ _ fun x => String.ext (by simp [Function.groupLine])

theorem flags_eq_unlines (fs : List Flag) :
    (if fs.isEmpty = true then ""
      else "\n!llvm.module.flags = !\x7b" ++
        ", ".intercalate ((List.range fs.length).map fun i => "!" ++ toString i) ++ "\x7d\n" ++
        String.join (((List.range fs.length).zip fs).map
          fun x => "!" ++ toString x.fst ++ " = " ++ x.snd.text ++ "\n")) =
      unlines (if fs.isEmpty = true then []
        else "" :: flagsLine fs.length ::
          ((List.range fs.length).zip fs).map fun p => "!" ++ toString p.fst ++ " = " ++ p.snd.text) := by
  split
  · rfl
  · unfold flagsLine
    generalize ", ".intercalate _ = names
    generalize (List.range fs.length).zip fs = zs
    rewrite [unlines_cons, unlines_cons, unlines, List.map_map]
    simp only [Function.comp_def]
    generalize String.join (zs.map fun x => "!" ++ toString x.fst ++ " = " ++ x.snd.text ++ "\n") = flagLines
    exact String.ext (by simp)

/-- **The text is its lines.** A module's text is `textLines`, each line ended by a line
break. -/
theorem Module.render_eq_unlines (m : Module) : m.render = unlines m.textLines := by
  unfold Module.render Module.textLines
  dsimp only
  rw [header_eq_unlines, functions_eq_unlines, declarations_eq_unlines, groups_eq_unlines,
    flags_eq_unlines]
  simp only [unlines_append, String.append_assoc]

end Ir
end QirGen
