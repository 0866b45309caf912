import QirGen.Proofs.Lower.TextAttributes
import QirGen.Proofs.Lower.Typing

/-!
# What LLVM makes of a generated module

Translation ends by handing the module's text to LLVM (`irToBitcode`), a parameter of which a
proof assumes only `Llvm.Lawful`: LLVM refuses a text that defines and declares one name (its
parser's "invalid redefinition"), and takes the text of a `Verifiable` module that does not.
`Llvm.refusingRedefinitions` is such an LLVM.

The text of a module whose names are identifiers opens its `define` lines with exactly its
functions' names and its `declare` lines with exactly its declarations' (`Module.Plain.names`).
A generated module is verifiable and defines only its entry point (`generate_verifiable`), so
under a lawful LLVM a translation succeeds exactly when the module is generated and the entry
point is no name it declares (`translate_ok_iff`); an entry point outside the runtime's
`__quantum__` names is never declared (`translate_ok_iff_of_unreserved`).
-/

namespace QirGen

open Ir Circuit Lowering

namespace Ir

/-! ### What LLVM is assumed to do -/

/-- The names of a module are identifiers and its other texts one line each, so that its text
reads line by line as written. -/
structure Module.Plain (m : Module) : Prop where
  name : OneLine m.name
  functions : ∀ f ∈ m.functions, f.OneLineParts ∧ isIdentifier f.name = true ∧
    ∀ b ∈ f.blocks, isIdentifier b.label = true
  declarations : ∀ c ∈ m.declarations, isIdentifier c.name = true
  flags : ∀ fl ∈ m.flags, OneLine fl.key

/-- What LLVM's verifier asks of a module besides defining no name it declares: a plain text,
each name declared once, and well-formed functions whose calls agree with the declaration of
their callee. -/
structure Module.Verifiable (m : Module) : Prop where
  plain : m.Plain
  nodup : (m.declarations.map (·.name)).Nodup
  functions : ∀ f ∈ m.functions, f.WellFormed ∧ ∀ n ret args r, Instr.call n ret args r ∈ f.instrs →
    ∃ c ∈ m.declarations, c.name = n ∧ c.ret = ret ∧ args.map Value.ty = c.params ∧
      (r.isSome ↔ ret ≠ .void)

/-- What translation assumes of LLVM. -/
structure Llvm.Lawful (llvm : Llvm) : Prop where
  /-- A text that defines and declares one name is refused, by the parser or the verifier. -/
  refuses : ∀ ir name, redefines ir = true → ∀ p, llvm.parse ir name = .ok p → llvm.verify p ≠ .ok ()
  /-- The text of a verifiable module that defines no name it declares is parsed and verified. -/
  accepts : ∀ m : Module, m.Verifiable → redefines m.render = false →
    ∃ p, llvm.parse m.render m.name = .ok p ∧ llvm.verify p = .ok ()

/-- An LLVM whose parser refuses exactly the texts that define and declare one name. -/
def Llvm.refusingRedefinitions : Llvm where
  Parsed := Unit
  parse ir _ := if redefines ir then .error "invalid redefinition of function" else .ok ()
  verify _ := .ok ()
  writeBitcode _ := ByteArray.empty

theorem Llvm.refusingRedefinitions_lawful : Llvm.refusingRedefinitions.Lawful where
  refuses ir name h p hp := by simp [refusingRedefinitions, h] at hp
  accepts m _ h := ⟨(), by simp [refusingRedefinitions, h], rfl⟩

variable {llvm : Llvm} {ir name : String}

/-- A text LLVM turned into bitcode was parsed and verified. -/
theorem irToBitcode_eq_ok {bytes : ByteArray} (h : irToBitcode llvm ir name = .ok bytes) :
    ∃ p, llvm.parse ir name = .ok p ∧ llvm.verify p = .ok () := by
  unfold irToBitcode at h
  cases hp : llvm.parse ir name with
  | error msg => simp [hp, bind, Except.bind, throw, throwThe, MonadExceptOf.throw] at h
  | ok p =>
    cases hv : llvm.verify p with
    | error msg =>
      simp [hp, hv, bind, Except.bind, pure, Except.pure, throw, throwThe, MonadExceptOf.throw] at h
    | ok u => exact ⟨p, rfl, hv⟩

theorem irToBitcode_of_verify {p : llvm.Parsed} (hp : llvm.parse ir name = .ok p)
    (hv : llvm.verify p = .ok ()) : irToBitcode llvm ir name = .ok (llvm.writeBitcode p) := by
  simp only [irToBitcode, hp, hv, bind, Except.bind, pure, Except.pure]

/-- A lawful LLVM refuses a text that defines and declares one name. -/
theorem Llvm.Lawful.irToBitcode_error (hl : llvm.Lawful) (hr : redefines ir = true) :
    ∃ e, irToBitcode llvm ir name = .error e := by
  cases hb : irToBitcode llvm ir name with
  | error e => exact ⟨e, rfl⟩
  | ok bytes =>
    obtain ⟨p, hp, hv⟩ := irToBitcode_eq_ok hb
    exact absurd hv (hl.refuses ir name hr p hp)

/-- A lawful LLVM takes the text of a verifiable module exactly when it defines no name it
declares. -/
theorem Llvm.Lawful.irToBitcode_ok_iff (hl : llvm.Lawful) {m : Module} (hm : m.Verifiable) :
    (∃ bytes, irToBitcode llvm m.render m.name = .ok bytes) ↔ redefines m.render = false := by
  constructor
  · rintro ⟨bytes, hb⟩
    cases hr : redefines m.render
    · rfl
    · obtain ⟨e, he⟩ : ∃ e, irToBitcode llvm m.render m.name = .error e := hl.irToBitcode_error hr
      rw [he] at hb
      cases hb
  · intro hr
    obtain ⟨p, hp, hv⟩ := hl.accepts m hm hr
    exact ⟨_, irToBitcode_of_verify hp hv⟩

/-! ### The names a text defines and declares -/

/-- A line that opens with neither `define` nor `declare`. -/
def NamesNothing (l : String) : Prop :=
  symbolAfter "define " l.toList = none ∧ symbolAfter "declare " l.toList = none

theorem symbolAfter_eq_none {keyword : String} {l : List Char}
    (h : keyword.toList.isPrefixOf l = false) : symbolAfter keyword l = none := by
  simp [symbolAfter, h]

theorem namesNothing_empty : NamesNothing "" := ⟨rfl, rfl⟩

/-- A line that starts with a character other than `d` names nothing. -/
theorem namesNothing_of_head {l : String} {c : Char} (h : l.toList.head? = some c) (hd : c ≠ 'd') :
    NamesNothing l := by
  obtain ⟨cs, hcs⟩ := List.head?_eq_some_iff.1 h
  refine ⟨symbolAfter_eq_none ?_, symbolAfter_eq_none ?_⟩ <;>
    simp [hcs, List.isPrefixOf_cons_cons, Ne.symm hd]

/-- A line without a blank names nothing: both keywords end in one. -/
theorem namesNothing_of_blank {l : String} (h : ' ' ∉ l.toList) : NamesNothing l := by
  have hkw : ∀ keyword : String, ' ' ∈ keyword.toList → keyword.toList.isPrefixOf l.toList = false :=
    fun keyword hk => by
      rw [Bool.eq_false_iff]
      intro hp
      exact h ((List.isPrefixOf_iff_prefix.1 hp).subset hk)
  exact ⟨symbolAfter_eq_none (hkw _ (by decide)), symbolAfter_eq_none (hkw _ (by decide))⟩

/-- A line that opens with the keyword names what stands between its first `@` and the `(`
after it. -/
theorem symbolAfter_eq_some {keyword : String} {pre n rest : List Char} (hk : keyword.toList <+: pre)
    (hpre : '@' ∉ pre) (hn : '(' ∉ n) :
    symbolAfter keyword (pre ++ '@' :: (n ++ '(' :: rest)) = some n := by
  have hk' : keyword.toList.isPrefixOf (pre ++ '@' :: (n ++ '(' :: rest)) = true :=
    List.isPrefixOf_iff_prefix.2 (hk.trans (List.prefix_append _ _))
  have hpre' : ∀ c ∈ pre, (c != '@') = true := fun c hc => bne_iff_ne.2 fun h => hpre (h ▸ hc)
  have hn' : ∀ c ∈ n, (c != '(') = true := fun c hc => bne_iff_ne.2 fun h => hn (h ▸ hc)
  rw [symbolAfter, if_pos hk', List.dropWhile_append_of_pos hpre', List.dropWhile_cons_of_neg (by simp),
    List.drop_one, List.tail_cons, List.takeWhile_append_of_pos hn']
  simp

/-- An identifier holds no character that may not follow its first. -/
theorem not_mem_of_isIdentifier {s : String} {c : Char} (h : isIdentifier s = true)
    (hc : (c.isAlphanum || c == '_' || c == '.' || c == '$' || c == '-') = false) : c ∉ s.toList := by
  unfold isIdentifier at h
  split at h
  · simp at h
  · rename_i c' rest hcs
    rw [hcs]
    obtain ⟨hhead, hrest⟩ := Bool.and_eq_true_iff.1 h
    rintro (_ | ⟨_, hr⟩)
    · simp_all [Char.isAlphanum]
    · rw [List.all_eq_true.1 hrest c hr] at hc
      cases hc

/-- A function's opening line defines its name. -/
theorem Function.symbolAfter_defineLine {f : Function} (hf : isIdentifier f.name = true)
    (group : Option Nat) :
    symbolAfter "define " (f.defineLine group).toList = some f.name.toList ∧
      symbolAfter "declare " (f.defineLine group).toList = none := by
  have hn : '(' ∉ f.name.toList := not_mem_of_isIdentifier hf (by decide)
  obtain ⟨rest, hrest⟩ : ∃ rest, (f.defineLine group).toList =
      "define void ".toList ++ '@' :: (f.name.toList ++ '(' :: rest) := by
    unfold Function.defineLine
    cases group with
    | some g => exact ⟨(") #" ++ toString g ++ " \x7b").toList, by simp⟩
    | none => exact ⟨") \x7b".toList, by simp⟩
  rw [hrest]
  exact ⟨symbolAfter_eq_some (by simp) (by decide) hn,
    symbolAfter_eq_none (by simp [List.isPrefixOf_cons_cons])⟩

/-- A declaration's line declares its name. -/
theorem Callee.symbolAfter_text {c : Callee} (hc : isIdentifier c.name = true) :
    symbolAfter "declare " c.text.toList = some c.name.toList ∧
      symbolAfter "define " c.text.toList = none := by
  have hn : '(' ∉ c.name.toList := not_mem_of_isIdentifier hc (by decide)
  have hret : '@' ∉ c.ret.text.toList := by cases c.ret <;> decide
  obtain ⟨rest, hrest⟩ : ∃ rest, c.text.toList =
      ("declare " ++ c.ret.text ++ " ").toList ++ '@' :: (c.name.toList ++ '(' :: rest) := by
    unfold Callee.text
    exact ⟨(String.intercalate ", " (c.params.map Ty.text) ++ ")").toList, by simp⟩
  rw [hrest]
  exact ⟨symbolAfter_eq_some (by simp) (by simpa using hret) hn,
    symbolAfter_eq_none (by simp [List.isPrefixOf_cons_cons])⟩

/-- An instruction line is indented. -/
theorem Instr.namesNothing_text (x : Instr) : NamesNothing x.text := by
  refine namesNothing_of_head (c := ' ') ?_ (by decide)
  cases x with
  | call c rt args r => cases r <;> simp [Instr.text]
  | br t => simp [Instr.text]
  | condBr c t e => simp [Instr.text]
  | ret => rfl

theorem namesNothing_headerLines (name : String) :
    ∀ l ∈ ["; ModuleID = '" ++ name ++ "'", "source_filename = \"" ++ name ++ "\"", "",
      "%Qubit = type opaque", "%Result = type opaque"], NamesNothing l := by
  simp only [List.mem_cons, List.not_mem_nil, or_false]
  rintro l (rfl | rfl | rfl | rfl | rfl)
  · exact namesNothing_of_head (c := ';') (by simp) (by decide)
  · exact namesNothing_of_head (c := 's') (by simp) (by decide)
  · exact namesNothing_empty
  · exact namesNothing_of_head (c := '%') (by simp) (by decide)
  · exact namesNothing_of_head (c := '%') (by simp) (by decide)

/-- The lines of a function's body name nothing when its labels are identifiers. -/
theorem Function.namesNothing_bodyLines {f : Function} (hlabels : ∀ b ∈ f.blocks, isIdentifier b.label = true) :
    ∀ l ∈ [""].intercalate (f.blocks.map Block.textLines) ++ ["\x7d"], NamesNothing l := by
  intro l hl
  rcases Function.mem_bodyLines hl with rfl | rfl | ⟨b, hb, rfl | ⟨x, -, rfl⟩⟩
  · exact namesNothing_empty
  · exact namesNothing_of_head (c := '\x7d') (by simp) (by decide)
  · refine namesNothing_of_blank ?_
    have hlabel := not_mem_of_isIdentifier (c := ' ') (hlabels b hb) (by decide)
    simpa using hlabel
  · exact Instr.namesNothing_text x

theorem namesNothing_flagLines (fs : List Flag) :
    ∀ l ∈ (if fs.isEmpty = true then []
      else "" :: flagsLine fs.length ::
        ((List.range fs.length).zip fs).map fun p => "!" ++ toString p.1 ++ " = " ++ p.2.text),
      NamesNothing l := by
  split
  · simp
  · simp only [List.mem_cons, List.mem_map]
    rintro l (rfl | rfl | ⟨p, -, rfl⟩)
    · exact namesNothing_empty
    · exact namesNothing_of_head (c := '!')
        (by unfold flagsLine; simp only [String.toList_append, List.head?_append]; simp) (by decide)
    · exact namesNothing_of_head (c := '!') (by simp) (by decide)

/-- Lines that name nothing contribute nothing to either list of names. -/
theorem filterMap_symbolAfter_of_namesNothing {keyword : String} (hk : keyword = "define " ∨ keyword = "declare ") :
    ∀ {ls : List String}, (∀ l ∈ ls, NamesNothing l) → (ls.map String.toList).filterMap (symbolAfter keyword) = []
  | [], _ => rfl
  | l :: ls, h => by
    have hl : symbolAfter keyword l.toList = none := by
      rcases hk with rfl | rfl
      · exact (h l List.mem_cons_self).1
      · exact (h l List.mem_cons_self).2
    rw [List.map_cons, List.filterMap_cons_none hl,
      filterMap_symbolAfter_of_namesNothing hk fun l' hl' => h l' (List.mem_cons_of_mem l hl')]

/-- The lines of a function define its name and declare nothing. -/
theorem Function.symbolAfter_textLines {f : Function} (hf : isIdentifier f.name = true)
    (hlabels : ∀ b ∈ f.blocks, isIdentifier b.label = true) (group : Option Nat) :
    ((f.textLines group).map String.toList).filterMap (symbolAfter "define ") = [f.name.toList] ∧
      ((f.textLines group).map String.toList).filterMap (symbolAfter "declare ") = [] := by
  obtain ⟨hdef, hdecl⟩ := f.symbolAfter_defineLine hf group
  have hbody := f.namesNothing_bodyLines hlabels
  rw [Function.textLines, List.cons_append, List.map_cons, List.filterMap_cons_some hdef,
    List.filterMap_cons_none hdecl, filterMap_symbolAfter_of_namesNothing (Or.inl rfl) hbody,
    filterMap_symbolAfter_of_namesNothing (Or.inr rfl) hbody]
  exact ⟨rfl, rfl⟩

theorem Function.namesNothing_groupLine (f : Function) (i : Nat) : NamesNothing (f.groupLine i) :=
  namesNothing_of_head (c := 'a') (by simp [Function.groupLine]) (by decide)

/-- Functions written one after another, each after a blank line, define their names and declare
nothing. -/
theorem symbolAfter_functionLines : ∀ {ps : List (Function × Option Nat)},
    (∀ p ∈ ps, isIdentifier p.1.name = true ∧ ∀ b ∈ p.1.blocks, isIdentifier b.label = true) →
    ((ps.flatMap fun p => "" :: p.1.textLines p.2).map String.toList).filterMap (symbolAfter "define ") =
        ps.map (·.1.name.toList) ∧
      ((ps.flatMap fun p => "" :: p.1.textLines p.2).map String.toList).filterMap
        (symbolAfter "declare ") = []
  | [], _ => ⟨rfl, rfl⟩
  | p :: ps, h => by
    obtain ⟨hdef, hdecl⟩ :=
      p.1.symbolAfter_textLines (h p List.mem_cons_self).1 (h p List.mem_cons_self).2 p.2
    obtain ⟨ihdef, ihdecl⟩ := symbolAfter_functionLines fun q hq => h q (List.mem_cons_of_mem p hq)
    simp only [List.flatMap_cons, List.map_append, List.map_cons, List.filterMap_append,
      List.filterMap_cons_none namesNothing_empty.1, List.filterMap_cons_none namesNothing_empty.2,
      hdef, hdecl, ihdef, ihdecl]
    simp

theorem length_groupNumbers : ∀ (n : Nat) (fs : List Function), (groupNumbers n fs).length = fs.length
  | _, [] => rfl
  | n, f :: fs => by
    unfold groupNumbers
    split <;> simp [length_groupNumbers]

/-- **The names a module's text defines and declares.** The lines of the text of a plain module
open with `define` exactly its functions' names, and with `declare` exactly its declarations'. -/
theorem Module.Plain.names {m : Module} (hm : m.Plain) :
    (m.render.toList.splitOn '\n').filterMap (symbolAfter "define ") = m.functions.map (·.name.toList) ∧
      (m.render.toList.splitOn '\n').filterMap (symbolAfter "declare ") =
        m.declarations.map (·.name.toList) := by
  have hlines : ∀ l ∈ m.textLines, OneLine l := Module.oneLine_textLines hm.name
    (fun f hf => (hm.functions f hf).1) (fun c hc => oneLine_of_isIdentifier (hm.declarations c hc))
    hm.flags
  obtain ⟨hfdef, hfdecl⟩ := @symbolAfter_functionLines (m.functions.zip (groupNumbers 0 m.functions))
    fun p hp => (hm.functions p.1 (List.of_mem_zip hp).1).2
  have hfuns : (m.functions.zip (groupNumbers 0 m.functions)).map (·.1.name.toList) =
      m.functions.map (·.name.toList) := by
    rw [show (fun p : Function × Option Nat => p.1.name.toList) = (fun f : Function => f.name.toList) ∘ Prod.fst
      from rfl, ← List.map_map, List.map_fst_zip (by rw [length_groupNumbers])]
  -- the declarations, after a blank line when there are any
  have hdecls : (((if m.declarations.isEmpty then [] else "" :: m.declarations.map Callee.text).map
        String.toList).filterMap (symbolAfter "define ") = []) ∧
      (((if m.declarations.isEmpty then [] else "" :: m.declarations.map Callee.text).map
        String.toList).filterMap (symbolAfter "declare ") = m.declarations.map (·.name.toList)) := by
    have hc : ∀ c ∈ m.declarations, symbolAfter "declare " c.text.toList = some c.name.toList ∧
        symbolAfter "define " c.text.toList = none :=
      fun c hc => Callee.symbolAfter_text (hm.declarations c hc)
    split
    · rename_i hnil
      simp [List.isEmpty_iff.1 hnil]
    · rw [List.map_cons, List.filterMap_cons_none namesNothing_empty.1,
        List.filterMap_cons_none namesNothing_empty.2, List.map_map, List.filterMap_map,
        List.filterMap_map]
      -- unfold the compositions, or elaboration unfolds the reader of names instead
      simp only [Function.comp_def]
      exact ⟨List.filterMap_eq_nil_iff.2 fun c hc' => (hc c hc').2,
        List.filterMap_eq_map_iff_forall_eq_some.2 fun c hc' => (hc c hc').1⟩
  -- the attribute groups, a blank line and a group line each
  have hgroups : ∀ keyword : String, keyword = "define " ∨ keyword = "declare " →
      (((List.range (m.functions.filter fun f => !f.attributes.isEmpty).length).zip
        (m.functions.filter fun f => !f.attributes.isEmpty)).flatMap
          (fun p => ["", p.2.groupLine p.1]) |>.map String.toList).filterMap (symbolAfter keyword) = [] :=
    fun keyword hk => filterMap_symbolAfter_of_namesNothing hk fun l hl => by
      obtain ⟨p, -, hl⟩ := List.mem_flatMap.1 hl
      simp only [List.mem_cons, List.not_mem_nil, or_false] at hl
      rcases hl with rfl | rfl
      · exact namesNothing_empty
      · exact p.2.namesNothing_groupLine p.1
  rw [Module.render_eq_unlines, splitOn_unlines hlines]
  unfold Module.textLines
  simp only [List.map_append, List.filterMap_append]
  rw [filterMap_symbolAfter_of_namesNothing (Or.inl rfl) (namesNothing_headerLines m.name),
    filterMap_symbolAfter_of_namesNothing (Or.inr rfl) (namesNothing_headerLines m.name),
    filterMap_symbolAfter_of_namesNothing (Or.inl rfl) (namesNothing_flagLines m.flags),
    filterMap_symbolAfter_of_namesNothing (Or.inr rfl) (namesNothing_flagLines m.flags),
    hgroups _ (Or.inl rfl), hgroups _ (Or.inr rfl), hfdef, hfdecl, hfuns, hdecls.1, hdecls.2]
  -- and the empty text after the last line break
  have hend : ∀ keyword : String, keyword = "define " ∨ keyword = "declare " →
      [([] : List Char)].filterMap (symbolAfter keyword) = [] :=
    fun keyword hk => @filterMap_symbolAfter_of_namesNothing keyword hk [""] (by simp [namesNothing_empty])
  rw [hend _ (Or.inl rfl), hend _ (Or.inr rfl)]
  simp only [List.nil_append, List.append_nil, and_self]

/-- The text of a plain module defines and declares one name exactly when one of its functions
shares its name with one of its declarations. -/
theorem Module.Plain.redefines_render_iff {m : Module} (hm : m.Plain) :
    redefines m.render = true ↔ ∃ f ∈ m.functions, ∃ c ∈ m.declarations, c.name = f.name := by
  obtain ⟨hdef, hdecl⟩ := hm.names
  simp only [redefines, hdef, hdecl, List.any_eq_true, List.mem_map, List.contains_iff_mem]
  constructor
  · rintro ⟨_, ⟨f, hf, rfl⟩, c, hc, heq⟩
    exact ⟨f, hf, c, hc, String.toList_inj.1 heq⟩
  · rintro ⟨f, hf, c, hc, heq⟩
    exact ⟨_, ⟨f, hf, rfl⟩, c, hc, by rw [heq]⟩

end Ir

/-! ### Generated modules -/

/-- An identifier stays one when characters that may follow its first are appended. -/
theorem isIdentifier_append {a b : String} (ha : isIdentifier a = true)
    (hb : ∀ c ∈ b.toList, (c.isAlphanum || c == '_' || c == '.' || c == '$' || c == '-') = true) :
    isIdentifier (a ++ b) = true := by
  unfold isIdentifier at ha ⊢
  rw [String.toList_append]
  split at ha
  · cases ha
  · rename_i c rest hcs
    rw [hcs, List.cons_append]
    simp only [List.all_append, Bool.and_eq_true, List.all_eq_true] at ha ⊢
    exact ⟨ha.1, ha.2, hb⟩

theorem isIdentifier_append_toString {a : String} (ha : isIdentifier a = true) (n : Nat) :
    isIdentifier (a ++ toString n) = true :=
  isIdentifier_append ha fun c hc => by
    have hd : c.isDigit = true := Nat.isDigit_of_mem_toDigits (b := 10) (by decide) (by decide)
      (by simpa using hc)
    simp [Char.isAlphanum, hd]

/-- Every name lowering writes is an identifier. -/
theorem Symbol.isIdentifier_text (s : Symbol) : isIdentifier s.text = true := by
  have hdot : ∀ a : String, isIdentifier a = true → isIdentifier (a ++ ".") = true :=
    fun a ha => isIdentifier_append ha (by simp)
  cases s with
  | qubit q => exact isIdentifier_append_toString (by decide) q
  | result k => exact isIdentifier_append_toString (by decide) k
  | test r k => exact isIdentifier_append_toString (hdot _ (isIdentifier_append_toString (by decide) r)) k
  | zero => decide
  | entry => decide
  | cond r k => exact isIdentifier_append_toString (hdot _ (isIdentifier_append_toString (by decide) r)) k
  | body r => exact isIdentifier_append_toString (by decide) r
  | join r => exact isIdentifier_append_toString (by decide) r

variable {o : Options} {src : Source} {m : Module}

/-- A generated module is verifiable: it is plain, declares each name once, and its one function
is well formed with calls that agree with their declarations. -/
theorem generate_verifiable (h : generate o src = .ok m) : m.Verifiable := by
  obtain ⟨-, -, f, -, -, -, hf, hfs, hname, -, hparts, hlabels, -⟩ := generate_textLines h
  obtain ⟨f', hf', hwf⟩ := entryPoint?_generate_wellFormed h
  obtain ⟨f'', hf'', hnames, htyped, -⟩ := calls_typed_generate h
  rw [hf] at hf' hf''
  cases hf'; cases hf''
  have hruntime := (declarations_generate h hf).2
  refine ⟨⟨by rw [name_generate h]; exact oneLine_sanitizeModuleName _, ?_,
    fun c hc => Runtime.isIdentifier_name c (hruntime c hc), oneLine_flags_generate h⟩, ?_, ?_⟩
  · rw [hfs]
    rintro _ (_ | ⟨_, ⟨⟩⟩)
    refine ⟨hparts, hname ▸ isIdentifier_of_generate h, fun b hb => ?_⟩
    obtain ⟨sym, hsym⟩ := hlabels b hb
    exact hsym ▸ sym.isIdentifier_text
  · rw [hnames]
    exact nodup_eraseDups _
  · rw [hfs]
    rintro _ (_ | ⟨_, ⟨⟩⟩)
    exact ⟨hwf, htyped⟩

/-- The text of a generated module defines and declares one name exactly when the module
declares its entry point. -/
theorem redefines_generate (h : generate o src = .ok m) :
    redefines m.render = true ↔ ∃ c ∈ m.declarations, c.name = o.entryPoint := by
  obtain ⟨-, -, f, -, -, -, -, hfs, hname, -⟩ := generate_textLines h
  rw [(generate_verifiable h).plain.redefines_render_iff, hfs]
  simp [hname]

variable {llvm : Llvm}

/-- **What a lawful LLVM lets through.** Under a lawful LLVM a translation succeeds exactly when
the module is generated and its entry point is no name it declares. -/
theorem translate_ok_iff (hllvm : llvm.Lawful) :
    (∃ g, translate llvm o src = .ok g) ↔
      ∃ m, generate o src = .ok m ∧ ∀ c ∈ m.declarations, c.name ≠ o.entryPoint := by
  constructor
  · rintro ⟨g, hg⟩
    obtain ⟨hm, -, -, hb⟩ := translate_eq_ok hg
    have hr := (hllvm.irToBitcode_ok_iff (generate_verifiable hm)).1 ⟨_, hb⟩
    refine ⟨g.module, hm, fun c hc heq => ?_⟩
    have := (redefines_generate hm).2 ⟨c, hc, heq⟩
    simp [hr] at this
  · rintro ⟨m, hm, hno⟩
    have hr : redefines m.render = false := by
      rw [Bool.eq_false_iff]
      intro hr
      obtain ⟨c, hc, heq⟩ := (redefines_generate hm).1 hr
      exact hno c hc heq
    obtain ⟨bytes, hb⟩ := (hllvm.irToBitcode_ok_iff (generate_verifiable hm)).2 hr
    exact ⟨_, translate_of_generate hm hb⟩

/-- Under a lawful LLVM a module that declares its entry point's name is refused as invalid IR. -/
theorem translate_eq_invalidIr (hllvm : llvm.Lawful) (h : generate o src = .ok m)
    (hdecl : ∃ c ∈ m.declarations, c.name = o.entryPoint) :
    ∃ msg, translate llvm o src = .error (.invalidIr msg) := by
  obtain ⟨e, he⟩ : ∃ e, irToBitcode llvm m.render m.name = .error e :=
    hllvm.irToBitcode_error ((redefines_generate h).2 hdecl)
  obtain ⟨msg, rfl⟩ := irToBitcode_eq_error he
  exact ⟨msg, translate_eq_error_iff.2 (.inr ⟨m, h, he⟩)⟩

/-- An entry point outside the runtime's names is never declared: under a lawful LLVM such a
translation succeeds exactly when the module is generated. -/
theorem translate_ok_iff_of_unreserved (hllvm : llvm.Lawful)
    (hpre : ¬ Runtime.reservedPrefix.toList <+: o.entryPoint.toList) :
    (∃ g, translate llvm o src = .ok g) ↔ ∃ m, generate o src = .ok m := by
  rw [translate_ok_iff hllvm]
  constructor
  · rintro ⟨m, hm, -⟩
    exact ⟨m, hm⟩
  · rintro ⟨m, hm⟩
    obtain ⟨f, -, -, -, hno⟩ := entryPoint_declared_iff hm
    exact ⟨m, hm, hno hpre⟩

/-- **No global is both defined and declared.** Under a lawful LLVM, the module of a successful
translation defines one function, the entry point, and declares no function of its name. -/
theorem entryPoint_not_declared (hllvm : llvm.Lawful) {g : Generated}
    (h : translate llvm o src = .ok g) :
    ∃ f, g.module.entryPoint? = some f ∧ g.module.functions = [f] ∧ f.name = o.entryPoint ∧
      ∀ c ∈ g.module.declarations, c.name ≠ f.name := by
  obtain ⟨hm, -⟩ := translate_eq_ok h
  obtain ⟨-, -, f, -, -, -, hf, hfs, hname, -⟩ := generate_textLines hm
  obtain ⟨m, hm', hno⟩ := (translate_ok_iff hllvm).1 ⟨g, h⟩
  rw [hm] at hm'
  cases hm'
  exact ⟨f, hf, hfs, hname, hname ▸ hno⟩

/-- The Bell pair under the default options translates under an LLVM that refuses
redefinitions, into a module that does not declare its entry point. -/
theorem entryPoint_not_declared_bell : Llvm.refusingRedefinitions.Lawful ∧
    ∃ g, translate Llvm.refusingRedefinitions (Options.ofProfile .base) Program.bell.toSource = .ok g ∧
      ∃ f, g.module.entryPoint? = some f ∧ g.module.functions = [f] ∧ f.name = "main" ∧
        ∀ c ∈ g.module.declarations, c.name ≠ f.name := by
  obtain ⟨g, hg⟩ : ∃ g, translate Llvm.refusingRedefinitions (Options.ofProfile .base)
      Program.bell.toSource = .ok g :=
    (translate_ok_iff_of_unreserved Llvm.refusingRedefinitions_lawful (by decide)).2 ⟨_, rfl⟩
  exact ⟨Llvm.refusingRedefinitions_lawful, g, hg,
    entryPoint_not_declared Llvm.refusingRedefinitions_lawful hg⟩

end QirGen
