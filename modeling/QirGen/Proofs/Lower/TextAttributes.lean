import QirGen.Proofs.Ir.OneLine
import QirGen.Proofs.Lower.WellFormed
import QirGen.Proofs.Lower.Symbols
import QirGen.Proofs.Lower.Stable
import QirGen.Proofs.Lower.Recording

/-!
# The entry attributes a translated module's text gives back

A consumer of a module's text finds the entry point's attributes with
`AttributeScan.entryAttributes`, a scanner of lines. For a translated module it finds the
module's own (`entryAttributes_text`), from `AttributeScan.entryAttributes_render` and the facts
that lowering supplies: the module defines one function, the entry point; the module's name is
made safe and the entry point is an identifier; every label and bound name is a symbol and every
callee a runtime function, so that each line is one line (`Module.oneLine_textLines`) and no
label reads as a group or a definition; and the attributes `finish` sets hold no quote.
-/

namespace QirGen

open Ir Circuit Lowering
open AttributeScan (Passes passes_of_head)

/-! ### Names lowering writes -/

theorem Symbol.oneLine_text (s : Symbol) : OneLine s.text := by
  cases s <;> simp [Symbol.text, testName, condLabel, thenLabel, continueLabel] <;> simp [OneLine]

/-- No label lowering writes reads as an attribute group or a definition: each starts with a
letter other than `a` and `d`. -/
theorem Symbol.passes_label (s : Symbol) : Passes (s.text ++ ":") := by
  cases s with
  | qubit q => exact passes_of_head (c := 'q') (by simp [Symbol.text]) rfl (by decide) (by decide)
  | result k => exact passes_of_head (c := 'r') (by simp [Symbol.text]) rfl (by decide) (by decide)
  | test r k =>
    exact passes_of_head (c := 'c') (by simp [Symbol.text, testName]) rfl (by decide) (by decide)
  | zero => exact passes_of_head (c := 'z') (by simp [Symbol.text]) rfl (by decide) (by decide)
  | entry => exact passes_of_head (c := 'e') (by simp [Symbol.text]) rfl (by decide) (by decide)
  | cond r k =>
    exact passes_of_head (c := 'c') (by simp [Symbol.text, condLabel]) rfl (by decide) (by decide)
  | body r =>
    exact passes_of_head (c := 't') (by simp [Symbol.text, thenLabel]) rfl (by decide) (by decide)
  | join r =>
    exact passes_of_head (c := 'c') (by simp [Symbol.text, continueLabel]) rfl (by decide) (by decide)

namespace Runtime

theorem oneLine_name : ∀ c ∈ callees, OneLine c.name := by
  simp [callees, h, x, y, z, s, sAdj, t, tAdj, rx, ry, rz, cnot, cz, swap, ccx, reset, barrier, mz, m,
    readResult, qubitAllocate, qubitRelease, arrayStartRecord, resultRecord, arrayEndRecord,
    resultGetZero, name_gate, OneLine]

end Runtime

/-- An identifier holds no line break: its characters are letters, digits and `_ . $ -`. -/
theorem oneLine_of_isIdentifier {s : String} (h : isIdentifier s = true) : OneLine s := by
  unfold isIdentifier at h
  intro hn
  split at h
  · simp at h
  · rename_i c rest hcs
    rw [hcs] at hn
    rcases List.mem_cons.1 hn with rfl | hn
    · simp at h
    · have hrest := List.all_eq_true.1 (Bool.and_eq_true_iff.1 h).2 '\n' hn
      simp at hrest

/-- A module name made safe holds no line break, a control character. -/
theorem oneLine_sanitizeModuleName (s : String) : OneLine (sanitizeModuleName s) := by
  unfold sanitizeModuleName
  dsimp only
  split
  · decide
  · simp only [OneLine, String.toList_map, List.mem_map, not_exists, not_and]
    intro c _ hc
    split at hc
    · exact absurd hc (by decide)
    · rename_i hcontrol
      subst hc
      exact hcontrol (by decide)

/-- The options of a successful generation name an identifier as entry point. -/
theorem isIdentifier_of_generate {o : Options} {src : Source} {m : Module}
    (h : generate o src = .ok m) : isIdentifier o.entryPoint = true := by
  simp only [generate] at h
  obtain ⟨⟨⟩, hv, -⟩ := bind_eq_ok.1 h
  unfold Options.validate at hv
  split at hv
  · assumption
  · cases hv

/-- A successful generation lowers and records from its start to a state that writes at the
end of its one function, the entry point, and finishes the module from that state. -/
theorem generate_at_end {o : Options} {src : Source} {m : Module} (h : generate o src = .ok m) :
    ∃ s₁ s, lowerFrom src 0 src.count (translateStart o src) = .ok s₁ ∧ s₁.recordOutputs = .ok s ∧
      m = s.finish o.emitModuleFlags ∧ s.profile = o.profile ∧
      ∃ done cur, s.builder.At o.entryPoint done cur [] := by
  simp only [generate] at h
  obtain ⟨⟨⟩, -, h⟩ := bind_eq_ok.1 h
  obtain ⟨s₁, h₁, h⟩ := bind_eq_ok.1 h
  obtain ⟨s, h₂, h⟩ := bind_eq_ok.1 h
  simp only [pure, Except.pure, Except.ok.injEq] at h
  subst h
  refine ⟨s₁, s, h₁, h₂, rfl, ?_⟩
  have hl := lowerFrom_eq_ok h₁
  rw [← List.range_eq_range'] at hl
  -- the state lowering ends in writes at the end of the entry function, under either profile
  cases hp : o.profile with
  | base =>
    rw [hp] at hl
    have hs₁ := (baseState_new _).lowerList hl
    obtain ⟨s', hrec, -, hprof, hb⟩ := recordOutputs_static hs₁.handles hs₁.at_entry
    obtain rfl : s = s' := by rw [hrec] at h₂; exact (Except.ok.inj h₂).symm
    exact ⟨hprof.trans hs₁.profile_eq, _, _, hb⟩
  | adaptive =>
    rw [hp] at hl
    obtain ⟨hs₁, -⟩ := (adaptiveState_new _ src.qubitCount).lowerList hl
    obtain ⟨done, cur, hb, -⟩ := hs₁.at_end
    obtain ⟨s', hrec, -, hprof, -, hb'⟩ := recordOutputs_dynamic hs₁.handles hb
    obtain rfl : s = s' := by rw [hrec] at h₂; exact (Except.ok.inj h₂).symm
    exact ⟨hprof.trans hs₁.profile_eq, _, _, hb'⟩

/-- The callees an entry function of a generated module names are runtime functions, whose
names are one line. -/
theorem oneLine_callee_generate {o : Options} {src : Source} {m : Module}
    (h : generate o src = .ok m) {f : Function} (hf : m.entryPoint? = some f) :
    ∀ x ∈ f.instrs, ∀ c, x.callee? = some c → OneLine c := by
  intro x hx c hc
  obtain ⟨d, hd, rfl⟩ := (declared_iff_called h hf c).2 ⟨x, hx, hc⟩
  exact Runtime.oneLine_name d ((declarations_generate h hf).2 d hd)

/-- A call on static operands writes one line when its callee's name is one line. -/
theorem Ir.Instr.IsStaticCall.oneLine_text {x : Instr} (hx : x.IsStaticCall)
    (hc : ∀ c, x.callee? = some c → OneLine c) : OneLine x.text :=
  Instr.oneLine_text hc (by simp [hx.2.1]) (by simp [hx.2.2]) (by simp [targets_of_isCall hx.1])

/-- The entry function of a generated module labels its blocks with symbols, and writes each
instruction on one line. -/
theorem entryPoint?_lines {o : Options} {src : Source} {m : Module} (h : generate o src = .ok m) :
    ∃ f, m.entryPoint? = some f ∧ (∀ b ∈ f.blocks, ∃ s : Symbol, b.label = s.text) ∧
      ∀ x ∈ f.instrs, OneLine x.text := by
  cases hp : o.profile with
  | base =>
    -- one block of static calls, closed by the return
    have hf := entryPoint?_base hp h
    refine ⟨_, hf, ?_, fun x hx => ?_⟩
    · simp only [List.mem_singleton]
      rintro b rfl
      exact ⟨.entry, rfl⟩
    have hcallee := oneLine_callee_generate h hf x hx
    obtain ⟨calls, hcalls, hEq⟩ := baseEpilogue_calls src.bitCount
    simp only [Function.instrs, List.flatMap_cons, List.flatMap_nil, List.append_nil, hEq,
      List.mem_append, List.mem_flatMap, List.mem_singleton] at hx
    rcases hx with ⟨i, -, hx⟩ | hx | rfl
    · exact (i.baseCalls_static x hx).oneLine_text hcallee
    · exact (hcalls x hx).oneLine_text hcallee
    · decide
  | adaptive =>
    -- a well-formed function whose labels and bound names are symbols
    obtain ⟨f, hf, -, -, hlines, hg⟩ := entryPoint?_generate_adaptive hp h
    have hwf : f.WellFormed := @Function.wellFormed_of_shaped (isJoin (guardedCount src.instructions)) f
      (by rw [hlines]; exact shaped_adaptive hg src.bitCount)
    have hlabels : ∀ b ∈ f.blocks, ∃ s : Symbol, b.label = s.text := by
      have hmap : f.blocks.map (·.label) =
          (Symbol.entry :: labelsFrom [] src.instructions).map Symbol.text := by
        rw [← labels_linesOf, hlines]
        simp [List.filterMap_append, labels_adaptiveLines hg, Line.label?, Symbol.text]
      intro b hb
      obtain ⟨s, -, hs⟩ := List.mem_map.1 (hmap ▸ List.mem_map_of_mem (f := Block.label) hb)
      exact ⟨s, hs.symm⟩
    have hbound : ∀ n ∈ f.boundNames, OneLine n := by
      have hadaptive := bound_adaptiveLines hg
      simp only [boundOf] at hadaptive
      have hmap : f.boundNames = (boundFrom [] src.instructions ++
          epilogueBound src.bitCount (measuredBits src.instructions)).map Symbol.text := by
        rw [Function.boundNames, Function.instrs_eq_of_lines hlines, List.filterMap_append,
          bound_adaptiveEpilogue, hadaptive, List.map_append]
      intro n hn
      rw [hmap] at hn
      obtain ⟨s, -, rfl⟩ := List.mem_map.1 hn
      exact Symbol.oneLine_text s
    refine ⟨f, hf, hlabels, hwf.oneLine_instrs (fun b hb => ?_) hbound (oneLine_callee_generate h hf)⟩
    obtain ⟨s, hs⟩ := hlabels b hb
    exact hs ▸ Symbol.oneLine_text s

theorem Lowering.entryAttributes_oneLine (s : Lowering) :
    ∀ a ∈ s.entryAttributes, OneLine a.key ∧ ∀ v ∈ a.value, OneLine v := by
  cases hp : s.profile <;>
    simp [Lowering.entryAttributes, hp, Profile.qirName, entryPointKey, requiredQubitsKey,
      requiredResultsKey, profilesKey] <;> simp [OneLine]

theorem Lowering.entryAttributes_quoteFree (s : Lowering) :
    ∀ a ∈ s.entryAttributes, '"' ∉ a.key.toList ∧ ∀ v ∈ a.value, '"' ∉ v.toList := by
  have hdigits : ∀ n : Nat, '"' ∉ Nat.toDigits 10 n := fun n hn =>
    absurd (Nat.isDigit_of_mem_toDigits (b := 10) (by decide) (by decide) hn) (by decide)
  cases hp : s.profile <;>
    simp [Lowering.entryAttributes, hp, Profile.qirName, entryPointKey, requiredQubitsKey,
      requiredResultsKey, profilesKey, hdigits]

/-- The entry attributes, sorted by key: the entry marker, the profile, and the counts. -/
theorem toSortedMap_entryAttributes (s : Lowering) :
    toSortedMap (s.entryAttributes.map fun a => (a.key, a.value)) =
      [(entryPointKey, none), (profilesKey, some s.profile.qirName),
        (requiredQubitsKey, some (toString s.handles.requiredQubits)),
        (requiredResultsKey, some (toString s.handles.requiredResults))] := by
  -- the keys compare as their texts do, each comparison decided once
  have hQE : ¬ requiredQubitsKey < entryPointKey := by decide
  have hRE : ¬ requiredResultsKey < entryPointKey := by decide
  have hRQ : ¬ requiredResultsKey < requiredQubitsKey := by decide
  have hPE : ¬ profilesKey < entryPointKey := by decide
  have hPQ : profilesKey < requiredQubitsKey := by decide
  have hQE' : requiredQubitsKey ≠ entryPointKey := by decide
  have hRE' : requiredResultsKey ≠ entryPointKey := by decide
  have hRQ' : requiredResultsKey ≠ requiredQubitsKey := by decide
  have hPE' : profilesKey ≠ entryPointKey := by decide
  simp only [Lowering.entryAttributes, List.map_cons, List.map_nil, toSortedMap, List.foldl_cons,
    List.foldl_nil, insertSorted, hQE, hRE, hRQ, hPE, hPQ, hQE', hRE', hRQ', hPE', if_false, if_true]

/-- The flags of a generated module have keys of one line. -/
theorem oneLine_flags_generate {o : Options} {src : Source} {m : Module}
    (h : generate o src = .ok m) : ∀ fl ∈ m.flags, OneLine fl.key := by
  rw [flags_generate h]
  split
  · simp only [List.mem_cons, List.not_mem_nil, or_false]
    rintro fl (rfl | rfl | rfl | rfl) <;> simp [OneLine]
  · simp

/-- A generated module holds one function, the entry point, finished from the lowering's last
state: its labels are symbols, its parts one line each, and so is every line of the module's
text. -/
theorem generate_textLines {o : Options} {src : Source} {m : Module} (h : generate o src = .ok m) :
    ∃ s₁ s f, lowerFrom src 0 src.count (translateStart o src) = .ok s₁ ∧ s₁.recordOutputs = .ok s ∧
      s.profile = o.profile ∧ m.entryPoint? = some f ∧ m.functions = [f] ∧ f.name = o.entryPoint ∧
      f.attributes = s.entryAttributes ∧ f.OneLineParts ∧
      (∀ b ∈ f.blocks, ∃ sym : Symbol, b.label = sym.text) ∧ ∀ l ∈ m.textLines, OneLine l := by
  obtain ⟨s₁, s, h₁, h₂, hg, hprof, done, cur, hb⟩ := generate_at_end h
  obtain ⟨f, hf, hlabels, hinstrs⟩ := entryPoint?_lines h
  -- the entry function is the module's one function, with the attributes `finish` sets
  have hF := entryPoint?_finish hb o.emitModuleFlags
  rw [← hg, hf, Option.some.injEq] at hF
  have hfs : m.functions = [f] := by rw [hg, finish_functions hb, hF]
  have hattrs : f.attributes = s.entryAttributes := by rw [hF]
  have hparts : f.OneLineParts :=
    ⟨by rw [hF]; exact oneLine_of_isIdentifier (isIdentifier_of_generate h),
      fun b hb => by obtain ⟨sym, hsym⟩ := hlabels b hb; exact hsym ▸ sym.oneLine_text,
      hinstrs, hattrs ▸ s.entryAttributes_oneLine⟩
  -- so every line of the text is one line
  have hlines : ∀ l ∈ m.textLines, OneLine l :=
    Module.oneLine_textLines (by rw [name_generate h]; exact oneLine_sanitizeModuleName _)
      (by rw [hfs]; simpa using hparts)
      (fun c hc => Runtime.oneLine_name c ((declarations_generate h hf).2 c hc))
      (oneLine_flags_generate h)
  exact ⟨s₁, s, f, h₁, h₂, hprof, hf, hfs, by rw [hF], hattrs, hparts, hlabels, hlines⟩

/-- **Reading the entry attributes back.** For every translation that succeeds, under either
profile, with any module name and any entry point the options accept, reading the entry
attributes back from the module's text gives the module's own: the entry marker, the profile's
name, and the decimals of the qubit and result counts of the lowering's final state; the
required counts read back from them are those counts, when they are 32-bit words. -/
theorem entryAttributes_text {llvm : Llvm} {o : Options} {src : Source} {g : Generated}
    (h : translate llvm o src = .ok g) :
    ∃ s₁ s, lowerFrom src 0 src.count (translateStart o src) = .ok s₁ ∧ s₁.recordOutputs = .ok s ∧
      AttributeScan.entryAttributes g.text = g.entryAttributes ∧
      g.entryAttributes = [(entryPointKey, none), (profilesKey, some o.profile.qirName),
        (requiredQubitsKey, some (toString s.handles.requiredQubits)),
        (requiredResultsKey, some (toString s.handles.requiredResults))] ∧
      (s.handles.requiredQubits < Word.size → g.requiredQubits = s.handles.requiredQubits) ∧
      (s.handles.requiredResults < Word.size → g.requiredResults = s.handles.requiredResults) := by
  obtain ⟨hm, htext, -⟩ := translate_eq_ok h
  obtain ⟨s₁, s, f, h₁, h₂, hprof, hf, hfs, -, hattrs, -, hlabels, hlines⟩ := generate_textLines hm
  -- every label is a symbol, read as neither a group nor a definition
  have hpasses : ∀ b ∈ f.blocks, AttributeScan.Passes (b.label ++ ":") := by
    intro b hb
    obtain ⟨sym, hsym⟩ := hlabels b hb
    rw [hsym]
    exact sym.passes_label
  have hentry : f.isEntryPoint = true := by
    simp [Function.isEntryPoint, Function.attribute?, hattrs, Lowering.entryAttributes]
  have hread := AttributeScan.entryAttributes_render hfs hentry hlines hpasses
    (hattrs ▸ s.entryAttributes_quoteFree)
  have hmap : g.entryAttributes = [(entryPointKey, none), (profilesKey, some o.profile.qirName),
      (requiredQubitsKey, some (toString s.handles.requiredQubits)),
      (requiredResultsKey, some (toString s.handles.requiredResults))] := by
    simp only [Generated.entryAttributes, Module.entryAttributes, hf]
    rw [hattrs, toSortedMap_entryAttributes, hprof]
  exact ⟨s₁, s, h₁, h₂, by rw [htext, hread]; rfl, hmap, required_eq hf hattrs⟩

/-- The Bell pair under the base profile, whose text gives back its entry attributes. -/
theorem entryAttributes_text_bell :
    ∃ g, translate Llvm.acceptingAll (Options.ofProfile .base) (Program.bell).toSource = .ok g ∧
      ∃ s₁ s, lowerFrom (Program.bell).toSource 0 (Program.bell).toSource.count
          (translateStart (Options.ofProfile .base) (Program.bell).toSource) = .ok s₁ ∧
        s₁.recordOutputs = .ok s ∧
        AttributeScan.entryAttributes g.text = g.entryAttributes ∧
        g.entryAttributes = [(entryPointKey, none), (profilesKey, some "base_profile"),
          (requiredQubitsKey, some (toString s.handles.requiredQubits)),
          (requiredResultsKey, some (toString s.handles.requiredResults))] ∧
        (s.handles.requiredQubits < Word.size → g.requiredQubits = s.handles.requiredQubits) ∧
        (s.handles.requiredResults < Word.size → g.requiredResults = s.handles.requiredResults) := by
  obtain ⟨g, hg⟩ : ∃ g, translate Llvm.acceptingAll (Options.ofProfile .base) (Program.bell).toSource =
      .ok g := ⟨_, rfl⟩
  exact ⟨g, hg, entryAttributes_text hg⟩

end QirGen
