import QirGen.Proofs.Ir.AttributeRead
import QirGen.Proofs.Ir.Cfg

/-!
# Texts of one line

A module's text reads back line by line (`splitOn_unlines`) when none of its lines holds a
line break. Most of a line is fixed text, numerals, and the seven-digit or hexadecimal form of
doubles, none of which holds one. What remains are names: of the module, of functions,
callees, values and labels, and the keys and values of attributes and flags.
`Module.oneLine_textLines` reduces every line of a module to those names, and
`Function.WellFormed.oneLine_instrs` reduces the names an instruction reads or branches to to
the names its function binds and labels.
-/

namespace QirGen
namespace Ir

instance : DecidablePred OneLine := fun s => inferInstanceAs (Decidable ('\n' ∉ s.toList))

@[simp] theorem oneLine_append (a b : String) : OneLine (a ++ b) ↔ OneLine a ∧ OneLine b := by
  simp [OneLine, String.toList_append, not_or]

theorem oneLine_ofList {cs : List Char} : OneLine (String.ofList cs) ↔ '\n' ∉ cs := by
  simp [OneLine]

@[simp] theorem oneLine_repr (n : Nat) : OneLine n.repr :=
  fun h => absurd (AttributeScan.isDigit_of_mem_toString h) (by decide)

@[simp] theorem oneLine_int_repr (i : Int) : OneLine i.repr := by
  cases i with
  | ofNat n => exact oneLine_repr n
  | negSucc n =>
    rw [Int.repr, oneLine_append]
    exact ⟨by decide, oneLine_repr _⟩

@[simp] theorem oneLine_toString_bool (b : Bool) : OneLine (toString b) := by
  cases b <;> decide

theorem oneLine_intercalate {sep : String} (hsep : OneLine sep) :
    ∀ {ss : List String}, (∀ s ∈ ss, OneLine s) → OneLine (sep.intercalate ss)
  | [], _ => by simp [OneLine]
  | [s], h => by simpa using h s (List.mem_singleton_self s)
  | s :: s' :: ss, h => by
    rw [String.intercalate_cons_cons, oneLine_append, oneLine_append]
    exact ⟨⟨h s List.mem_cons_self, hsep⟩,
      oneLine_intercalate hsep fun t ht => h t (List.mem_cons_of_mem s ht)⟩

end Ir

open Ir

/-! ### Numerals and doubles -/

/-- Hexadecimal digits hold no line break. -/
theorem Binary64.oneLine_hexDigits (x : Binary64) : OneLine x.hexDigits := by
  have hdigit : ∀ v < 16, (if v < 10 then Char.ofNat (48 + v) else Char.ofNat (55 + v)) ≠ '\n' := by
    decide
  rw [Binary64.hexDigits, oneLine_ofList, List.mem_map]
  rintro ⟨i, -, h⟩
  exact hdigit _ (Nat.mod_lt _ (by decide)) h

theorem Decimal.oneLine_digitString (n : Nat) : OneLine (Decimal.digitString n) := fun h =>
  absurd (Nat.isDigit_of_mem_toDigits (b := 10) (by decide) (by decide)
    (by simpa [Decimal.digitString] using h)) (by decide)

theorem Decimal.oneLine_sevenDigitText (d : Decimal) : OneLine d.sevenDigitText := by
  have hs := Decimal.oneLine_digitString d.digits
  have htake : '\n' ∉ (Decimal.digitString d.digits).toList.take 1 := fun h => hs (List.mem_of_mem_take h)
  have htail : '\n' ∉ (Decimal.digitString d.digits).toList.tail := fun h => hs (List.mem_of_mem_tail h)
  unfold Decimal.sevenDigitText
  dsimp only
  split_ifs <;> simp [oneLine_ofList, htake, htail, Decimal.oneLine_digitString] <;> simp [OneLine]

@[simp] theorem Binary64.oneLine_irText (x : Binary64) : OneLine x.irText := by
  unfold Binary64.irText
  dsimp only
  split_ifs <;> simp [Binary64.oneLine_hexDigits, Decimal.oneLine_sevenDigitText] <;> simp [OneLine]

namespace Ir

/-! ### Instructions and declarations -/

@[simp] theorem Ty.oneLine_text (t : Ty) : OneLine t.text := by
  cases t <;> decide

/-- A value's text is one line when the name it reads is. -/
theorem Value.oneLine_text {v : Value} (h : ∀ n, v.name? = some n → OneLine n) : OneLine v.text := by
  cases v with
  | named t n =>
    simp [Value.text, h n rfl]
    simp [OneLine]
  | _ =>
    simp [Value.text]
    simp [OneLine]

/-- An instruction's line is one line when the callee it names, the name it binds, the names
it reads and the labels it branches to are. -/
theorem Instr.oneLine_text {x : Instr} (hc : ∀ c, x.callee? = some c → OneLine c)
    (hb : ∀ n, x.bound? = some n → OneLine n) (hu : ∀ n ∈ x.uses, OneLine n)
    (ht : ∀ t ∈ x.targets, OneLine t) : OneLine x.text := by
  cases x with
  | call c rt args r =>
    have hargs : OneLine (", ".intercalate (args.map Value.text)) := by
      refine oneLine_intercalate (by decide) fun s hs => ?_
      obtain ⟨v, hv, rfl⟩ := List.mem_map.1 hs
      exact Value.oneLine_text fun n hn => hu n (List.mem_filterMap.2 ⟨v, hv, hn⟩)
    cases r with
    | some n =>
      simp [Instr.text, hc c rfl, hargs, hb n rfl]
      simp [OneLine]
    | none =>
      simp [Instr.text, hc c rfl, hargs]
      simp [OneLine]
  | br t =>
    simp [Instr.text, ht t (by simp [Instr.targets])]
    simp [OneLine]
  | condBr v t e =>
    have hv : OneLine v.text := Value.oneLine_text fun n hn => hu n (by simp [Instr.uses, hn])
    simp [Instr.text, hv, ht t (by simp [Instr.targets]), ht e (by simp [Instr.targets])]
    simp [OneLine]
  | ret => decide

theorem Callee.oneLine_text {c : Callee} (h : OneLine c.name) : OneLine c.text := by
  have hparams : OneLine (", ".intercalate (c.params.map Ty.text)) :=
    oneLine_intercalate (by decide) fun s hs => by
      obtain ⟨t, -, rfl⟩ := List.mem_map.1 hs
      exact Ty.oneLine_text t
  unfold Callee.text
  simp [h, hparams]
  simp [OneLine]

theorem Attribute.oneLine_text {a : Attribute} (hk : OneLine a.key) (hv : ∀ v ∈ a.value, OneLine v) :
    OneLine a.text := by
  obtain ⟨key, value⟩ := a
  cases value <;> simp_all [Attribute.text] <;> simp [OneLine]

theorem Flag.oneLine_text {fl : Flag} (h : OneLine fl.key) : OneLine fl.text := by
  obtain ⟨behavior, key, value⟩ := fl
  unfold Flag.text
  cases value <;> simp_all <;> simp [OneLine]

theorem oneLine_flagsLine (n : Nat) : OneLine (flagsLine n) := by
  have hnames : OneLine (", ".intercalate ((List.range n).map fun i => "!" ++ toString i)) :=
    oneLine_intercalate (by decide) fun s hs => by
      obtain ⟨i, -, rfl⟩ := List.mem_map.1 hs
      rw [oneLine_append]
      exact ⟨by decide, oneLine_repr i⟩
  unfold flagsLine
  rw [oneLine_append, oneLine_append]
  exact ⟨⟨by simp [OneLine], hnames⟩, by decide⟩

/-! ### Functions and modules -/

/-- The parts of a function its lines write, each one line. -/
structure Function.OneLineParts (f : Function) : Prop where
  name : OneLine f.name
  labels : ∀ b ∈ f.blocks, OneLine b.label
  instrs : ∀ x ∈ f.instrs, OneLine x.text
  attributes : ∀ a ∈ f.attributes, OneLine a.key ∧ ∀ v ∈ a.value, OneLine v

theorem Function.OneLineParts.textLines {f : Function} (h : f.OneLineParts) (group : Option Nat) :
    ∀ l ∈ f.textLines group, OneLine l := by
  intro l hl
  rw [Function.textLines, List.cons_append] at hl
  rcases List.mem_cons.1 hl with rfl | hl
  · unfold Function.defineLine
    cases group with
    | some g =>
      simp [h.name]
      simp [OneLine]
    | none =>
      simp [h.name]
      simp [OneLine]
  · rcases Function.mem_bodyLines hl with rfl | rfl | ⟨b, hb, rfl | ⟨x, hx, rfl⟩⟩
    · decide
    · decide
    · simp [h.labels b hb]
      simp [OneLine]
    · exact h.instrs x (List.mem_flatMap.2 ⟨b, hb, hx⟩)

theorem Function.OneLineParts.groupLine {f : Function} (h : f.OneLineParts) (i : Nat) :
    OneLine (f.groupLine i) := by
  have hattrs : OneLine (" ".intercalate (f.attributes.map Attribute.text)) :=
    oneLine_intercalate (by decide) fun s hs => by
      obtain ⟨a, ha, rfl⟩ := List.mem_map.1 hs
      exact Attribute.oneLine_text (h.attributes a ha).1 (h.attributes a ha).2
  simp [Function.groupLine, hattrs]
  simp [OneLine]

/-- **The lines of a module are one line each** when the names it writes are. -/
theorem Module.oneLine_textLines {m : Module} (hname : OneLine m.name)
    (hfuns : ∀ f ∈ m.functions, f.OneLineParts) (hdecls : ∀ c ∈ m.declarations, OneLine c.name)
    (hflags : ∀ fl ∈ m.flags, OneLine fl.key) : ∀ l ∈ m.textLines, OneLine l := by
  intro l hl
  simp only [Module.textLines, List.mem_append] at hl
  rcases hl with (((hl | hl) | hl) | hl) | hl
  · -- the header
    simp only [List.mem_cons, List.not_mem_nil, or_false] at hl
    rcases hl with rfl | rfl | rfl | rfl | rfl
    · simp [hname]
      simp [OneLine]
    · simp [hname]
      simp [OneLine]
    · decide
    · simp [OneLine]
    · simp [OneLine]
  · -- each function after a blank line
    obtain ⟨p, hp, hl⟩ := List.mem_flatMap.1 hl
    rcases List.mem_cons.1 hl with rfl | hl
    · decide
    · exact (hfuns p.1 (List.of_mem_zip hp).1).textLines p.2 l hl
  · -- the declarations
    split at hl
    · simp at hl
    · rcases List.mem_cons.1 hl with rfl | hl
      · decide
      · obtain ⟨c, hc, rfl⟩ := List.mem_map.1 hl
        exact Callee.oneLine_text (hdecls c hc)
  · -- each attribute group after a blank line
    obtain ⟨p, hp, hl⟩ := List.mem_flatMap.1 hl
    have hf := hfuns p.2 (List.mem_filter.1 (List.of_mem_zip hp).2).1
    simp only [List.mem_cons, List.not_mem_nil, or_false] at hl
    rcases hl with rfl | rfl
    · decide
    · exact hf.groupLine p.1
  · -- the flags
    split at hl
    · simp at hl
    · simp only [List.mem_cons, List.mem_map] at hl
      rcases hl with rfl | rfl | ⟨p, hp, rfl⟩
      · decide
      · exact oneLine_flagsLine _
      · simp [Flag.oneLine_text (hflags p.2 (List.of_mem_zip hp).2)]
        simp [OneLine]

/-- In a well-formed function, every instruction's line is one line when the labels, the
bound names and the callees are: a name read is bound, and a branch goes to a label. -/
theorem Function.WellFormed.oneLine_instrs {f : Function} (hwf : f.WellFormed)
    (hlabels : ∀ b ∈ f.blocks, OneLine b.label) (hbound : ∀ n ∈ f.boundNames, OneLine n)
    (hcallee : ∀ x ∈ f.instrs, ∀ c, x.callee? = some c → OneLine c) :
    ∀ x ∈ f.instrs, OneLine x.text := by
  intro x hx
  obtain ⟨b, hb, hxb⟩ := List.mem_flatMap.1 hx
  obtain ⟨j, hj⟩ := List.mem_iff_getElem?.1 hb
  obtain ⟨p, hp⟩ := List.mem_iff_getElem?.1 hxb
  have hbinds : ∀ c ∈ f.blocks, ∀ i ∈ c.instrs, ∀ n, i.bound? = some n → OneLine n :=
    fun c hc i hi n hn => hbound n (List.mem_filterMap.2 ⟨i, List.mem_flatMap.2 ⟨c, hc, hi⟩, hn⟩)
  refine Instr.oneLine_text (hcallee x hx) (hbinds b hb x hxb) (fun n hn => ?_) (fun t ht => ?_)
  · -- a name read is bound earlier in the block or in a block that dominates it
    rcases hwf.uses_bound j b hj p x hp n hn with ⟨q, -, i', hq, hi'⟩ | ⟨d, -, -, c, hd, i', hi', hbi'⟩
    · exact hbinds b hb i' (List.mem_of_getElem? hq) n hi'
    · exact hbinds c (List.mem_of_getElem? hd) i' hi' n hbi'
  · -- a branch goes to the label of a later block
    obtain ⟨k, c, -, hk, rfl⟩ := hwf.forward j b hj x hxb t ht
    exact hlabels c (List.mem_of_getElem? hk)

end Ir
end QirGen
