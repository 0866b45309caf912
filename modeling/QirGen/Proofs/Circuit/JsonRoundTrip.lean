import QirGen.Proofs.Json.Numbers
import QirGen.Circuit.Json

/-!
# Programs read back from their JSON text

Over every lawful JSON library (`SerdeJson.Lawful`), the JSON text of a program is read back
field by field: each record is one `Member` per field that `toJson` writes, each list is read
item by item, and every number is read as the text spells it (`Program.toJson_reads`). What
comes back is `Program.reread`: the program itself when every index fits its word, with each
parameter replaced by what the library reads back from its text (`SerdeJson.floatBack`,
`Program.ofJson_toJson`).

So a program reads back as itself exactly when its words fit and each parameter's text reads
back as that parameter (`Program.ofJson_toJson_eq_ok_iff`), and a parameter that is not finite
is written `null` and refused. The library the programs are built with reads a float by
rounding twice, so the second condition can fail for a finite parameter too:
`0.9709173122999235` comes back one unit in the last place higher (`Program.ofJson_toJson_rx`).
-/

namespace QirGen
namespace Circuit

open Json

variable {json : SerdeJson} {reads : {α : Type} → json.Reader α → List Char → Option α → Nat → Prop}

/-! ### Arrays -/

theorem mapM_snd_map {α β : Type} (f : α → List Char) (g : α → Option β) :
    ∀ xs : List α, (xs.map fun a => (f a, g a)).mapM Prod.snd = xs.mapM g
  | [] => rfl
  | x :: xs => by simp [List.mapM_cons, mapM_snd_map f g xs]

/-- A JSON array whose items are written by `text` is read item by item: each item's text
opens an item and is read as `value` gives, so the array is read as `mapM value`. -/
theorem arrayText_reads (hjson : json.Lawful reads) {α β : Type} {item : json.Reader β} {d : Nat}
    (text : α → String) (value : α → Option β)
    (hitem : ∀ a, Opens (text a).toList ∧ reads item (text a).toList (value a) d) (xs : List α) :
    reads (json.list item) ("[" ++ String.intercalate "," (xs.map text) ++ "]").toList
      (xs.mapM value) (d + 1) := by
  have h := hjson.list (xs.map fun a => ((text a).toList, value a)) (by
    intro p hp
    obtain ⟨a, -, rfl⟩ := List.mem_map.1 hp
    exact hitem a)
  rw [List.map_map, mapM_snd_map] at h
  simpa [itemsText_eq_intercalate, Function.comp_def] using h

/-! ### Words -/

theorem mapM_wordOf (bits : Nat) : ∀ xs : List Nat,
    xs.mapM (wordOf bits) = if ∀ n ∈ xs, n < Nat.pow 2 bits then some xs else none
  | [] => rfl
  | x :: xs => by
    rw [List.mapM_cons, mapM_wordOf bits xs]
    by_cases hx : x < Nat.pow 2 bits
    · rw [wordOf, if_pos hx]
      by_cases hxs : ∀ n ∈ xs, n < Nat.pow 2 bits
      · have hall : ∀ n ∈ x :: xs, n < Nat.pow 2 bits := List.forall_mem_cons.2 ⟨hx, hxs⟩
        rw [if_pos hxs, if_pos hall]
        rfl
      · have hall : ¬∀ n ∈ x :: xs, n < Nat.pow 2 bits := fun h => hxs (List.forall_mem_cons.1 h).2
        rw [if_neg hxs, if_neg hall]
        rfl
    · have hall : ¬∀ n ∈ x :: xs, n < Nat.pow 2 bits := fun h => hx (List.forall_mem_cons.1 h).1
      rw [wordOf, if_neg hx, if_neg hall]
      rfl

/-- A list of numbers is read back as words when every one fits. -/
theorem natsText_reads (hjson : json.Lawful reads) {bits : Nat} (hbits : bits ≤ 64) (xs : List Nat) :
    reads (json.list (json.unsigned bits)) (natsText xs).toList (xs.mapM (wordOf bits)) 1 :=
  arrayText_reads hjson toString (wordOf bits) (fun n => ⟨opens_toString n, hjson.unsigned n hbits⟩) xs

/-! ### Members -/

/-- A member whose field reads a value and stores it in the draft is read through that field:
the draft gets what the value's reader gives from the member's text. -/
theorem Member.readBy_field (hjson : json.Lawful reads) {σ α β : Type} {r : Record json.Reader σ α}
    {key : String} {index : Nat} {optional : Bool} {read : json.Reader β} {set : σ → β → σ}
    {t : List Char} {o : Option β} {d : Nat} (hkey : plainKey key = true)
    (hindex : r.fields.findIdx? (·.name == key) = some index)
    (hfield : r.fields[index]? = some ⟨key, optional, fun x => read >>= fun v => pure (set x v)⟩)
    (hread : reads read t o d) :
    Member.ReadBy reads ⟨key, t, index, fun x => o.map (set x)⟩ r d :=
  ⟨hkey, hindex, _, hfield, fun x => hjson.store (set x) hread⟩

/-- A member written only when its list is not empty is that member. -/
theorem eq_of_mem_ite_nil {α : Type} {c : Prop} [Decidable c] {a b : α}
    (h : a ∈ (if c then [] else [b])) : a = b := by
  split at h
  · simp at h
  · exact List.mem_singleton.1 h

/-! ### Registers -/

/-- A register is read back when its offset and size are 32-bit words. -/
def Register.FitsWords (r : Register) : Prop := r.offset < Nat.pow 2 32 ∧ r.size < Nat.pow 2 32

instance (r : Register) : Decidable r.FitsWords := inferInstanceAs (Decidable (_ ∧ _))

/-- What reading a register's text gives. -/
def Register.reread (r : Register) : Option Register := if r.FitsWords then some r else none

/-- The members of a register's JSON text. -/
def Register.members (json : SerdeJson) (r : Register) : List (Member RegisterDraft) :=
  [⟨"name", (json.quote r.name).toList, 0, fun x => (some r.name).map fun v => { x with name := some v }⟩,
   ⟨"offset", (toString r.offset).toList, 1,
      fun x => (wordOf 32 r.offset).map fun v => { x with offset := some v }⟩,
   ⟨"size", (toString r.size).toList, 2,
      fun x => (wordOf 32 r.size).map fun v => { x with size := some v }⟩]

theorem Register.toJson_toList (r : Register) :
    (r.toJson json).toList = '{' :: itemsText true ((r.members json).map Member.written) ++ ['}'] := by
  unfold Register.toJson
  simp [Register.members, Member.written, itemsText]

theorem Register.members_readBy (hjson : json.Lawful reads) (r : Register) :
    ∀ m ∈ r.members json, m.ReadBy reads (Register.record json) 0 := by
  intro m hm
  simp only [Register.members, List.mem_cons, List.not_mem_nil, or_false] at hm
  rcases hm with rfl | rfl | rfl
  · exact Member.readBy_field hjson (by decide) rfl rfl (hjson.string r.name)
  · exact Member.readBy_field hjson (by decide) rfl rfl (hjson.unsigned r.offset (by decide))
  · exact Member.readBy_field hjson (by decide) rfl rfl (hjson.unsigned r.size (by decide))

theorem Register.applyAll_members (r : Register) :
    ((Member.applyAll (r.members json) (Register.record json).empty).bind
      fun x => ((Register.record json).complete x).toOption) = r.reread := by
  by_cases ho : r.offset < Nat.pow 2 32
  · by_cases hs : r.size < Nat.pow 2 32
    · simp [Member.applyAll, Register.members, wordOf, ho, hs, Register.reread,
        Register.FitsWords, Register.record, need]
      rfl
    · simp [Member.applyAll, Register.members, wordOf, ho, hs, Register.reread, Register.FitsWords]
  · simp [Member.applyAll, Register.members, wordOf, ho, Register.reread, Register.FitsWords]

/-- The JSON text of a register is read back as the register, when its numbers are words. -/
theorem Register.toJson_reads (hjson : json.Lawful reads) (r : Register) :
    reads (json.record (Register.record json)) (r.toJson json).toList r.reread 1 := by
  rw [Register.toJson_toList, ← Register.applyAll_members]
  exact hjson.record (r.members json) (r.members_readBy hjson) (by simp [Register.members])

/-! ### Conditions -/

/-- A condition is read back when its bits are 32-bit words and its value a 64-bit word. -/
def Condition.FitsWords (c : Condition) : Prop :=
  (∀ b ∈ c.bits, b < Nat.pow 2 32) ∧ c.value < Nat.pow 2 64

instance (c : Condition) : Decidable c.FitsWords := inferInstanceAs (Decidable (_ ∧ _))

/-- What reading a condition's text gives. -/
def Condition.reread (c : Condition) : Option Condition := if c.FitsWords then some c else none

/-- The members of a condition's JSON text. -/
def Condition.members (c : Condition) : List (Member ConditionDraft) :=
  [⟨"clbits", (natsText c.bits).toList, 0,
      fun x => (c.bits.mapM (wordOf 32)).map fun v => { x with bits := some v }⟩,
   ⟨"value", (toString c.value).toList, 1,
      fun x => (wordOf 64 c.value).map fun v => { x with value := some v }⟩]

theorem Condition.toJson_toList (c : Condition) :
    c.toJson.toList = '{' :: itemsText true (c.members.map Member.written) ++ ['}'] := by
  unfold Condition.toJson
  simp [Condition.members, Member.written, itemsText]

theorem Condition.members_readBy (hjson : json.Lawful reads) (c : Condition) :
    ∀ m ∈ c.members, m.ReadBy reads (Condition.record json) 1 := by
  intro m hm
  simp only [Condition.members, List.mem_cons, List.not_mem_nil, or_false] at hm
  rcases hm with rfl | rfl
  · exact Member.readBy_field hjson (by decide) rfl rfl (natsText_reads hjson (by decide) c.bits)
  · exact Member.readBy_field hjson (by decide) rfl rfl
      (hjson.mono (hjson.unsigned c.value (by decide)) (by decide))

theorem Condition.applyAll_members (c : Condition) :
    ((Member.applyAll c.members (Condition.record json).empty).bind
      fun x => ((Condition.record json).complete x).toOption) = c.reread := by
  by_cases hb : ∀ b ∈ c.bits, b < Nat.pow 2 32
  · have hbits : c.bits.mapM (wordOf 32) = some c.bits := by rw [mapM_wordOf, if_pos hb]
    by_cases hv : c.value < Nat.pow 2 64
    · have hvalue : wordOf 64 c.value = some c.value := if_pos hv
      simp only [Member.applyAll, Condition.members, hbits, hvalue, Condition.reread,
        if_pos (show c.FitsWords from ⟨hb, hv⟩)]
      rfl
    · have hvalue : wordOf 64 c.value = none := if_neg hv
      simp only [Member.applyAll, Condition.members, hbits, hvalue, Condition.reread,
        if_neg (show ¬c.FitsWords from fun h => hv h.2)]
      rfl
  · have hbits : c.bits.mapM (wordOf 32) = none := by rw [mapM_wordOf, if_neg hb]
    simp only [Member.applyAll, Condition.members, hbits, Condition.reread,
      if_neg (show ¬c.FitsWords from fun h => hb h.1)]
    rfl

/-- The JSON text of a condition is read back as the condition, when its numbers are words. -/
theorem Condition.toJson_reads (hjson : json.Lawful reads) (c : Condition) :
    reads (json.record (Condition.record json)) c.toJson.toList c.reread 2 := by
  rw [Condition.toJson_toList, ← Condition.applyAll_members]
  exact hjson.record c.members (c.members_readBy hjson) (by simp [Condition.members])

/-! ### Parameters -/

/-- The JSON array of the texts of parameters, each read back as the library reads it alone. -/
theorem paramsText_reads (hjson : json.Lawful reads) (ps : List Binary64) :
    reads (json.list json.float) ("[" ++ String.intercalate "," (ps.map json.floatText) ++ "]").toList
      (ps.mapM json.floatBack) 1 :=
  arrayText_reads hjson json.floatText json.floatBack
    (fun x => ⟨hjson.floatText_opens x, hjson.reads_floatBack x⟩) ps

/-! ### Instructions -/

/-- What reading an instruction's text gives, when each parameter's text reads back as `back`
says: its operands checked to be words, its parameters read back and its condition read
back. -/
def Instruction.reread (back : Binary64 → Option Binary64) (i : Instruction) : Option Instruction := do
  let qubits ← i.qubits.mapM (wordOf 32)
  let clbits ← i.clbits.mapM (wordOf 32)
  let params ← i.params.mapM back
  let condition ← i.condition.mapM Condition.reread
  pure { name := i.name, qubits, clbits, params, condition }

/-- The members of an instruction's JSON text; empty lists and an absent condition are left
out. -/
def Instruction.members (json : SerdeJson) (i : Instruction) : List (Member InstructionDraft) :=
  [⟨"name", (json.quote i.name).toList, 0, fun x => (some i.name).map fun v => { x with name := some v }⟩,
   ⟨"qubits", (natsText i.qubits).toList, 1,
      fun x => (i.qubits.mapM (wordOf 32)).map fun v => { x with qubits := some v }⟩] ++
  (if i.clbits.isEmpty then [] else
    [⟨"clbits", (natsText i.clbits).toList, 2,
      fun x => (i.clbits.mapM (wordOf 32)).map fun v => { x with clbits := v }⟩]) ++
  (if i.params.isEmpty then [] else
    [⟨"params", ("[" ++ String.intercalate "," (i.params.map json.floatText) ++ "]").toList, 3,
      fun x => (i.params.mapM json.floatBack).map fun v => { x with params := v }⟩]) ++
  i.condition.toList.map fun c =>
    ⟨"condition", c.toJson.toList, 4,
      fun x => (c.reread.map some).map fun v => { x with condition := v }⟩

theorem Instruction.toJson_toList (i : Instruction) :
    (i.toJson json).toList = '{' :: itemsText true ((i.members json).map Member.written) ++ ['}'] := by
  unfold Instruction.toJson
  obtain ⟨name, qubits, clbits, params, condition⟩ := i
  cases clbits <;> cases params <;> cases condition <;>
    simp [Instruction.members, Member.written, itemsText]

theorem Instruction.members_readBy (hjson : json.Lawful reads) (i : Instruction) :
    ∀ m ∈ i.members json, m.ReadBy reads (Instruction.record json) 2 := by
  intro m hm
  simp only [Instruction.members, List.mem_append, List.mem_cons, List.not_mem_nil, or_false,
    List.mem_map, Option.mem_toList] at hm
  rcases hm with (((rfl | rfl) | hcl) | hpa) | ⟨c, -, rfl⟩
  · exact Member.readBy_field hjson (by decide) rfl rfl
      (hjson.mono (hjson.string i.name) (by decide))
  · exact Member.readBy_field hjson (by decide) rfl rfl
      (hjson.mono (natsText_reads hjson (by decide) i.qubits) (by decide))
  · obtain rfl := eq_of_mem_ite_nil hcl
    exact Member.readBy_field hjson (by decide) rfl rfl
      (hjson.mono (natsText_reads hjson (by decide) i.clbits) (by decide))
  · obtain rfl := eq_of_mem_ite_nil hpa
    exact Member.readBy_field hjson (by decide) rfl rfl
      (hjson.mono (paramsText_reads hjson i.params) (by decide))
  · refine Member.readBy_field hjson (by decide) rfl rfl
      (hjson.option (Condition.toJson_reads hjson c) ?_)
    exact ⟨'{', _, by rw [Condition.toJson_toList]; rfl, by decide, by decide⟩

/-- Completing a draft needs its name and qubits. -/
theorem Instruction.complete_toOption (x : InstructionDraft) :
    ((Instruction.record json).complete x).toOption =
      x.name.bind fun name => x.qubits.map fun qubits =>
        { name, qubits, clbits := x.clbits, params := x.params, condition := x.condition } := by
  obtain ⟨_ | name, _ | qubits, clbits, params, condition⟩ := x <;> rfl

theorem Instruction.applyAll_members (i : Instruction) :
    ((Member.applyAll (i.members json) (Instruction.record json).empty).bind
      fun x => ((Instruction.record json).complete x).toOption) = i.reread json.floatBack := by
  obtain ⟨name, qubits, clbits, params, condition⟩ := i
  cases clbits <;> cases params <;> cases condition <;>
    simp [Member.applyAll, Instruction.members, Instruction.reread, Instruction.complete_toOption,
      show (Instruction.record json).empty = {} from rfl,
      Option.bind_map, Option.map_bind, Option.bind_assoc, Function.comp_def]

/-- The JSON text of an instruction is read back as `Instruction.reread` says. -/
theorem Instruction.toJson_reads (hjson : json.Lawful reads) (i : Instruction) :
    reads (json.record (Instruction.record json)) (i.toJson json).toList
      (i.reread json.floatBack) 3 := by
  rw [Instruction.toJson_toList, ← Instruction.applyAll_members]
  refine hjson.record (i.members json) (i.members_readBy hjson) ?_
  obtain ⟨name, qubits, clbits, params, condition⟩ := i
  cases clbits <;> cases params <;> cases condition <;> simp [Instruction.members]

/-! ### Programs -/

/-- What reading a program's text gives, when each parameter's text reads back as `back` says:
its counts and registers checked to be words, and each instruction read back. -/
def Program.reread (back : Binary64 → Option Binary64) (p : Program) : Option Program := do
  let numQubits ← wordOf 32 p.numQubits
  let numClbits ← wordOf 32 p.numClbits
  let qregs ← p.qregs.mapM Register.reread
  let cregs ← p.cregs.mapM Register.reread
  let instructions ← p.instructions.mapM (Instruction.reread back)
  pure { name := p.name, numQubits, numClbits, qregs, cregs, instructions }

/-- The JSON array of registers. -/
theorem registersText_reads (hjson : json.Lawful reads) (rs : List Register) :
    reads (json.list (json.record (Register.record json)))
      ("[" ++ String.intercalate "," (rs.map (Register.toJson json)) ++ "]").toList
      (rs.mapM Register.reread) 2 := by
  refine arrayText_reads hjson (Register.toJson json) Register.reread
    (fun r => ⟨?_, Register.toJson_reads hjson r⟩) rs
  rw [Register.toJson_toList, List.cons_append]
  exact opens_brace _

/-- The JSON array of instructions. -/
theorem instructionsText_reads (hjson : json.Lawful reads) (is : List Instruction) :
    reads (json.list (json.record (Instruction.record json)))
      ("[" ++ String.intercalate "," (is.map (Instruction.toJson json)) ++ "]").toList
      (is.mapM (Instruction.reread json.floatBack)) 4 := by
  refine arrayText_reads hjson (Instruction.toJson json) (Instruction.reread json.floatBack)
    (fun i => ⟨?_, Instruction.toJson_reads hjson i⟩) is
  rw [Instruction.toJson_toList, List.cons_append]
  exact opens_brace _

/-- The members of a program's JSON text; empty register lists are left out. -/
def Program.members (json : SerdeJson) (p : Program) : List (Member ProgramDraft) :=
  [⟨"name", (json.quote p.name).toList, 0, fun x => (some p.name).map fun v => { x with name := some v }⟩,
   ⟨"num_qubits", (toString p.numQubits).toList, 1,
      fun x => (wordOf 32 p.numQubits).map fun v => { x with numQubits := some v }⟩,
   ⟨"num_clbits", (toString p.numClbits).toList, 2,
      fun x => (wordOf 32 p.numClbits).map fun v => { x with numClbits := some v }⟩] ++
  (if p.qregs.isEmpty then [] else
    [⟨"qregs", ("[" ++ String.intercalate "," (p.qregs.map (Register.toJson json)) ++ "]").toList, 3,
      fun x => (p.qregs.mapM Register.reread).map fun v => { x with qregs := v }⟩]) ++
  (if p.cregs.isEmpty then [] else
    [⟨"cregs", ("[" ++ String.intercalate "," (p.cregs.map (Register.toJson json)) ++ "]").toList, 4,
      fun x => (p.cregs.mapM Register.reread).map fun v => { x with cregs := v }⟩]) ++
  [⟨"instructions",
      ("[" ++ String.intercalate "," (p.instructions.map (Instruction.toJson json)) ++ "]").toList, 5,
      fun x => (p.instructions.mapM (Instruction.reread json.floatBack)).map
        fun v => { x with instructions := some v }⟩]

theorem Program.toJson_toList (p : Program) :
    (p.toJson json).toList = '{' :: itemsText true ((p.members json).map Member.written) ++ ['}'] := by
  unfold Program.toJson
  obtain ⟨name, numQubits, numClbits, qregs, cregs, instructions⟩ := p
  cases qregs <;> cases cregs <;>
    simp [Program.members, Member.written, itemsText]

theorem Program.members_readBy (hjson : json.Lawful reads) (p : Program) :
    ∀ m ∈ p.members json, m.ReadBy reads (Program.record json) 4 := by
  intro m hm
  simp only [Program.members, List.mem_append, List.mem_cons, List.not_mem_nil, or_false] at hm
  rcases hm with (((rfl | rfl | rfl) | hq) | hc) | rfl
  · exact Member.readBy_field hjson (by decide) rfl rfl
      (hjson.mono (hjson.string p.name) (by decide))
  · exact Member.readBy_field hjson (by decide) rfl rfl
      (hjson.mono (hjson.unsigned p.numQubits (by decide)) (by decide))
  · exact Member.readBy_field hjson (by decide) rfl rfl
      (hjson.mono (hjson.unsigned p.numClbits (by decide)) (by decide))
  · obtain rfl := eq_of_mem_ite_nil hq
    exact Member.readBy_field hjson (by decide) rfl rfl
      (hjson.mono (registersText_reads hjson p.qregs) (by decide))
  · obtain rfl := eq_of_mem_ite_nil hc
    exact Member.readBy_field hjson (by decide) rfl rfl
      (hjson.mono (registersText_reads hjson p.cregs) (by decide))
  · exact Member.readBy_field hjson (by decide) rfl rfl
      (instructionsText_reads hjson p.instructions)

/-- Completing a draft needs its name, counts and instructions. -/
theorem Program.complete_toOption (x : ProgramDraft) :
    ((Program.record json).complete x).toOption =
      x.name.bind fun name => x.numQubits.bind fun numQubits => x.numClbits.bind fun numClbits =>
        x.instructions.map fun instructions =>
          { name, numQubits, numClbits, qregs := x.qregs, cregs := x.cregs, instructions } := by
  obtain ⟨_ | name, _ | numQubits, _ | numClbits, qregs, cregs, _ | instructions⟩ := x <;> rfl

theorem Program.applyAll_members (p : Program) :
    ((Member.applyAll (p.members json) (Program.record json).empty).bind
      fun x => ((Program.record json).complete x).toOption) = p.reread json.floatBack := by
  obtain ⟨name, numQubits, numClbits, qregs, cregs, instructions⟩ := p
  cases qregs <;> cases cregs <;>
    simp [Member.applyAll, Program.members, Program.reread, Program.complete_toOption,
      show (Program.record json).empty = {} from rfl, Option.bind_map, Option.map_bind,
      Option.bind_assoc, Function.comp_def]

/-- The JSON text of a program is read back as `Program.reread` says. -/
theorem Program.toJson_reads (hjson : json.Lawful reads) (p : Program) :
    reads (json.record (Program.record json)) (p.toJson json).toList (p.reread json.floatBack) 5 := by
  rw [Program.toJson_toList, ← Program.applyAll_members]
  refine hjson.record (p.members json) (p.members_readBy hjson) ?_
  obtain ⟨name, numQubits, numClbits, qregs, cregs, instructions⟩ := p
  cases qregs <;> cases cregs <;> simp [Program.members]

/-- Reading a program keeps what the library reads, up to the error it reports. -/
theorem Program.ofJson_toOption (s : String) :
    (Program.ofJson json s).toOption = (json.run (json.record (Program.record json)) s).toOption := by
  unfold Program.ofJson
  cases json.run (json.record (Program.record json)) s <;> rfl

/-- **Reading a program's JSON text.** The text a program writes is read back as
`Program.reread`: the counts, registers, operands and conditions are kept when they are words
and the text is refused otherwise, and every parameter is replaced by what the library reads
back from its text. -/
theorem Program.ofJson_toJson (hjson : json.Lawful reads) (p : Program) :
    (Program.ofJson json (p.toJson json)).toOption = p.reread json.floatBack := by
  rw [Program.ofJson_toOption]
  exact hjson.run (Program.toJson_reads hjson p) (by decide)

/-! ### When a program reads back as itself -/

theorem mapM_eq_some_self_iff {α : Type} {f : α → Option α} :
    ∀ xs : List α, xs.mapM f = some xs ↔ ∀ x ∈ xs, f x = some x
  | [] => by simp
  | x :: xs => by
    rw [List.mapM_cons, List.forall_mem_cons, ← mapM_eq_some_self_iff xs]
    cases f x <;> cases xs.mapM f <;> simp

theorem mapM_eq_none_of_mem {α β : Type} {f : α → Option β} {x : α} (hf : f x = none) :
    ∀ {xs : List α}, x ∈ xs → xs.mapM f = none
  | y :: ys, hx => by
    rw [List.mapM_cons]
    rcases List.mem_cons.1 hx with rfl | hx
    · rw [hf]
      rfl
    · rw [mapM_eq_none_of_mem hf hx]
      cases f y <;> rfl

theorem wordOf_eq_some_self_iff (bits n : Nat) : wordOf bits n = some n ↔ n < Nat.pow 2 bits := by
  unfold wordOf
  split <;> simp_all

theorem Register.reread_eq_some_iff (r : Register) : r.reread = some r ↔ r.FitsWords := by
  unfold Register.reread
  split <;> simp_all

theorem Condition.reread_eq_some_iff (c : Condition) : c.reread = some c ↔ c.FitsWords := by
  unfold Condition.reread
  split <;> simp_all

/-- An instruction's operands are 32-bit words and its condition, if any, has words. -/
def Instruction.FitsWords (i : Instruction) : Prop :=
  (∀ q ∈ i.qubits, q < Nat.pow 2 32) ∧ (∀ b ∈ i.clbits, b < Nat.pow 2 32) ∧
    ∀ c ∈ i.condition, c.FitsWords

instance (i : Instruction) : Decidable i.FitsWords := inferInstanceAs (Decidable (_ ∧ _ ∧ _))

/-- A program's counts are 32-bit words, and so are the numbers of its registers and
instructions. -/
def Program.FitsWords (p : Program) : Prop :=
  p.numQubits < Nat.pow 2 32 ∧ p.numClbits < Nat.pow 2 32 ∧ (∀ r ∈ p.qregs, r.FitsWords) ∧
    (∀ r ∈ p.cregs, r.FitsWords) ∧ ∀ i ∈ p.instructions, i.FitsWords

instance (p : Program) : Decidable p.FitsWords := inferInstanceAs (Decidable (_ ∧ _ ∧ _ ∧ _ ∧ _))

theorem Instruction.mapM_condition_eq_some_iff (co : Option Condition) :
    co.mapM Condition.reread = some co ↔ ∀ c ∈ co, c.FitsWords := by
  cases co with
  | none => simp
  | some c =>
    have h : (∀ c' ∈ some c, c'.FitsWords) ↔ c.FitsWords := by simp
    rw [h, ← Condition.reread_eq_some_iff]
    cases hc : c.reread <;> simp [hc]

theorem Instruction.reread_eq_some_iff (back : Binary64 → Option Binary64) (i : Instruction) :
    i.reread back = some i ↔ i.FitsWords ∧ ∀ x ∈ i.params, back x = some x := by
  obtain ⟨name, qubits, clbits, params, condition⟩ := i
  simp only [Instruction.FitsWords, ← mapM_eq_some_self_iff, ← wordOf_eq_some_self_iff,
    ← Instruction.mapM_condition_eq_some_iff]
  constructor
  · intro h
    simp only [Instruction.reread, Option.bind_eq_bind, Option.bind_eq_some_iff, Option.pure_def,
      Option.some.injEq, Instruction.mk.injEq] at h
    obtain ⟨q, hq, b, hb, ps, hps, c, hc, -, rfl, rfl, rfl, rfl⟩ := h
    exact ⟨⟨hq, hb, hc⟩, hps⟩
  · rintro ⟨⟨hq, hb, hc⟩, hps⟩
    simp only [Instruction.reread, hq, hb, hps, hc]
    rfl

theorem Program.reread_eq_some_iff (back : Binary64 → Option Binary64) (p : Program) :
    p.reread back = some p ↔ p.FitsWords ∧ ∀ i ∈ p.instructions, ∀ x ∈ i.params, back x = some x := by
  obtain ⟨name, numQubits, numClbits, qregs, cregs, instructions⟩ := p
  have hregs : ∀ rs : List Register, rs.mapM Register.reread = some rs ↔ ∀ r ∈ rs, r.FitsWords :=
    fun rs => (mapM_eq_some_self_iff rs).trans (forall₂_congr fun r _ => r.reread_eq_some_iff)
  have hinstrs : instructions.mapM (Instruction.reread back) = some instructions ↔
      (∀ i ∈ instructions, i.FitsWords) ∧ ∀ i ∈ instructions, ∀ x ∈ i.params, back x = some x :=
    (mapM_eq_some_self_iff instructions).trans
      ((forall₂_congr fun i _ => i.reread_eq_some_iff back).trans forall₂_and)
  simp only [Program.FitsWords, ← wordOf_eq_some_self_iff]
  constructor
  · intro h
    simp only [Program.reread, Option.bind_eq_bind, Option.bind_eq_some_iff, Option.pure_def,
      Option.some.injEq, Program.mk.injEq] at h
    obtain ⟨nq, hnq, nc, hnc, qs, hqs, cs, hcs, is, his, -, rfl, rfl, rfl, rfl, rfl⟩ := h
    obtain ⟨hfit, hparams⟩ := hinstrs.1 his
    exact ⟨⟨hnq, hnc, (hregs _).1 hqs, (hregs _).1 hcs, hfit⟩, hparams⟩
  · rintro ⟨⟨hnq, hnc, hqs, hcs, hfit⟩, hparams⟩
    simp only [Program.reread, hnq, hnc, (hregs _).2 hqs, (hregs _).2 hcs, hinstrs.2 ⟨hfit, hparams⟩]
    rfl

/-- Reading a text fails only with a JSON error. -/
theorem Program.ofJson_eq_error {s : String} {e : BuildError} (h : Program.ofJson json s = .error e) :
    ∃ e', e = .json e' := by
  unfold Program.ofJson at h
  split at h
  · cases h
  · cases h
    exact ⟨_, rfl⟩

/-- **The JSON round trip.** Over a lawful JSON library, a program is read back from its JSON
text as itself exactly when its counts, registers and operands are words and each parameter's
text reads back as that parameter; a program with a NaN or an infinite parameter writes `null`
for it, and its text is refused with a JSON error. -/
theorem Program.ofJson_toJson_eq_ok_iff (hjson : json.Lawful reads) (p : Program) :
    (Program.ofJson json (p.toJson json) = .ok p ↔
      p.FitsWords ∧ ∀ i ∈ p.instructions, ∀ x ∈ i.params, json.floatBack x = some x) ∧
    ((∃ i ∈ p.instructions, ∃ x ∈ i.params, x.isFinite = false) →
      ∃ e, Program.ofJson json (p.toJson json) = .error (.json e)) := by
  have hread := Program.ofJson_toJson hjson p
  constructor
  · rw [← Program.reread_eq_some_iff, ← hread]
    cases Program.ofJson json (p.toJson json) <;> simp [Except.toOption]
  · rintro ⟨i, hi, x, hx, hfin⟩
    -- the parameter's text is `null`, so its instruction, and the program, are refused
    have hnull : json.floatBack x = none := hjson.floatBack_of_not_finite hfin
    have hinstr : i.reread json.floatBack = none := by
      simp [Instruction.reread, mapM_eq_none_of_mem hnull hx]
    have hp : p.reread json.floatBack = none := by
      simp [Program.reread, mapM_eq_none_of_mem hinstr hi]
    rw [hp] at hread
    cases h : Program.ofJson json (p.toJson json) with
    | ok q => rw [h] at hread; cases hread
    | error e =>
      obtain ⟨e', rfl⟩ := Program.ofJson_eq_error h
      exact ⟨e', rfl⟩

/-- The library programs are built with is lawful; the Bell pair comes back, and a NaN
parameter is refused. -/
theorem Program.ofJson_toJson_eq_ok_iff_bell :
    serdeJson.Lawful Reader.Yields ∧
      Program.ofJson serdeJson (Program.bell.toJson serdeJson) = .ok Program.bell ∧
      ∃ e, Program.ofJson serdeJson (Program.toJson serdeJson
        { name := "p", numQubits := 1,
          instructions := [{ name := "rx", qubits := [0], params := [Binary64.nan] }] }) =
        .error (.json e) :=
  ⟨serdeJson_lawful, (Program.ofJson_toJson_eq_ok_iff serdeJson_lawful Program.bell).1.2
      ⟨by decide, by decide⟩,
    (Program.ofJson_toJson_eq_ok_iff serdeJson_lawful _).2 ⟨_, List.mem_singleton_self _, _,
      List.mem_singleton_self _, by decide⟩⟩

/-- With the library programs are built with, the parameter `0.9709173122999235` is written
with its shortest digits, which the reader rounds to a double before dividing by `10^16`; the
second rounding lands one ulp higher. -/
theorem Program.ofJson_toJson_rx :
    Program.ofJson serdeJson (Program.toJson serdeJson
      { name := "p", numQubits := 1,
        instructions := [{ name := "rx", qubits := [0], params := [⟨0x3fef11c12eee5936⟩] }] }) =
      .ok { name := "p", numQubits := 1,
            instructions := [{ name := "rx", qubits := [0], params := [⟨0x3fef11c12eee5937⟩] }] } := by
  have h := Program.ofJson_toJson serdeJson_lawful
    { name := "p", numQubits := 1,
      instructions := [{ name := "rx", qubits := [0], params := [⟨0x3fef11c12eee5936⟩] }] }
  have hread : Program.reread floatReread
      { name := "p", numQubits := 1,
        instructions := [{ name := "rx", qubits := [0], params := [⟨0x3fef11c12eee5936⟩] }] } =
      some { name := "p", numQubits := 1,
             instructions := [{ name := "rx", qubits := [0], params := [⟨0x3fef11c12eee5937⟩] }] } := by
    decide +kernel
  rw [show serdeJson.floatBack = floatReread from funext serdeJson_floatBack, hread] at h
  revert h
  cases Program.ofJson serdeJson _ with
  | ok q => intro h; cases h; rfl
  | error e => intro h; cases h

end QirGen.Circuit
