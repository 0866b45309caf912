import QirGen.Circuit.Build
import QirGen.Json.Serde

/-!
# Circuits as JSON

The JSON form of a program is an object with the members `name`, `num_qubits`,
`num_clbits`, `qregs`, `cregs` and `instructions`, in that order when written; the
register lists are left out when empty. An instruction has `name` and `qubits`, then
`clbits`, `params` and `condition`, each left out when empty or absent. Parameters are
written as the library writes doubles.

Reading accepts the members in any order and skips unknown ones; the register lists and
the optional instruction members may be left out. Both directions are over the JSON library,
`json : SerdeJson`.
-/

namespace QirGen
namespace Circuit

open Json

variable (json : SerdeJson)

/-- A list of natural numbers as a JSON array. -/
def natsText (xs : List Nat) : String := "[" ++ String.intercalate "," (xs.map toString) ++ "]"

/-- The JSON text of a register. -/
def Register.toJson (r : Register) : String :=
  "\x7b\"name\":" ++ json.quote r.name ++ ",\"offset\":" ++ toString r.offset ++ ",\"size\":" ++
    toString r.size ++ "\x7d"

/-- The JSON text of a condition. -/
def Condition.toJson (c : Condition) : String :=
  "\x7b\"clbits\":" ++ natsText c.bits ++ ",\"value\":" ++ toString c.value ++ "\x7d"

/-- The JSON text of an instruction. -/
def Instruction.toJson (i : Instruction) : String :=
  "\x7b\"name\":" ++ json.quote i.name ++ ",\"qubits\":" ++ natsText i.qubits ++
    (if i.clbits.isEmpty then "" else ",\"clbits\":" ++ natsText i.clbits) ++
    (if i.params.isEmpty then ""
     else ",\"params\":[" ++ String.intercalate "," (i.params.map json.floatText) ++ "]") ++
    (match i.condition with
     | some c => ",\"condition\":" ++ c.toJson
     | none => "") ++ "\x7d"

/-- The JSON text of a program. -/
def Program.toJson (p : Program) : String :=
  let regs (key : String) (rs : List Register) : String :=
    if rs.isEmpty then "" else ",\"" ++ key ++ "\":[" ++ String.intercalate "," (rs.map (Register.toJson json)) ++ "]"
  "\x7b\"name\":" ++ json.quote p.name ++ ",\"num_qubits\":" ++ toString p.numQubits ++
    ",\"num_clbits\":" ++ toString p.numClbits ++ regs "qregs" p.qregs ++ regs "cregs" p.cregs ++
    ",\"instructions\":[" ++ String.intercalate "," (p.instructions.map (Instruction.toJson json)) ++ "]\x7d"

/-- A register read so far. -/
structure RegisterDraft where
  name : Option String := none
  offset : Option Nat := none
  size : Option Nat := none

/-- How a register is read. -/
def Register.record : Record json.Reader RegisterDraft Register where
  title := "struct Register"
  fields :=
    [⟨"name", false, fun d => do return { d with name := some (← json.string) }⟩,
     ⟨"offset", false, fun d => do return { d with offset := some (← json.unsigned 32) }⟩,
     ⟨"size", false, fun d => do return { d with size := some (← json.unsigned 32) }⟩]
  empty := {}
  complete d := do
    return ⟨← need d.name "name", ← need d.offset "offset", ← need d.size "size"⟩

/-- A condition read so far. -/
structure ConditionDraft where
  bits : Option (List Nat) := none
  value : Option Nat := none

/-- How a condition is read. -/
def Condition.record : Record json.Reader ConditionDraft Condition where
  title := "struct ClassicalCondition"
  fields :=
    [⟨"clbits", false, fun d => do return { d with bits := some (← json.list (json.unsigned 32)) }⟩,
     ⟨"value", false, fun d => do return { d with value := some (← json.unsigned 64) }⟩]
  empty := {}
  complete d := do return ⟨← need d.bits "clbits", ← need d.value "value"⟩

/-- An instruction read so far. -/
structure InstructionDraft where
  name : Option String := none
  qubits : Option (List Nat) := none
  clbits : List Nat := []
  params : List Binary64 := []
  condition : Option Condition := none

/-- How an instruction is read. -/
def Instruction.record : Record json.Reader InstructionDraft Instruction where
  title := "struct Instruction"
  fields :=
    [⟨"name", false, fun d => do return { d with name := some (← json.string) }⟩,
     ⟨"qubits", false, fun d => do return { d with qubits := some (← json.list (json.unsigned 32)) }⟩,
     ⟨"clbits", true, fun d => do return { d with clbits := ← json.list (json.unsigned 32) }⟩,
     ⟨"params", true, fun d => do return { d with params := ← json.list json.float }⟩,
     ⟨"condition", true, fun d => do
        return { d with condition := ← json.option (json.record (Condition.record json)) }⟩]
  empty := {}
  complete d := do
    return { name := ← need d.name "name", qubits := ← need d.qubits "qubits",
             clbits := d.clbits, params := d.params, condition := d.condition }

/-- A program read so far. -/
structure ProgramDraft where
  name : Option String := none
  numQubits : Option Nat := none
  numClbits : Option Nat := none
  qregs : List Register := []
  cregs : List Register := []
  instructions : Option (List Instruction) := none

/-- How a program is read. -/
def Program.record : Record json.Reader ProgramDraft Program where
  title := "struct Program"
  fields :=
    [⟨"name", false, fun d => do return { d with name := some (← json.string) }⟩,
     ⟨"num_qubits", false, fun d => do return { d with numQubits := some (← json.unsigned 32) }⟩,
     ⟨"num_clbits", false, fun d => do return { d with numClbits := some (← json.unsigned 32) }⟩,
     ⟨"qregs", true, fun d => do return { d with qregs := ← json.list (json.record (Register.record json)) }⟩,
     ⟨"cregs", true, fun d => do return { d with cregs := ← json.list (json.record (Register.record json)) }⟩,
     ⟨"instructions", false, fun d => do
        return { d with instructions := some (← json.list (json.record (Instruction.record json))) }⟩]
  empty := {}
  complete d := do
    return { name := ← need d.name "name", numQubits := ← need d.numQubits "num_qubits",
             numClbits := ← need d.numClbits "num_clbits", qregs := d.qregs, cregs := d.cregs,
             instructions := ← need d.instructions "instructions" }

/-- Reads a program from its JSON text. -/
def Program.ofJson (s : String) : Except BuildError Program :=
  match json.run (json.record (Program.record json)) s with
  | .ok p => .ok p
  | .error e => .error (.json e)

end Circuit
end QirGen
