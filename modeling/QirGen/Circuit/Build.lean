import QirGen.Circuit.Basic
import QirGen.Circuit.Error
import QirGen.Binary64.Round

/-!
# Building circuits

Qubits, classical bits and registers are added at the end of the index spaces, whose
sizes are 32-bit words: growing one past `2^32 - 1` is a fault. An instruction is
appended only if its operands are declared: qubits are checked in order, each first for
range (`qubitNotFound`) and then for repetition of an earlier operand (`duplicateQubit`);
then the classical bits, followed by the condition's bits, for range (`clbitNotFound`).
A failed append leaves the program as it was.

`bell` and `ghz n` are the two stock circuits; `buildBell` and `buildGhz n` make them the
way the builder does, appending each instruction through the check.
-/

namespace QirGen
namespace Circuit

/-- The classical bits an instruction names: written bits, then condition bits. -/
def Instruction.allClbits (i : Instruction) : List Nat :=
  i.clbits ++ (i.condition.map (·.bits)).getD []

namespace Program

/-- An empty program with no qubits or classical bits. -/
def new (name : String) : Program := { name }

/-- An empty program with the given counts. -/
def withSize (name : String) (numQubits numClbits : Nat) : Program :=
  { name, numQubits, numClbits }

/-- Adds one qubit and returns its index. -/
def addQubit (p : Program) : Except Fault (Program × Nat) := do
  let n ← Word.add p.numQubits 1
  return ({ p with numQubits := n }, p.numQubits)

/-- Adds one classical bit and returns its index. -/
def addClbit (p : Program) : Except Fault (Program × Nat) := do
  let n ← Word.add p.numClbits 1
  return ({ p with numClbits := n }, p.numClbits)

/-- Grows an index space of `count` elements by a register of `size`: the new count, the
register, and the indices it covers. -/
def growRegister (count : Nat) (name : String) (size : Nat) :
    Except Fault (Nat × Register × List Nat) := do
  let n ← Word.add count size
  return (n, ⟨name, count, size⟩, List.range' count size)

/-- Adds a register of `size` new qubits and returns their indices. -/
def addQreg (p : Program) (name : String) (size : Nat) : Except Fault (Program × List Nat) := do
  let (n, r, ns) ← growRegister p.numQubits name size
  return ({ p with numQubits := n, qregs := p.qregs ++ [r] }, ns)

/-- Adds a register of `size` new classical bits and returns their indices. -/
def addCreg (p : Program) (name : String) (size : Nat) : Except Fault (Program × List Nat) := do
  let (n, r, ns) ← growRegister p.numClbits name size
  return ({ p with numClbits := n, cregs := p.cregs ++ [r] }, ns)

/-- Checks qubit operands in order: each must be below `n` and differ from the ones
before it (`seen`). -/
def checkQubits (n : Nat) (gate : String) (seen : List Nat) : List Nat → Except BuildError Unit
  | [] => .ok ()
  | q :: rest =>
      if n ≤ q then .error (.qubitNotFound q (some gate))
      else if q ∈ seen then .error (.duplicateQubit q (some gate))
      else checkQubits n gate (seen ++ [q]) rest

/-- Checks classical-bit operands: each must be below `n`. -/
def checkClbits (n : Nat) (gate : String) : List Nat → Except BuildError Unit
  | [] => .ok ()
  | c :: rest =>
      if n ≤ c then .error (.clbitNotFound c (some gate)) else checkClbits n gate rest

/-- Checks that an instruction's operands are declared in the program. -/
def check (p : Program) (i : Instruction) : Except BuildError Unit := do
  checkQubits p.numQubits i.name [] i.qubits
  checkClbits p.numClbits i.name (Instruction.allClbits i)

/-- Appends an instruction after checking its operands. -/
def append (p : Program) (i : Instruction) : Except BuildError Program := do
  p.check i
  return { p with instructions := p.instructions ++ [i] }

/-- Appends the operation `name` on qubits with parameters. -/
def applyGate (p : Program) (name : String) (qubits : List Nat) (params : List Binary64) :
    Except BuildError Program :=
  p.append { name, qubits, params }

/-- Appends the measurement of qubit `q` into classical bit `c`. -/
def measure (p : Program) (q c : Nat) : Except BuildError Program :=
  p.append (Instruction.measure q c)

/-- Measures qubit `i` into bit `i` for every `i` below both counts, as one instruction;
nothing when either count is zero. -/
def measureAll (p : Program) : Except BuildError Program :=
  let n := min p.numQubits p.numClbits
  if n = 0 then .ok p
  else p.append { name := "measure", qubits := List.range n, clbits := List.range n }

/-- A barrier over all qubits (over none when there are none). -/
def barrierAll (p : Program) : Except BuildError Program :=
  p.append (Instruction.barrier (List.range p.numQubits))

/-- A delay on a qubit; its duration becomes the nearest binary64 parameter. -/
def delay (p : Program) (q duration : Nat) : Except BuildError Program :=
  p.append { name := "delay", qubits := [q], params := [Binary64.ofNat duration] }

/-- The Bell pair: `h` on qubit 0, `cx` from 0 to 1, both qubits measured. -/
def bell : Program :=
  { withSize "bell" 2 2 with
    instructions :=
      [Instruction.single "h" 0, { name := "cx", qubits := [0, 1] },
       Instruction.measure 0 0, Instruction.measure 1 1] }

/-- The GHZ state over `n` qubits: `h` on qubit 0, a `cx` chain, every qubit measured;
the empty program `ghz_0` for `n = 0`. -/
def ghz (n : Nat) : Program :=
  if n = 0 then new "ghz_0"
  else
    { withSize "ghz" n n with
      instructions :=
        [Instruction.single "h" 0] ++
        (List.range (n - 1)).map (fun i => { name := "cx", qubits := [i, i + 1] }) ++
        (List.range n).map (fun i => Instruction.measure i i) }

/-- Appends instructions in order through the checked append, stopping at the first that
fails. -/
def appendAll (p : Program) (is : List Instruction) : Except BuildError Program :=
  is.foldlM append p

/-- The Bell pair as the builder makes it: its instructions appended one by one, checked, to
the empty program of its size. -/
def buildBell : Except BuildError Program :=
  (withSize "bell" 2 2).appendAll bell.instructions

/-- The GHZ state as the builder makes it: its instructions appended one by one, checked, to
the empty program of its size; the empty program `ghz_0` for `n = 0`. -/
def buildGhz (n : Nat) : Except BuildError Program :=
  if n = 0 then .ok (new "ghz_0") else (withSize "ghz" n n).appendAll (ghz n).instructions

end Program
end Circuit
end QirGen
