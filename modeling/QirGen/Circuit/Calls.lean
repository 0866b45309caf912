import QirGen.Circuit.Build

/-!
# Building a program call by call

The calls of the program builder: adding a qubit or a classical bit, adding a named register
of either, the fluent operations (the one-qubit gates, the identity and reset; the rotations;
the two-qubit gates; the Toffoli gate; measurement of one qubit and of all of them; barriers
on given qubits and on all of them; delays), and the generic checked append of any
instruction. Each fluent operation is the checked append of the instruction it names.

An append that fails leaves the program as it was, and the calls after it go on. Growing a
count past a 32-bit word is a fault, which ends the sequence.

A built program starts empty, with given counts, or as one of the stock circuits.
-/

namespace QirGen
namespace Circuit

/-- The fluent operations on one qubit that take no parameter. -/
inductive OneQubitOp where
  | h | x | y | z | s | sdg | t | tdg | id | reset
  deriving DecidableEq, Inhabited

/-- The operation name of a one-qubit operation. -/
def OneQubitOp.name : OneQubitOp → String
  | .h => "h"
  | .x => "x"
  | .y => "y"
  | .z => "z"
  | .s => "s"
  | .sdg => "sdg"
  | .t => "t"
  | .tdg => "tdg"
  | .id => "id"
  | .reset => "reset"

/-- The fluent rotations of one qubit by an angle. -/
inductive RotationOp where
  | rx | ry | rz
  deriving DecidableEq, Inhabited

/-- The operation name of a rotation. -/
def RotationOp.name : RotationOp → String
  | .rx => "rx"
  | .ry => "ry"
  | .rz => "rz"

/-- The fluent operations on two qubits. -/
inductive TwoQubitOp where
  | cx | cz | swap
  deriving DecidableEq, Inhabited

/-- The operation name of a two-qubit operation. -/
def TwoQubitOp.name : TwoQubitOp → String
  | .cx => "cx"
  | .cz => "cz"
  | .swap => "swap"

/-- One call of the builder. -/
inductive BuildCall where
  | addQubit
  | addClbit
  | addQreg (name : String) (size : Nat)
  | addCreg (name : String) (size : Nat)
  | oneQubit (op : OneQubitOp) (q : Nat)
  | rotation (op : RotationOp) (theta : Binary64) (q : Nat)
  | twoQubit (op : TwoQubitOp) (a b : Nat)
  | ccx (a b c : Nat)
  | measure (q c : Nat)
  | measureAll
  | barrier (qs : List Nat)
  | barrierAll
  | delay (q duration : Nat)
  /-- The checked append of any instruction. -/
  | append (i : Instruction)
  deriving Inhabited

/-- Whether a call grows the program or is a fluent operation: every call but the generic
append. -/
def BuildCall.isFluent : BuildCall → Bool
  | .append _ => false
  | _ => true

/-- How a built program starts. -/
inductive Start where
  | new (name : String)
  | withSize (name : String) (numQubits numClbits : Nat)
  | bell
  | ghz (n : Nat)
  deriving Inhabited

/-- The program a start gives. -/
def Start.program : Start → Program
  | .new name => Program.new name
  | .withSize name numQubits numClbits => Program.withSize name numQubits numClbits
  | .bell => Program.bell
  | .ghz n => Program.ghz n

namespace Program

/-- The program after an append: the extended one, or the same one if the append failed. -/
def orKeep (p : Program) : Except BuildError Program → Program
  | .ok p' => p'
  | .error _ => p

/-- The program after one builder call. -/
def perform (p : Program) : BuildCall → Except Fault Program
  | .addQubit => Prod.fst <$> p.addQubit
  | .addClbit => Prod.fst <$> p.addClbit
  | .addQreg name size => Prod.fst <$> p.addQreg name size
  | .addCreg name size => Prod.fst <$> p.addCreg name size
  | .oneQubit op q => .ok (p.orKeep (p.applyGate op.name [q] []))
  | .rotation op theta q => .ok (p.orKeep (p.applyGate op.name [q] [theta]))
  | .twoQubit op a b => .ok (p.orKeep (p.applyGate op.name [a, b] []))
  | .ccx a b c => .ok (p.orKeep (p.applyGate "ccx" [a, b, c] []))
  | .measure q c => .ok (p.orKeep (p.measure q c))
  | .measureAll => .ok (p.orKeep p.measureAll)
  | .barrier qs => .ok (p.orKeep (p.append (Instruction.barrier qs)))
  | .barrierAll => .ok (p.orKeep p.barrierAll)
  | .delay q duration => .ok (p.orKeep (p.delay q duration))
  | .append i => .ok (p.orKeep (p.append i))

/-- The program after a sequence of builder calls, in order. -/
def performAll (p : Program) (calls : List BuildCall) : Except Fault Program :=
  calls.foldlM perform p

end Program
end Circuit
end QirGen
