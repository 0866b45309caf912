import QirGen.Target.Runtime

/-!
# Gate kinds

The operation names a program may use, the kind each names, and what a kind requires:
how many qubits (an exact number, one per classical bit for measurement, or any number
for a barrier), how many parameters, and which instruction-set function it calls. Names
are case-sensitive; `cx` and `cnot` name the same gate, as do `measure`, `m` and `mz`.
-/

namespace QirGen

/-- The kinds of operation that lower to the instruction set. -/
inductive GateKind where
  | h | x | y | z | s | sdg | t | tdg
  | rx | ry | rz
  | cnot | cz | swap | ccx
  | measure | reset | barrier | id | delay
  deriving DecidableEq, Inhabited, Repr

/-- How many qubits a gate takes. -/
inductive Arity where
  | exact (n : Nat)
  | paired
  | any
  deriving DecidableEq, Inhabited

namespace GateKind

/-- The kind an operation name stands for. -/
def ofName? : String → Option GateKind
  | "h" => some .h
  | "x" => some .x
  | "y" => some .y
  | "z" => some .z
  | "s" => some .s
  | "sdg" => some .sdg
  | "t" => some .t
  | "tdg" => some .tdg
  | "rx" => some .rx
  | "ry" => some .ry
  | "rz" => some .rz
  | "cx" | "cnot" => some .cnot
  | "cz" => some .cz
  | "swap" => some .swap
  | "ccx" => some .ccx
  | "measure" | "m" | "mz" => some .measure
  | "reset" => some .reset
  | "barrier" => some .barrier
  | "id" => some .id
  | "delay" => some .delay
  | _ => none

/-- The operation names that lower, in sorted order. -/
def supportedNames : List String :=
  ["barrier", "ccx", "cnot", "cx", "cz", "delay", "h", "id", "m", "measure", "mz", "reset",
   "rx", "ry", "rz", "s", "sdg", "swap", "t", "tdg", "x", "y", "z"]

/-- The qubit operands a kind takes. -/
def arity : GateKind → Arity
  | .cnot | .cz | .swap => .exact 2
  | .ccx => .exact 3
  | .measure => .paired
  | .barrier => .any
  | _ => .exact 1

/-- The least and greatest number of parameters. -/
def paramRange : GateKind → Nat × Nat
  | .rx | .ry | .rz => (1, 1)
  | .delay => (0, 1)
  | _ => (0, 0)

/-- The instruction-set function a kind calls, for kinds lowered to a single call of
parameters and qubits. -/
def callee? : GateKind → Option Ir.Callee
  | .h => some Runtime.h
  | .x => some Runtime.x
  | .y => some Runtime.y
  | .z => some Runtime.z
  | .s => some Runtime.s
  | .sdg => some Runtime.sAdj
  | .t => some Runtime.t
  | .tdg => some Runtime.tAdj
  | .rx => some Runtime.rx
  | .ry => some Runtime.ry
  | .rz => some Runtime.rz
  | .cnot => some Runtime.cnot
  | .cz => some Runtime.cz
  | .swap => some Runtime.swap
  | .ccx => some Runtime.ccx
  | .reset => some Runtime.reset
  | .measure | .barrier | .id | .delay => none

/-- Whether the kind acts on its qubits (barriers, identities and delays do not). -/
def actsOnQubits : GateKind → Bool
  | .barrier | .id | .delay => false
  | _ => true

end GateKind
end QirGen
