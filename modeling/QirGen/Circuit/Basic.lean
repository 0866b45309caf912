import QirGen.Binary64.Basic
import QirGen.Fault

/-!
# Circuits

A program is a named circuit over flat index spaces of qubits and classical bits: qubit
`i` is `q<i>` and classical bit `c` is `c<c>`. Registers are bookkeeping only, a name for
a run of consecutive indices. An instruction applies a named operation to qubits, may
write classical bits (measurement) and take parameters, and may be guarded by a
condition on classical bits.

A condition compares bits `b₀, b₁, …` with a 64-bit value, least significant bit first:
bit `k` is expected set when `k < 64` and bit `k` of the value is set. The value fits
when no set bit lies beyond the compared bits.
-/

namespace QirGen
namespace Circuit

/-- A named run of consecutive flat indices, `offset` to `offset + size - 1`. -/
structure Register where
  name : String
  offset : Nat
  size : Nat
  deriving DecidableEq, Inhabited

namespace Register

/-- The flat index of element `i`, if the register has one; computing it is a fault when
it is not a word. -/
def flatIndex (r : Register) (i : Nat) : Except Fault (Option Nat) :=
  if i < r.size then (Word.add r.offset i).map some else .ok none

/-- The register as `name[size]`. -/
def display (r : Register) : String := r.name ++ "[" ++ toString r.size ++ "]"

end Register

/-- A guard on classical bits: the bits compared, least significant first, and the value
(below `2^64`) they must spell. -/
structure Condition where
  bits : List Nat
  value : Nat
  deriving DecidableEq, Inhabited

namespace Condition

/-- The condition that one bit is set (`true`) or clear (`false`). -/
def bit (c : Nat) (set : Bool) : Condition := ⟨[c], if set then 1 else 0⟩

/-- Whether bit `k` of the value is set; positions from 64 on never are. -/
def expects (v k : Nat) : Bool := k < 64 && v.testBit k

/-- Each compared bit with the outcome it must have, in order. -/
def expectations (c : Condition) : List (Nat × Bool) :=
  (List.range c.bits.length).zip c.bits |>.map fun (k, b) => (b, expects c.value k)

/-- Whether the value has no set bit beyond the compared bits. -/
def fits (c : Condition) : Bool := 64 ≤ c.bits.length || c.value >>> c.bits.length == 0

end Condition

/-- An operation applied to qubits, with classical bits, parameters and a guard. -/
structure Instruction where
  name : String
  qubits : List Nat
  clbits : List Nat := []
  params : List Binary64 := []
  condition : Option Condition := none
  deriving DecidableEq, Inhabited

namespace Instruction

/-- Whether the operation is a measurement (`measure`, `m` or `mz`). -/
def isMeasure (i : Instruction) : Bool := i.name == "measure" || i.name == "m" || i.name == "mz"

/-- Whether the instruction is guarded. -/
def isConditional (i : Instruction) : Bool := i.condition.isSome

/-- A single-qubit operation. -/
def single (name : String) (q : Nat) : Instruction := { name, qubits := [q] }

/-- A rotation by an angle. -/
def rotation (name : String) (theta : Binary64) (q : Nat) : Instruction :=
  { name, qubits := [q], params := [theta] }

/-- Measurement of one qubit into one classical bit. -/
def measure (q c : Nat) : Instruction := { name := "measure", qubits := [q], clbits := [c] }

/-- A barrier over qubits. -/
def barrier (qs : List Nat) : Instruction := { name := "barrier", qubits := qs }

end Instruction

/-- A named circuit: qubit and classical-bit counts, registers, instructions in order. -/
structure Program where
  name : String
  numQubits : Nat := 0
  numClbits : Nat := 0
  qregs : List Register := []
  cregs : List Register := []
  instructions : List Instruction := []
  deriving DecidableEq, Inhabited

end Circuit
end QirGen
