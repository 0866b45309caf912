import QirGen.Circuit.Basic

/-!
# Program sources

What a code generator reads of a program: its name, the declared counts, how many
instructions it reports, and the instruction at each position. A program is a source
that reports its own length; `claiming n` is a source that reports `n` instructions
whatever it holds, so positions past the end read as missing.
-/

namespace QirGen
namespace Circuit

/-- A read-only view of a program. -/
structure Source where
  name : String
  qubitCount : Nat
  bitCount : Nat
  count : Nat
  instructionAt? : Nat → Option Instruction

/-- A program as a source. -/
def Program.toSource (p : Program) : Source :=
  ⟨p.name, p.numQubits, p.numClbits, p.instructions.length, fun i => p.instructions[i]?⟩

/-- The same source reporting `n` instructions. -/
def Source.claiming (s : Source) (n : Nat) : Source := { s with count := n }

end Circuit
end QirGen
