/-!
# Faults

A fault stops an operation outright, with no answer of its own: it is not one of the
operation's errors, which callers handle, but a broken precondition. Two kinds occur.

* Counts and indices of qubits and classical bits are 32-bit words, so a sum past
  `2^32 - 1` is an overflow (`Fault.addOverflow`).
* A block reference names a block of the current function by position; a position past
  the end is out of bounds (`Fault.indexOutOfBounds`).

`Word.add` is the checked sum of two words.
-/

namespace QirGen

/-- Why an operation stopped without an answer. -/
inductive Fault where
  /-- A sum of 32-bit words went past `2^32 - 1`. -/
  | addOverflow
  /-- A position at or past the end of a sequence of the given length. -/
  | indexOutOfBounds (length index : Nat)
  deriving DecidableEq, Inhabited

/-- The text of a fault. -/
def Fault.message : Fault → String
  | .addOverflow => "attempt to add with overflow"
  | .indexOutOfBounds length index =>
    "index out of bounds: the len is " ++ toString length ++ " but the index is " ++
      toString index

namespace Word

/-- The number of 32-bit words: every word is below it. -/
def size : Nat := 4294967296

/-- The sum of two words, or an overflow if it is not a word. -/
def add (a b : Nat) : Except Fault Nat :=
  if a + b < size then .ok (a + b) else .error .addOverflow

theorem add_ok {a b : Nat} (h : a + b < size) : add a b = .ok (a + b) := by
  simp [add, h]

end Word

end QirGen
