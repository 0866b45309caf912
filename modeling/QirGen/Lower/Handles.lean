import QirGen.Lower.Error
import QirGen.Ir.Builder
import QirGen.Target.Runtime

/-!
# Qubit and result handles

A `Handles` table turns qubit indices and classical bits into IR values during lowering and
keeps the resource counters. Under static addressing a handle is a constant pointer, and a
bounded table refuses indices beyond the declared counts; under dynamic addressing a qubit is
allocated as `%q<i>` on first use and each measurement binds a fresh `%r<k>`.
-/

namespace QirGen

open Ir

/-- Handle bookkeeping and resource counters of one lowering. -/
structure Handles where
  mode : Addressing
  bounded : Bool
  declaredQubits : Nat
  declaredResults : Nat
  requiredQubits : Nat
  requiredResults : Nat
  /-- Allocated qubits with their handles, in allocation order. -/
  allocated : List (Nat × Value) := []
  /-- The result last bound to each measured classical bit. -/
  results : List (Nat × Value) := []
  deriving Inhabited

namespace Handles

/-- A fresh table: static counters start at the declared counts, dynamic ones at zero;
static tables are bounded. -/
def new (mode : Addressing) (declaredQubits declaredResults : Nat) : Handles :=
  let static := mode == .static
  { mode, bounded := static, declaredQubits, declaredResults,
    requiredQubits := if static then declaredQubits else 0,
    requiredResults := if static then declaredResults else 0 }

/-- The same table, bounded or not. -/
def withBounds (h : Handles) (bounded : Bool) : Handles := { h with bounded }

/-- One past an index, saturating at the largest 32-bit value. -/
def nextIndex (i : Nat) : Nat := min (i + 1) (Nat.pow 2 32 - 1)

/-- Binds `v` to `k` in an association list, replacing an earlier binding. -/
def bind (k : Nat) (v : Value) : List (Nat × Value) → List (Nat × Value)
  | [] => [(k, v)]
  | (k', v') :: rest => if k' = k then (k, v) :: rest else (k', v') :: bind k v rest

/-- The value bound to `k`. -/
def lookup (k : Nat) (l : List (Nat × Value)) : Option Value := (l.find? (·.1 == k)).map (·.2)

/-- The handle of qubit `i`, allocating it first under dynamic addressing. -/
def qubit (h : Handles) (b : Builder) (i : Nat) : Except TranslateError (Handles × Builder × Value) :=
  match h.mode with
  | .static =>
    if h.bounded then
      if i < h.declaredQubits then .ok (h, b, Value.staticQubit i)
      else .error (.resourceMismatch .qubit i h.declaredQubits)
    else
      .ok ({ h with requiredQubits := max h.requiredQubits (nextIndex i) }, b, Value.staticQubit i)
  | .dynamic =>
    match lookup i h.allocated with
    | some v => .ok (h, b, v)
    | none =>
      match b.call Runtime.qubitAllocate [] (some ("q" ++ toString i)) with
      | (b, some v) =>
        .ok ({ h with allocated := h.allocated ++ [(i, v)], requiredQubits := h.requiredQubits + 1 },
             b, v)
      | (_, none) => .error (missingBinding Runtime.qubitAllocate.name)

/-- Measures the qubit with handle `q` into classical bit `c`. -/
def measure (h : Handles) (b : Builder) (q : Value) (c : Nat) : Except TranslateError (Handles × Builder) :=
  match h.mode with
  | .static =>
    let r := Value.staticResult c
    let emit (h : Handles) : Handles × Builder :=
      ({ h with results := bind c r h.results }, b.callUnit Runtime.mz [q, r])
    if h.bounded then
      if c < h.declaredResults then .ok (emit h)
      else .error (.resourceMismatch .result c h.declaredResults)
    else .ok (emit { h with requiredResults := max h.requiredResults (nextIndex c) })
  | .dynamic =>
    match b.call Runtime.m [q] (some ("r" ++ toString h.requiredResults)) with
    | (b, some r) =>
      .ok ({ h with requiredResults := h.requiredResults + 1, results := bind c r h.results }, b)
    | (_, none) => .error (missingBinding Runtime.m.name)

/-- The result last bound to classical bit `c`, if it was measured. -/
def measured (h : Handles) (c : Nat) : Option Value := lookup c h.results

/-- The result to record for declared bit `c`: its slot under static addressing, the last
measured result (if any) under dynamic addressing; bits beyond the declared count have no
record. -/
def recorded (h : Handles) (c : Nat) : Except TranslateError (Option Value) :=
  if h.declaredResults ≤ c then .error (.recordingOmission c)
  else match h.mode with
    | .static => .ok (some (Value.staticResult c))
    | .dynamic => .ok (h.measured c)

/-- Releases every allocated qubit, in allocation order. -/
def releaseAll (h : Handles) (b : Builder) : Builder :=
  h.allocated.foldl (fun b (_, v) => b.callUnit Runtime.qubitRelease [v]) b

end Handles
end QirGen
