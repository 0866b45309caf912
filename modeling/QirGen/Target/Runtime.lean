import QirGen.Ir.Basic

/-!
# The quantum instruction set and runtime functions

The functions a lowered program calls: gates of the quantum instruction set (`__body` for
a gate, `__adj` for its adjoint), measurement, reading a measured result, qubit
allocation and release, and output recording. Each is a `Callee` with its signature.
-/

namespace QirGen
namespace Runtime

open Ir

/-- A function of the instruction set that returns nothing, named `__quantum__qis__<name>`. -/
def gate (name : String) (params : List Ty) : Callee := ⟨"__quantum__qis__" ++ name, .void, params⟩

def h : Callee := gate "h__body" [.qubit]
def x : Callee := gate "x__body" [.qubit]
def y : Callee := gate "y__body" [.qubit]
def z : Callee := gate "z__body" [.qubit]
def s : Callee := gate "s__body" [.qubit]
def sAdj : Callee := gate "s__adj" [.qubit]
def t : Callee := gate "t__body" [.qubit]
def tAdj : Callee := gate "t__adj" [.qubit]
def rx : Callee := gate "rx__body" [.double, .qubit]
def ry : Callee := gate "ry__body" [.double, .qubit]
def rz : Callee := gate "rz__body" [.double, .qubit]
def cnot : Callee := gate "cnot__body" [.qubit, .qubit]
def cz : Callee := gate "cz__body" [.qubit, .qubit]
def swap : Callee := gate "swap__body" [.qubit, .qubit]
def ccx : Callee := gate "ccx__body" [.qubit, .qubit, .qubit]
def reset : Callee := gate "reset__body" [.qubit]
def barrier : Callee := gate "barrier__body" []

/-- Measures a qubit into a fixed result slot. -/
def mz : Callee := gate "mz__body" [.qubit, .result]

/-- Measures a qubit and returns a fresh result. -/
def m : Callee := ⟨"__quantum__qis__m__body", .result, [.qubit]⟩

/-- Reads a measured result as a bit. -/
def readResult : Callee := ⟨"__quantum__qis__read_result__body", .bool, [.result]⟩

def qubitAllocate : Callee := ⟨"__quantum__rt__qubit_allocate", .qubit, []⟩
def qubitRelease : Callee := ⟨"__quantum__rt__qubit_release", .void, [.qubit]⟩
def arrayStartRecord : Callee := ⟨"__quantum__rt__array_start_record_output", .void, []⟩
def resultRecord : Callee := ⟨"__quantum__rt__result_record_output", .void, [.result]⟩
def arrayEndRecord : Callee := ⟨"__quantum__rt__array_end_record_output", .void, []⟩

/-- The result that reads as zero, for bits that were never measured. -/
def resultGetZero : Callee := ⟨"__quantum__rt__result_get_zero", .result, []⟩

end Runtime
end QirGen
