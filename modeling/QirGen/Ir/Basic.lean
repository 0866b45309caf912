import QirGen.Binary64.Basic

/-!
# The IR module model

A module holds functions, the declarations of the runtime functions they call, and
module flags. A function is a list of labelled basic blocks, each a list of
instructions: calls, branches and returns. Values are typed: qubit and result handles
are pointers, either constants (`null`, `inttoptr`) or names bound by earlier calls.

Attributes of a function are key/value pairs with an optional value; the entry point is
the first function that carries the key `EntryPoint`.
-/

namespace QirGen
namespace Ir

/-- The types that appear in signatures and values. -/
inductive Ty where
  | void
  | bool
  | int
  | double
  | qubit
  | result
  deriving DecidableEq, Inhabited, Repr

/-- A typed operand. -/
inductive Value where
  /-- The null pointer of a pointer type. -/
  | null (ty : Ty)
  /-- An integer turned into a pointer. -/
  | intToPtr (ty : Ty) (n : Nat)
  /-- The value bound by an earlier call under a name. -/
  | named (ty : Ty) (name : String)
  | double (x : Binary64)
  | int (i : Int)
  | bool (b : Bool)
  deriving DecidableEq, Inhabited

namespace Value

/-- The type of a value. -/
def ty : Value → Ty
  | .null t | .intToPtr t _ | .named t _ => t
  | .double _ => .double
  | .int _ => .int
  | .bool _ => .bool

/-- The constant handle of index `i`: `null` for zero, `inttoptr` otherwise. -/
def pointer (t : Ty) (i : Nat) : Value := if i = 0 then .null t else .intToPtr t i

/-- The constant handle of qubit `i`. -/
def staticQubit (i : Nat) : Value := pointer .qubit i

/-- The constant handle of result slot `i`. -/
def staticResult (i : Nat) : Value := pointer .result i

end Value

/-- A function that calls can name: its name and signature. -/
structure Callee where
  name : String
  ret : Ty
  params : List Ty
  deriving DecidableEq, Inhabited

/-- An instruction of a basic block. -/
inductive Instr where
  /-- A call, binding its result to a name when it has one. -/
  | call (callee : String) (ret : Ty) (args : List Value) (result : Option String)
  | br (target : String)
  | condBr (cond : Value) (onTrue onFalse : String)
  | ret
  deriving DecidableEq, Inhabited

namespace Instr

/-- Branches and returns end a block. -/
def isTerminator : Instr → Bool
  | .call .. => false
  | _ => true

/-- The name of the called function, for calls. -/
def callee? : Instr → Option String
  | .call c .. => some c
  | _ => none

end Instr

/-- A labelled basic block. -/
structure Block where
  label : String
  instrs : List Instr := []
  deriving DecidableEq, Inhabited

/-- Whether the block ends with a branch or return. -/
def Block.isTerminated (b : Block) : Bool :=
  match b.instrs.getLast? with
  | some i => i.isTerminator
  | none => false

/-- A function attribute: a key, with a value or bare. -/
structure Attribute where
  key : String
  value : Option String
  deriving DecidableEq, Inhabited

/-- The key that marks the entry point. -/
def entryPointKey : String := "EntryPoint"

/-- The key of the number of qubits the entry point needs. -/
def requiredQubitsKey : String := "requiredQubits"

/-- The key of the number of result slots the entry point needs. -/
def requiredResultsKey : String := "requiredResults"

/-- The key of the execution profile the module was made for. -/
def profilesKey : String := "qir_profiles"

/-- Reads a 32-bit unsigned decimal: digits with an optional leading `+`, nothing else. -/
def parseU32? (s : String) : Option Nat :=
  let ds := match s.toList with
    | '+' :: rest => rest
    | cs => cs
  if ds.isEmpty || !ds.all Char.isDigit then none
  else
    let n := ds.foldl (fun acc c => acc * 10 + (c.toNat - 48)) 0
    if n < Nat.pow 2 32 then some n else none

/-- A function: its name, attributes and blocks (the first is the entry block). -/
structure Function where
  name : String
  attributes : List Attribute := []
  blocks : List Block := [{ label := "entry" }]
  deriving DecidableEq, Inhabited

namespace Function

/-- The value of the first attribute with this key: `some none` for a bare key. -/
def attribute? (f : Function) (key : String) : Option (Option String) :=
  (f.attributes.find? (·.key == key)).map (·.value)

/-- Whether the function carries the entry-point attribute. -/
def isEntryPoint (f : Function) : Bool := (f.attribute? entryPointKey).isSome

/-- An attribute read as a 32-bit unsigned number. -/
def natAttribute? (f : Function) (key : String) : Option Nat :=
  match f.attribute? key with
  | some (some v) => parseU32? v
  | _ => none

/-- All instructions, block after block. -/
def instrs (f : Function) : List Instr := f.blocks.flatMap (·.instrs)

end Function

/-- The value of a module flag. -/
inductive FlagValue where
  | int (i : Int)
  | bool (b : Bool)
  deriving DecidableEq, Inhabited

/-- A module flag: merge behaviour, key and value. -/
structure Flag where
  behavior : Nat
  key : String
  value : FlagValue
  deriving DecidableEq, Inhabited

/-- A module: name, functions, declarations of called functions, flags. -/
structure Module where
  name : String
  functions : List Function := []
  declarations : List Callee := []
  flags : List Flag := []
  deriving DecidableEq, Inhabited

/-- Inserts into a map kept sorted by key, replacing the value of an existing key. -/
def insertSorted {β : Type} (k : String) (v : β) : List (String × β) → List (String × β)
  | [] => [(k, v)]
  | (k', v') :: rest =>
      if k < k' then (k, v) :: (k', v') :: rest
      else if k = k' then (k, v) :: rest
      else (k', v') :: insertSorted k v rest

/-- Key/value pairs as a map sorted by key, a later pair replacing an earlier one. -/
def toSortedMap {β : Type} (pairs : List (String × β)) : List (String × β) :=
  pairs.foldl (fun m p => insertSorted p.1 p.2 m) []

namespace Module

/-- The first function marked as entry point. -/
def entryPoint? (m : Module) : Option Function := m.functions.find? (·.isEntryPoint)

/-- The entry point's attributes as a map sorted by key (empty without an entry point). -/
def entryAttributes (m : Module) : List (String × Option String) :=
  match m.entryPoint? with
  | some f => toSortedMap (f.attributes.map fun a => (a.key, a.value))
  | none => []

end Module
end Ir
end QirGen
