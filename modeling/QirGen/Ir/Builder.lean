import QirGen.Ir.Basic
import QirGen.Fault

/-!
# Building modules

A `Builder` is a module under construction with an insertion point: a current function
and a block of it. Instructions go to the end of the insertion block. A call declares its
callee the first time a callee of that name is called, with that first signature, so the
declarations list each called name once, in order of first call. Setting an attribute
replaces the value of a key already present, keeping its place, and appends a new key.

Block references are indices into the current function's blocks. The operations below
take any reference and read a missing block as the empty label; `Builder.run` performs
an operation as a caller issues it, where reading a block past the current function's
blocks, or appending to such a block, is a fault.
-/

namespace QirGen
namespace Ir

/-- A module under construction with an insertion point. -/
structure Builder where
  module : Module
  function : Nat := 0
  block : Nat := 0
  deriving Inhabited

namespace Builder

/-- A module with one function, its entry block the insertion point. -/
def new (moduleName functionName : String) : Builder :=
  { module := { name := moduleName, functions := [{ name := functionName }] } }

/-- The current function. -/
def current (b : Builder) : Function := b.module.functions.getD b.function default

/-- Applies a change to the current function. -/
def modifyCurrent (b : Builder) (g : Function → Function) : Builder :=
  { b with module := { b.module with functions := b.module.functions.modify b.function g } }

/-- Adds a function and moves the insertion point to its entry block (reference `0`). -/
def createFunction (b : Builder) (name : String) : Builder × Nat :=
  let m := b.module
  ({ module := { m with functions := m.functions ++ [{ name }] },
     function := m.functions.length, block := 0 }, 0)

/-- Adds a block at the end of the current function and returns its reference. -/
def appendBlock (b : Builder) (label : String) : Builder × Nat :=
  (b.modifyCurrent fun f => { f with blocks := f.blocks ++ [{ label }] },
   b.current.blocks.length)

/-- Moves the insertion point to the end of a block of the current function. -/
def positionAtEnd (b : Builder) (block : Nat) : Builder := { b with block }

/-- The label of a block of the current function. -/
def label (b : Builder) (block : Nat) : String :=
  (b.current.blocks[block]?.map (·.label)).getD ""

/-- Appends an instruction to the insertion block. -/
def push (b : Builder) (i : Instr) : Builder :=
  b.modifyCurrent fun f =>
    { f with blocks := f.blocks.modify b.block fun blk => { blk with instrs := blk.instrs ++ [i] } }

/-- Declares a callee unless a callee of its name is declared. -/
def declare (b : Builder) (c : Callee) : Builder :=
  if b.module.declarations.any (·.name == c.name) then b
  else { b with module := { b.module with declarations := b.module.declarations ++ [c] } }

/-- The value a call binds: its result, when it returns something and has a name. -/
def boundValue (c : Callee) (result : Option String) : Option Value :=
  match result with
  | some n => if c.ret = .void then none else some (.named c.ret n)
  | none => none

/-- Appends a call and returns the value it binds, if any. -/
def call (b : Builder) (c : Callee) (args : List Value) (result : Option String) :
    Builder × Option Value :=
  let r := if c.ret = .void then none else result
  ((b.declare c).push (.call c.name c.ret args r), boundValue c result)

/-- Appends a call whose bound value is not needed. -/
def callUnit (b : Builder) (c : Callee) (args : List Value) : Builder :=
  (b.call c args none).1

/-- Appends a branch to a block. -/
def br (b : Builder) (target : Nat) : Builder := b.push (.br (b.label target))

/-- Appends a conditional branch between two blocks. -/
def condBr (b : Builder) (cond : Value) (onTrue onFalse : Nat) : Builder :=
  b.push (.condBr cond (b.label onTrue) (b.label onFalse))

/-- Appends a return. -/
def ret (b : Builder) : Builder := b.push .ret

/-- Sets an attribute in a list: replaces the first entry of the key, or appends. -/
def setIn (attrs : List Attribute) (key : String) (value : Option String) : List Attribute :=
  match attrs with
  | [] => [{ key, value }]
  | a :: rest => if a.key == key then { key, value } :: rest else a :: setIn rest key value

/-- Sets an attribute of the current function. -/
def setAttribute (b : Builder) (key : String) (value : Option String) : Builder :=
  b.modifyCurrent fun f => { f with attributes := setIn f.attributes key value }

/-- Adds a module flag. -/
def addFlag (b : Builder) (flag : Flag) : Builder :=
  { b with module := { b.module with flags := b.module.flags ++ [flag] } }

/-- The number of instructions of the current function. -/
def instructionCount (b : Builder) : Nat := b.current.instrs.length

/-- The label of a block of the current function; a reference past its blocks is a
fault. -/
def labelOf (b : Builder) (block : Nat) : Except Fault String :=
  match b.current.blocks[block]? with
  | some blk => .ok blk.label
  | none => .error (.indexOutOfBounds b.current.blocks.length block)

/-- Checks that the insertion block is a block of the current function. -/
def checkInsertion (b : Builder) : Except Fault Unit :=
  if b.block < b.current.blocks.length then .ok ()
  else .error (.indexOutOfBounds b.current.blocks.length b.block)

/-- An operation on a builder, as a caller issues it. -/
inductive Op where
  | createFunction (name : String)
  | appendBlock (label : String)
  | insertionBlock
  | positionAtEnd (block : Nat)
  | label (block : Nat)
  | call (callee : Callee) (args : List Value) (result : Option String)
  | br (target : Nat)
  | condBr (cond : Value) (onTrue onFalse : Nat)
  | ret
  | setAttribute (key : String) (value : Option String)
  | addFlag (flag : Flag)

/-- What an operation answers: nothing, a block reference, a label, or the value a call
binds. -/
inductive Reply where
  | unit
  | block (ref : Nat)
  | label (text : String)
  | bound (value : Option Value)

/-- Performs an operation. A branch reads its targets' labels (the true target first),
and an instruction goes to the insertion block; reading a block past the current
function's blocks is a fault. Moving the insertion point checks nothing. -/
def run (b : Builder) : Op → Except Fault (Builder × Reply)
  | .createFunction name => let (b, r) := b.createFunction name; .ok (b, .block r)
  | .appendBlock l => let (b, r) := b.appendBlock l; .ok (b, .block r)
  | .insertionBlock => .ok (b, .block b.block)
  | .positionAtEnd r => .ok (b.positionAtEnd r, .unit)
  | .label r => do return (b, .label (← b.labelOf r))
  | .call c args result => do
    b.checkInsertion
    let (b, v) := b.call c args result
    return (b, .bound v)
  | .br t => do
    let _ ← b.labelOf t
    b.checkInsertion
    return (b.br t, .unit)
  | .condBr cond t f => do
    let _ ← b.labelOf t
    let _ ← b.labelOf f
    b.checkInsertion
    return (b.condBr cond t f, .unit)
  | .ret => do
    b.checkInsertion
    return (b.ret, .unit)
  | .setAttribute k v => .ok (b.setAttribute k v, .unit)
  | .addFlag f => .ok (b.addFlag f, .unit)

end Builder
end Ir
end QirGen
