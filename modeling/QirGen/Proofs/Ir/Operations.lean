import Mathlib.Data.List.Induction
import QirGen.Proofs.Ir.AttributeRead
import QirGen.Proofs.Lower.BlockOrder
import QirGen.Proofs.Lower.Declarations

/-!
# What a run of builder operations makes

A caller builds a module by issuing operations to a `Builder` (`Builder.run`): it creates
functions, appends blocks, moves the insertion point, writes calls, branches and returns, sets
attributes and adds flags. A block reference is an index into the current function's blocks,
handed out by `appendBlock`, and by `createFunction` for the new function's entry block.

`runAll` performs a list of operations. What a successful operation leaves is `effect`
(`run_eq_ok`), and each invariant is one lemma about `effect` and one about runs:

* when the caller passes only references handed out for the current function
  (`RefsHandedOut`), no operation faults, and the function and the insertion block stay in
  range (`InRange.run`, `InRange.runAll`);
* the declarations name each called callee once, in order of first call, with the signature
  of that first call (`DeclaresFirst`);
* each function's attributes hold the keys set on it once each, in order of first setting, with
  the value set last (`SetsLast`); the functions are one per `createFunction` after the first,
  and the settings each one receives are those between two creations (`List.splitOnP`);
* a call answers the value it binds and records its result name under the same condition
  (`run_call`).

Main statement: `runAll_invariants`.
-/

namespace QirGen
namespace Ir
namespace Builder

/-! ### Operations and their runs -/

namespace Op

/-- The block references an operation passes. -/
def refs : Op → List Nat
  | .positionAtEnd r | .label r | .br r => [r]
  | .condBr _ t f => [t, f]
  | _ => []

/-- The callee a call names. -/
def callee? : Op → Option Callee
  | .call c _ _ => some c
  | _ => none

/-- The key and value an attribute setting sets. -/
def setting? : Op → Option (String × Option String)
  | .setAttribute k v => some (k, v)
  | _ => none

/-- Whether the operation creates a function. -/
def isCreate : Op → Bool
  | .createFunction _ => true
  | _ => false

/-- The block references a caller holds for the current function after an operation and its
reply: a new function's entry block replaces them, an appended block joins them. -/
def handOut : Op → Reply → List Nat → List Nat
  | .createFunction _, .block r, _ => [r]
  | .appendBlock _, .block r, held => held ++ [r]
  | _, _, held => held

end Op

/-- Performs operations one after another, stopping at the first fault: the builder at the end
and the reply to each operation. -/
def runAll (b : Builder) : List Op → Except Fault (Builder × List Reply)
  | [] => .ok (b, [])
  | op :: ops => do
    let (b₁, reply) ← b.run op
    let (b₂, replies) ← runAll b₁ ops
    return (b₂, reply :: replies)

/-- Every block reference the operations pass was handed out for the current function, given
that `held` holds the references handed out for it so far. -/
def RefsHandedOut : Builder → List Nat → List Op → Prop
  | _, _, [] => True
  | b, held, op :: ops => (∀ r ∈ op.refs, r ∈ held) ∧
      ∀ b' reply, b.run op = .ok (b', reply) → RefsHandedOut b' (op.handOut reply held) ops

/-- The builder an operation leaves when it does not fault. -/
def effect (b : Builder) : Op → Builder
  | .createFunction name => (b.createFunction name).1
  | .appendBlock l => (b.appendBlock l).1
  | .insertionBlock | .label _ => b
  | .positionAtEnd r => b.positionAtEnd r
  | .call c args result => (b.call c args result).1
  | .br t => b.br t
  | .condBr cond t f => b.condBr cond t f
  | .ret => b.ret
  | .setAttribute k v => b.setAttribute k v
  | .addFlag f => b.addFlag f

variable {b b' b₁ : Builder} {op : Op} {ops : List Op} {rs : List Reply} {reply : Reply}

/-- An operation that does not fault leaves its effect. -/
theorem run_eq_ok (h : b.run op = .ok (b', reply)) : b' = b.effect op := by
  cases op with
  | call c args result =>
    obtain ⟨⟨⟩, -, h⟩ := bind_eq_ok.1 h
    exact (congrArg Prod.fst (Except.ok.inj h)).symm
  | br t =>
    obtain ⟨_, -, h⟩ := bind_eq_ok.1 h
    obtain ⟨⟨⟩, -, h⟩ := bind_eq_ok.1 h
    exact (congrArg Prod.fst (Except.ok.inj h)).symm
  | condBr cond t f =>
    obtain ⟨_, -, h⟩ := bind_eq_ok.1 h
    obtain ⟨_, -, h⟩ := bind_eq_ok.1 h
    obtain ⟨⟨⟩, -, h⟩ := bind_eq_ok.1 h
    exact (congrArg Prod.fst (Except.ok.inj h)).symm
  | ret =>
    obtain ⟨⟨⟩, -, h⟩ := bind_eq_ok.1 h
    exact (congrArg Prod.fst (Except.ok.inj h)).symm
  | label r =>
    obtain ⟨_, -, h⟩ := bind_eq_ok.1 h
    exact (congrArg Prod.fst (Except.ok.inj h)).symm
  | createFunction | appendBlock | insertionBlock | positionAtEnd | setAttribute | addFlag =>
    exact (congrArg Prod.fst (Except.ok.inj h)).symm

theorem runAll_cons_eq_ok :
    runAll b (op :: ops) = .ok (b', rs) ↔
      ∃ b₁ reply rs₁, b.run op = .ok (b₁, reply) ∧ runAll b₁ ops = .ok (b', rs₁) ∧ rs = reply :: rs₁ := by
  constructor
  · intro h
    obtain ⟨⟨b₁, reply⟩, h₁, h⟩ := bind_eq_ok.1 h
    obtain ⟨⟨b₂, rs₁⟩, h₂, h⟩ := bind_eq_ok.1 h
    obtain ⟨rfl, rfl⟩ := Prod.mk.inj (Except.ok.inj h)
    exact ⟨b₁, reply, rs₁, h₁, h₂, rfl⟩
  · rintro ⟨b₁, reply, rs₁, h₁, h₂, rfl⟩
    simp only [runAll, h₁, h₂, ok_bind]
    rfl

/-- A run of two lists of operations is the run of the first and then of the second. -/
theorem runAll_append_eq_ok : ∀ {b b' : Builder} {xs ys : List Op} {rs : List Reply},
    runAll b (xs ++ ys) = .ok (b', rs) →
      ∃ b₁ rs₁ rs₂, runAll b xs = .ok (b₁, rs₁) ∧ runAll b₁ ys = .ok (b', rs₂) ∧ rs = rs₁ ++ rs₂
  | b, _, [], _, rs, h => ⟨b, [], rs, rfl, h, rfl⟩
  | _, _, op :: xs, _, _, h => by
    obtain ⟨b₁, reply, rs', h₁, h', rfl⟩ := runAll_cons_eq_ok.1 h
    obtain ⟨b₂, rs₁, rs₂, h₂, h₃, rfl⟩ := runAll_append_eq_ok h'
    exact ⟨b₂, reply :: rs₁, rs₂, runAll_cons_eq_ok.2 ⟨b₁, reply, rs₁, h₁, h₂, rfl⟩, h₃, rfl⟩

/-- An operation that passes held references and succeeds, followed by operations that keep to
the references then held, keeps to handed-out references. -/
theorem RefsHandedOut.cons_of_run {held : List Nat} (hrun : b.run op = .ok (b₁, reply))
    (hrefs : ∀ r ∈ op.refs, r ∈ held) (hrest : RefsHandedOut b₁ (op.handOut reply held) ops) :
    RefsHandedOut b held (op :: ops) := by
  refine ⟨hrefs, fun b' reply' h => ?_⟩
  rw [hrun] at h
  obtain ⟨rfl, rfl⟩ := Prod.mk.inj (Except.ok.inj h)
  exact hrest

/-- A caller that keeps to handed-out references in a list of operations keeps to them in its
first part. -/
theorem RefsHandedOut.append_left : ∀ {b : Builder} {held : List Nat} {xs ys : List Op},
    RefsHandedOut b held (xs ++ ys) → RefsHandedOut b held xs
  | _, _, [], _, _ => trivial
  | _, _, _ :: _, _, ⟨hrefs, hrest⟩ => ⟨hrefs, fun b' reply hrun => (hrest b' reply hrun).append_left⟩

/-! ### Every index stays in range -/

/-- The builder's function and insertion block exist, and so does every block the caller holds. -/
structure InRange (b : Builder) (held : List Nat) : Prop where
  function_lt : b.function < b.module.functions.length
  block_lt : b.block < b.current.blocks.length
  held_lt : ∀ r ∈ held, r < b.current.blocks.length

@[simp] theorem function_declare (c : Callee) : (b.declare c).function = b.function := by
  rw [declare_eq]

@[simp] theorem block_declare (c : Callee) : (b.declare c).block = b.block := by
  rw [declare_eq]

@[simp] theorem functions_declare (c : Callee) : (b.declare c).module.functions = b.module.functions := by
  rw [declare_eq]

theorem current_push (hf : b.function < b.module.functions.length) (x : Instr) :
    (b.push x).current = { b.current with
      blocks := b.current.blocks.modify b.block fun blk => { blk with instrs := blk.instrs ++ [x] } } :=
  current_modifyCurrent hf _

theorem InRange.push {held : List Nat} (h : b.InRange held) (x : Instr) : (b.push x).InRange held := by
  have hlen : (b.push x).current.blocks.length = b.current.blocks.length := by
    simp [current_push h.function_lt]
  refine ⟨by simpa [Builder.push, modifyCurrent] using h.function_lt, ?_, ?_⟩
  · rw [hlen, block_push]
    exact h.block_lt
  · rw [hlen]
    exact h.held_lt

theorem InRange.declare {held : List Nat} (h : b.InRange held) (c : Callee) : (b.declare c).InRange held := by
  refine ⟨?_, ?_, ?_⟩ <;> simp only [function_declare, functions_declare, block_declare, current_declare]
  exacts [h.function_lt, h.block_lt, h.held_lt]

/-- A reference to a block of the current function has a label. -/
theorem labelOf_of_lt {r : Nat} (hr : r < b.current.blocks.length) : b.labelOf r = .ok (b.label r) := by
  simp [labelOf, label, List.getElem?_eq_getElem hr]

theorem checkInsertion_of_lt (hb : b.block < b.current.blocks.length) : b.checkInsertion = .ok () := by
  simp [checkInsertion, hb]

/-- **Progress.** From a builder in range, an operation that passes only references the caller
holds does not fault, and leaves a builder in range with the references it then holds. -/
theorem InRange.run {held : List Nat} (h : b.InRange held) (hrefs : ∀ r ∈ op.refs, r ∈ held) :
    ∃ reply, b.run op = .ok (b.effect op, reply) ∧ (b.effect op).InRange (op.handOut reply held) := by
  have hin := h.block_lt
  cases op with
  | createFunction name =>
    refine ⟨.block 0, rfl, ⟨by simp [effect, Builder.createFunction], ?_, ?_⟩⟩
    · simp [effect, Builder.createFunction, current]
    · simp [Op.handOut, effect, Builder.createFunction, current]
  | appendBlock l =>
    have hc := current_modifyCurrent h.function_lt fun f => { f with blocks := f.blocks ++ [{ label := l }] }
    refine ⟨.block b.current.blocks.length, rfl,
      ⟨by simpa [effect, Builder.appendBlock, modifyCurrent] using h.function_lt, ?_, ?_⟩⟩
    · simp only [effect, Builder.appendBlock, block_modifyCurrent, hc, List.length_append]
      omega
    · simp only [Op.handOut, effect, Builder.appendBlock, hc, List.length_append, List.mem_append,
        List.mem_singleton]
      rintro r (hr | rfl)
      · have := h.held_lt r hr
        omega
      · simp
  | insertionBlock => exact ⟨.block b.block, rfl, h⟩
  | positionAtEnd r =>
    have hr := h.held_lt r (hrefs r (by simp [Op.refs]))
    exact ⟨.unit, rfl, h.function_lt, hr, h.held_lt⟩
  | label r =>
    have hr := h.held_lt r (hrefs r (by simp [Op.refs]))
    exact ⟨.label (b.label r), by rw [Builder.run, labelOf_of_lt hr]; rfl, h⟩
  | call c args result =>
    exact ⟨.bound (boundValue c result), by rw [Builder.run, checkInsertion_of_lt hin]; rfl,
      (h.declare c).push _⟩
  | br t =>
    have ht := h.held_lt t (hrefs t (by simp [Op.refs]))
    exact ⟨.unit, by rw [Builder.run, labelOf_of_lt ht, checkInsertion_of_lt hin]; rfl, h.push _⟩
  | condBr cond t f =>
    have ht := h.held_lt t (hrefs t (by simp [Op.refs]))
    have hf := h.held_lt f (hrefs f (by simp [Op.refs]))
    exact ⟨.unit, by rw [Builder.run, labelOf_of_lt ht, labelOf_of_lt hf, checkInsertion_of_lt hin]; rfl,
      h.push _⟩
  | ret => exact ⟨.unit, by rw [Builder.run, checkInsertion_of_lt hin]; rfl, h.push _⟩
  | setAttribute k v =>
    have hc := current_modifyCurrent h.function_lt fun f => { f with attributes := setIn f.attributes k v }
    refine ⟨.unit, rfl, ⟨by simpa [effect, Builder.setAttribute, modifyCurrent] using h.function_lt, ?_, ?_⟩⟩
    · simpa [effect, Builder.setAttribute, hc] using h.block_lt
    · simpa [Op.handOut, effect, Builder.setAttribute, hc] using h.held_lt
  | addFlag f => exact ⟨.unit, rfl, h.function_lt, h.block_lt, h.held_lt⟩

/-- A run that passes only handed-out references does not fault, and ends in range. -/
theorem InRange.runAll : ∀ {b : Builder} {held : List Nat} {ops : List Op},
    b.InRange held → RefsHandedOut b held ops →
      ∃ b' rs, b.runAll ops = .ok (b', rs) ∧ ∃ held', b'.InRange held'
  | b, held, [], h, _ => ⟨b, [], rfl, held, h⟩
  | b, _, op :: ops, h, ⟨hrefs, hrest⟩ => by
    obtain ⟨reply, hrun, h₁⟩ := h.run hrefs
    obtain ⟨b', rs, hrun', hend⟩ := h₁.runAll (hrest _ _ hrun)
    exact ⟨b', reply :: rs, runAll_cons_eq_ok.2 ⟨_, reply, rs, hrun, hrun', rfl⟩, hend⟩

theorem inRange_new (moduleName functionName : String) : (new moduleName functionName).InRange [] :=
  ⟨by simp [new], by simp [new, current], by simp⟩

/-! ### Declarations -/

/-- The declarations list each callee called once, in order of first call, each with the
signature of the first call by its name. -/
structure DeclaresFirst (calls decls : List Callee) : Prop where
  names_eq : decls.map (·.name) = (calls.map (·.name)).eraseDups
  first_eq : ∀ d ∈ decls, calls.find? (·.name == d.name) = some d

theorem filterMap_cons_toList {α β : Type} (f : α → Option β) (a : α) (l : List α) :
    (a :: l).filterMap f = (f a).toList ++ l.filterMap f := by
  cases h : f a <;> simp [h]

/-- A call declares its callee exactly when no earlier call named it. -/
theorem DeclaresFirst.declare {calls : List Callee} (h : DeclaresFirst calls b.module.declarations)
    (c : Callee) : DeclaresFirst (calls ++ [c]) (b.declare c).module.declarations := by
  rw [declarations_declare h.names_eq c]
  split
  · rename_i hcalled
    refine ⟨?_, fun d hd => ?_⟩
    · rw [List.map_append, List.map_singleton, eraseDups_append_singleton, if_pos hcalled, List.append_nil,
        h.names_eq]
    · rw [List.find?_append, h.first_eq d hd]
      rfl
  · rename_i hfresh
    have hnone : calls.find? (·.name == c.name) = none := by
      rw [List.find?_eq_none]
      intro x hx heq
      exact hfresh (List.mem_map.2 ⟨x, hx, by simpa using heq⟩)
    refine ⟨?_, fun d hd => ?_⟩
    · rw [List.map_append, List.map_append, List.map_singleton, eraseDups_append_singleton, if_neg hfresh,
        h.names_eq]
    · rcases List.mem_append.1 hd with hd | hd
      · rw [List.find?_append, h.first_eq d hd]
        rfl
      · rw [List.mem_singleton.1 hd, List.find?_append, hnone]
        simp

theorem DeclaresFirst.effect {calls : List Callee} (h : DeclaresFirst calls b.module.declarations) (op : Op) :
    DeclaresFirst (calls ++ op.callee?.toList) (b.effect op).module.declarations := by
  cases op with
  | call c args result => exact h.declare c
  | _ => simpa [Op.callee?, Builder.effect, Builder.createFunction, Builder.appendBlock, Builder.positionAtEnd,
      Builder.br, Builder.condBr, Builder.ret, Builder.setAttribute, Builder.addFlag] using h

/-- Every run declares the callees of its calls once each, in order of first call. -/
theorem DeclaresFirst.runAll : ∀ {b b' : Builder} {ops : List Op} {rs : List Reply} {calls : List Callee},
    b.runAll ops = .ok (b', rs) → DeclaresFirst calls b.module.declarations →
      DeclaresFirst (calls ++ ops.filterMap Op.callee?) b'.module.declarations
  | b, _, [], _, _, h, hd => by
    obtain ⟨rfl, -⟩ := Prod.mk.inj (Except.ok.inj h)
    simpa using hd
  | _, _, op :: ops, _, _, h, hd => by
    obtain ⟨b₁, reply, rs₁, h₁, h', -⟩ := runAll_cons_eq_ok.1 h
    have hd₁ : DeclaresFirst _ b₁.module.declarations := run_eq_ok h₁ ▸ hd.effect op
    rw [filterMap_cons_toList, ← List.append_assoc]
    exact DeclaresFirst.runAll h' hd₁

/-! ### Attributes -/

/-- The attributes that setting keys, in order, leaves on attributes. -/
def applySettings (attrs : List Attribute) (sets : List (String × Option String)) : List Attribute :=
  sets.foldl (fun as p => setIn as p.1 p.2) attrs

@[simp] theorem applySettings_nil (attrs : List Attribute) : applySettings attrs [] = attrs := rfl

theorem applySettings_append (attrs : List Attribute) (xs ys : List (String × Option String)) :
    applySettings attrs (xs ++ ys) = applySettings (applySettings attrs xs) ys := by
  simp [applySettings, List.foldl_append]

/-- The attributes settings leave: each key set once, in order of its first setting, with the
value of its last. -/
structure SetsLast (sets : List (String × Option String)) (attrs : List Attribute) : Prop where
  keys_eq : attrs.map (·.key) = (sets.map (·.1)).eraseDups
  value_eq : ∀ a ∈ attrs, sets.reverse.lookup a.key = some a.value

/-- Setting a key keeps the keys, or appends it if it is new. -/
theorem keys_setIn (k : String) (v : Option String) : ∀ attrs : List Attribute,
    (setIn attrs k v).map (·.key) = if k ∈ attrs.map (·.key) then attrs.map (·.key) else attrs.map (·.key) ++ [k]
  | [] => by simp [setIn]
  | a :: rest => by
    have ih := keys_setIn k v rest
    by_cases hk : a.key = k
    · simp [setIn, hk]
    · simp only [setIn, beq_iff_eq, hk, if_false, List.map_cons, ih, List.mem_cons, Ne.symm hk, false_or]
      split <;> simp

/-- Setting a key of attributes with distinct keys gives it the value, and keeps the others. -/
theorem mem_setIn {k : String} {v : Option String} : ∀ {attrs : List Attribute} {a : Attribute},
    (attrs.map (·.key)).Nodup → a ∈ setIn attrs k v → (a.key = k ∧ a.value = v) ∨ (a.key ≠ k ∧ a ∈ attrs)
  | [], a, _, ha => by simp [setIn] at ha; simp [ha]
  | x :: rest, a, hnd, ha => by
    rw [List.map_cons, List.nodup_cons] at hnd
    by_cases hk : x.key = k
    · simp only [setIn, hk, beq_self_eq_true, if_true, List.mem_cons] at ha
      rcases ha with rfl | ha
      · exact .inl ⟨rfl, rfl⟩
      · -- no other attribute has the key
        have hne : a.key ≠ k := fun h => hnd.1 (hk ▸ h ▸ List.mem_map_of_mem ha)
        exact .inr ⟨hne, List.mem_cons_of_mem x ha⟩
    · simp only [setIn, beq_iff_eq, hk, if_false, List.mem_cons] at ha
      rcases ha with rfl | ha
      · exact .inr ⟨hk, List.mem_cons_self⟩
      · rcases mem_setIn hnd.2 ha with h | ⟨hne, ha⟩
        · exact .inl h
        · exact .inr ⟨hne, List.mem_cons_of_mem x ha⟩

/-- Setting a key keeps what settings leave: the key is appended if new and takes the value. -/
theorem SetsLast.setIn {sets : List (String × Option String)} {attrs : List Attribute}
    (h : SetsLast sets attrs) (k : String) (v : Option String) :
    SetsLast (sets ++ [(k, v)]) (Builder.setIn attrs k v) := by
  have hmem : k ∈ attrs.map (·.key) ↔ k ∈ sets.map (·.1) := by
    rw [h.keys_eq, List.mem_eraseDups]
  refine ⟨?_, fun a ha => ?_⟩
  · rw [keys_setIn, List.map_append, List.map_singleton, eraseDups_append_singleton, ← h.keys_eq]
    by_cases hk : k ∈ sets.map (·.1)
    · rw [if_pos (hmem.2 hk), if_pos hk, List.append_nil]
    · rw [if_neg (mt hmem.1 hk), if_neg hk]
  · have hnd : (attrs.map (·.key)).Nodup := h.keys_eq ▸ nodup_eraseDups _
    rw [List.reverse_append, List.reverse_singleton, List.singleton_append]
    rcases mem_setIn hnd ha with ⟨hk, hv⟩ | ⟨hk, ha⟩
    · rw [hk, List.lookup_cons_self, hv]
    · rw [lookup_cons_of_ne v _ hk]
      exact h.value_eq a ha

/-- Settings made on a function without attributes leave what settings leave. -/
theorem setsLast_applySettings (sets : List (String × Option String)) : SetsLast sets (applySettings [] sets) := by
  induction sets using List.reverseRecOn with
  | nil => exact ⟨rfl, by simp⟩
  | append_singleton sets p ih =>
    rw [applySettings_append]
    exact ih.setIn p.1 p.2

/-- An operation other than a creation changes the current function only, and its attributes by
the setting it makes. -/
theorem effect_functions (hop : op.isCreate = false) :
    ∃ g : Function → Function, (b.effect op).module.functions = b.module.functions.modify b.function g ∧
      (b.effect op).function = b.function ∧ ∀ f, (g f).attributes = applySettings f.attributes op.setting?.toList := by
  cases op with
  | createFunction => simp [Op.isCreate] at hop
  | appendBlock l => exact ⟨_, rfl, rfl, fun f => rfl⟩
  | insertionBlock | label | positionAtEnd | addFlag =>
    exact ⟨id, by simp [effect, Builder.positionAtEnd, Builder.addFlag], rfl, fun f => rfl⟩
  | call c args result =>
    refine ⟨fun f => { f with blocks := f.blocks.modify b.block fun blk =>
        { blk with instrs := blk.instrs ++ [.call c.name c.ret args (if c.ret = .void then none else result)] } },
      ?_, ?_, fun f => rfl⟩ <;>
    simp [effect, Builder.call, Builder.push, modifyCurrent]
  | br | condBr | ret => exact ⟨_, rfl, rfl, fun f => rfl⟩
  | setAttribute k v => exact ⟨_, rfl, rfl, fun f => rfl⟩

/-- The attributes after a run from a builder writing into its last function: that function's
settings, those before the first creation, are made on its attributes, and each function the
run creates holds the settings made before the next creation. -/
theorem attributes_runAll : ∀ {b b' : Builder} {ops : List Op} {rs : List Reply} {l : List Function}
    {f : Function}, b.runAll ops = .ok (b', rs) → b.module.functions = l ++ [f] → b.function = l.length →
      ∃ seg rest, ops.splitOnP Op.isCreate = seg :: rest ∧
        b'.module.functions.map (·.attributes) =
          l.map (·.attributes) ++ applySettings f.attributes (seg.filterMap Op.setting?) ::
            rest.map fun s => applySettings [] (s.filterMap Op.setting?)
  | b, _, [], _, fs, f, h, hfs, _ => by
    obtain ⟨rfl, -⟩ := Prod.mk.inj (Except.ok.inj h)
    exact ⟨[], [], rfl, by simp [hfs]⟩
  | b, _, op :: ops, _, fs, f, h, hfs, hf => by
    obtain ⟨b₁, reply, rs₁, h₁, h', -⟩ := runAll_cons_eq_ok.1 h
    obtain rfl := run_eq_ok h₁
    cases hop : op.isCreate with
    | true =>
      -- a creation closes the function's settings and opens the new function's
      obtain ⟨name, rfl⟩ : ∃ name, op = .createFunction name := by
        cases op <;> simp [Op.isCreate] at hop
        exact ⟨_, rfl⟩
      obtain ⟨seg, rest, hsplit, hattrs⟩ := attributes_runAll (l := fs ++ [f]) (f := { name }) h'
        (by simp [effect, Builder.createFunction, hfs]) (by simp [effect, Builder.createFunction, hfs])
      refine ⟨[], seg :: rest, ?_, ?_⟩
      · rw [List.splitOnP_cons_eq_if_modifyHead, if_pos hop, hsplit]
      · rw [hattrs]
        simp
    | false =>
      obtain ⟨g, hfun, hidx, hg⟩ := effect_functions (b := b) hop
      have hfs₁ : (b.effect op).module.functions = fs ++ [g f] := by
        rw [hfun, hfs, hf, modify_at_length]
      obtain ⟨seg, rest, hsplit, hattrs⟩ := attributes_runAll h' hfs₁ (hidx.trans hf)
      refine ⟨op :: seg, rest, ?_, ?_⟩
      · rw [List.splitOnP_cons_eq_if_modifyHead, if_neg (by simp [hop]), hsplit]
        rfl
      · rw [hattrs, hg, filterMap_cons_toList, applySettings_append]

/-- The attributes of every function are what the settings made on it leave. -/
theorem setsLast_runAll {moduleName functionName : String} (h : (new moduleName functionName).runAll ops = .ok (b', rs)) :
    List.Forall₂ (fun seg f => SetsLast (seg.filterMap Op.setting?) f.attributes) (ops.splitOnP Op.isCreate)
      b'.module.functions := by
  obtain ⟨seg, rest, hsplit, hattrs⟩ := attributes_runAll (l := []) (f := { name := functionName }) h rfl rfl
  have hmap : b'.module.functions.map (·.attributes) =
      (ops.splitOnP Op.isCreate).map fun s => applySettings [] (s.filterMap Op.setting?) := by
    rw [hattrs, hsplit]
    rfl
  rw [← List.forall₂_map_right_iff, hmap, List.forall₂_map_right_iff, List.forall₂_same]
  exact fun s _ => setsLast_applySettings _

/-! ### Calls -/

/-- A call answers `%n` of its callee's type, and records the name `n` on the call, exactly when
the callee returns something and `n` was given; it writes at the end of the insertion block. -/
theorem run_call {c : Callee} {args : List Value} {result : Option String}
    (h : b.run (.call c args result) = .ok (b', reply)) (hf : b.function < b.module.functions.length) :
    ∃ r, reply = .bound (r.map (.named c.ret)) ∧ (∀ n, r = some n ↔ c.ret ≠ .void ∧ result = some n) ∧
      b'.block = b.block ∧ (b'.current.blocks[b'.block]?.bind (·.instrs.getLast?)) = some (.call c.name c.ret args r) := by
  obtain ⟨⟨⟩, hcheck, h⟩ := bind_eq_ok.1 h
  have hin : b.block < b.current.blocks.length := by
    unfold checkInsertion at hcheck
    split at hcheck
    · assumption
    · cases hcheck
  obtain ⟨rfl, rfl⟩ := Prod.mk.inj (Except.ok.inj h)
  refine ⟨if c.ret = .void then none else result, ?_, ?_, by simp, ?_⟩
  · cases result <;> by_cases hv : c.ret = .void <;> simp [boundValue, hv]
  · intro n
    by_cases hv : c.ret = .void <;> simp [hv]
  · have hcur := current_push (b := b.declare c) (by simpa using hf)
      (.call c.name c.ret args (if c.ret = .void then none else result))
    simp only [block_push, block_declare, hcur, current_declare]
    simp [List.getElem?_eq_getElem hin]

/-! ### Runs from a fresh builder -/

/-- **What a run of builder operations makes.** From a fresh builder, operations that pass only
handed-out block references never fault and keep the insertion point in range; the declarations
name each callee once, with the signature of its first call; each function's attributes hold
each key set on it once, with the value set last; and a call binds its name exactly when its
callee returns something. -/
theorem runAll_invariants (moduleName functionName : String) (ops : List Op)
    (hops : RefsHandedOut (new moduleName functionName) [] ops) :
    (∀ pre post, ops = pre ++ post → ∃ b₁ rs₁, (new moduleName functionName).runAll pre = .ok (b₁, rs₁) ∧
      b₁.function < b₁.module.functions.length ∧ b₁.block < b₁.current.blocks.length) ∧
    ∃ b rs, (new moduleName functionName).runAll ops = .ok (b, rs) ∧
      DeclaresFirst (ops.filterMap Op.callee?) b.module.declarations ∧
      List.Forall₂ (fun seg f => SetsLast (seg.filterMap Op.setting?) f.attributes)
        (ops.splitOnP Op.isCreate) b.module.functions ∧
      ∀ pre c args result, ops = pre ++ [.call c args result] →
        ∃ r, rs.getLast? = some (.bound (r.map (.named c.ret))) ∧
          (∀ n, r = some n ↔ c.ret ≠ .void ∧ result = some n) ∧
          (b.current.blocks[b.block]?.bind (·.instrs.getLast?)) = some (.call c.name c.ret args r) := by
  have hstart := inRange_new moduleName functionName
  refine ⟨fun pre post hsplit => ?_, ?_⟩
  · -- every prefix is a run of handed-out references
    obtain ⟨b₁, rs₁, hrun, held, hin⟩ := hstart.runAll (hsplit ▸ hops).append_left
    exact ⟨b₁, rs₁, hrun, hin.function_lt, hin.block_lt⟩
  obtain ⟨b, rs, hrun, -⟩ := hstart.runAll hops
  refine ⟨b, rs, hrun, ?_, setsLast_runAll hrun, fun pre c args result hsplit => ?_⟩
  · have hnew : DeclaresFirst [] (new moduleName functionName).module.declarations := ⟨rfl, by simp [new]⟩
    simpa using DeclaresFirst.runAll hrun hnew
  · -- the last call is a step from the state the run of the rest leaves
    subst hsplit
    obtain ⟨b₀, rs₀, rs₂, hpre, hlast, rfl⟩ := runAll_append_eq_ok hrun
    obtain ⟨b₂, reply, rs₃, hcall, hnil, rfl⟩ := runAll_cons_eq_ok.1 hlast
    obtain ⟨rfl, rfl⟩ := Prod.mk.inj (Except.ok.inj hnil)
    obtain ⟨b₀', rs₀', hpre', _, hin⟩ := hstart.runAll hops.append_left
    obtain ⟨rfl, rfl⟩ := Prod.mk.inj (Except.ok.inj (hpre.symm.trans hpre'))
    obtain ⟨r, rfl, hr, -, hinstr⟩ := run_call hcall hin.function_lt
    exact ⟨r, by simp, hr, hinstr⟩

/-- The operations of the builder's own scenarios: allocate a qubit bound to `q0` and apply `h`
to it twice, set an attribute twice, append a `then0` and a `continue0` block, branch on a
constant between them, close each, then write a helper function that applies `h`. -/
theorem runAll_invariants_branches :
    let ops : List Op := [.call Runtime.qubitAllocate [] (some "q0"), .call Runtime.h [.named .qubit "q0"] none,
      .call Runtime.h [.named .qubit "q0"] none, .setAttribute "requiredQubits" (some "1"),
      .setAttribute "requiredQubits" (some "2"), .appendBlock "then0", .appendBlock "continue0",
      .condBr (.bool true) 1 2, .positionAtEnd 1, .br 2, .positionAtEnd 2, .ret,
      .createFunction "helper", .call Runtime.h [.intToPtr .qubit 1] none, .ret]
    RefsHandedOut (new "m" "main") [] ops ∧
      ∃ b rs, (new "m" "main").runAll ops = .ok (b, rs) ∧
        DeclaresFirst (ops.filterMap Op.callee?) b.module.declarations ∧
        List.Forall₂ (fun seg f => SetsLast (seg.filterMap Op.setting?) f.attributes)
          (ops.splitOnP Op.isCreate) b.module.functions := by
  intro ops
  -- the two appended blocks are handed out as 1 and 2, the helper's entry block as 0
  have hops : RefsHandedOut (new "m" "main") [] ops := by
    refine .cons_of_run rfl (by decide) (.cons_of_run rfl (by decide) (.cons_of_run rfl (by decide) ?_))
    refine .cons_of_run rfl (by decide) (.cons_of_run rfl (by decide) ?_)
    refine .cons_of_run rfl (by decide) (.cons_of_run rfl (by decide) ?_)
    refine .cons_of_run rfl (by decide) (.cons_of_run rfl (by decide) (.cons_of_run rfl (by decide) ?_))
    refine .cons_of_run rfl (by decide) (.cons_of_run rfl (by decide) ?_)
    exact .cons_of_run rfl (by decide) (.cons_of_run rfl (by decide) (.cons_of_run rfl (by decide) trivial))
  obtain ⟨-, b, rs, hrun, hdecl, hattrs, -⟩ := runAll_invariants "m" "main" ops hops
  exact ⟨hops, b, rs, hrun, hdecl, hattrs⟩

end Builder
end Ir
end QirGen
