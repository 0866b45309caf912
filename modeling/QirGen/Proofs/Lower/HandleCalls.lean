import QirGen.Proofs.Lower.Adaptive

/-!
# The handle table under any sequence of calls

Resolving a qubit and measuring a handle are the two calls that change a handle table
(`Handles.performAll`). Each addressing mode has an invariant that one call keeps
(`StaticHandles`, `UnboundedHandles`, `DynamicHandles`, `performAll_induction`), and from it
follows what a fresh table promises in its mode (`performAll_contract`): only declared indices
when static and bounded, counts that saturate at a word when unbounded, and under dynamic
addressing one allocation per distinct qubit and the `k`-th measurement binding `%r<k>`.
-/

namespace QirGen

open Ir Lowering

namespace Handles

/-- A call that changes a handle table: resolving a qubit, or measuring a handle into a
classical bit. -/
inductive Call where
  | qubit (index : Nat)
  | measure (handle : Value) (clbit : Nat)

namespace Call

/-- The qubit a call resolves. -/
def qubit? : Call → Option Nat
  | .qubit i => some i
  | .measure _ _ => none

/-- The classical bit a call measures into. -/
def clbit? : Call → Option Nat
  | .qubit _ => none
  | .measure _ c => some c

end Call

/-- The table and the builder after a call; a refused call leaves both as they were. -/
def perform (s : Handles × Builder) : Call → Handles × Builder
  | .qubit i =>
    match s.1.qubit s.2 i with
    | .ok (h, b, _) => (h, b)
    | .error _ => s
  | .measure v c =>
    match s.1.measure s.2 v c with
    | .ok s' => s'
    | .error _ => s

/-- The table and the builder after a sequence of calls, in order. -/
def performAll (s : Handles × Builder) (calls : List Call) : Handles × Builder :=
  calls.foldl perform s

/-- A property of a state and of the calls that led to it, kept by every call, holds after
every sequence of calls. -/
theorem performAll_induction {P : Handles × Builder → List Call → Prop}
    (hstep : ∀ s calls c, P s calls → P (perform s c) (calls ++ [c]))
    {s : Handles × Builder} (h₀ : P s []) : ∀ calls, P (performAll s calls) calls := by
  intro calls
  induction calls using List.reverseRecOn with
  | nil => exact h₀
  | append_singleton calls c ih =>
    rw [performAll, List.foldl_append, List.foldl_cons, List.foldl_nil]
    exact hstep _ _ c ih

variable {s : Handles × Builder} {h : Handles} {Q R : Nat} {qs cs : List Nat}

/-! ### Bounded static tables -/

/-- What a bounded static table for `Q` qubits and `R` results promises in a state: the
required counts are the declared ones; qubit `i` resolves exactly when `i < Q`, to its constant
handle, writing nothing; a measurement into bit `c` succeeds exactly when `c < R`, writing one
`mz` call and binding the bit's own slot; and a refused call leaves the table and the builder as
they were. -/
structure BoundedPromise (s : Handles × Builder) (Q R : Nat) : Prop where
  requiredQubits_eq : s.1.requiredQubits = Q
  requiredResults_eq : s.1.requiredResults = R
  qubit_eq : ∀ i, s.1.qubit s.2 i =
    if i < Q then .ok (s.1, s.2, Value.staticQubit i) else .error (.resourceMismatch .qubit i Q)
  measure_eq : ∀ v c, s.1.measure s.2 v c =
    if c < R then
      .ok ({ s.1 with results := bind c (Value.staticResult c) s.1.results },
        s.2.callUnit Runtime.mz [v, Value.staticResult c])
    else .error (.resourceMismatch .result c R)
  perform_qubit : ∀ i, Q ≤ i → Handles.perform s (.qubit i) = s
  perform_measure : ∀ v c, R ≤ c → Handles.perform s (.measure v c) = s

/-! ### Unbounded static tables -/

/-- An unbounded static table for `Q` qubits and `R` results after resolving the qubits `qs`
and measuring into the bits `cs`: each required count is the largest of the declared count and
one past every index used. -/
structure UnboundedHandles (h : Handles) (Q R : Nat) (qs cs : List Nat) : Prop where
  mode_eq : h.mode = .static
  bounded_eq : h.bounded = false
  requiredQubits_eq : h.requiredQubits = (qs.map nextIndex).foldl max Q
  requiredResults_eq : h.requiredResults = (cs.map nextIndex).foldl max R

theorem unboundedHandles_new (Q R : Nat) :
    UnboundedHandles ((Handles.new .static Q R).withBounds false) Q R [] [] :=
  ⟨rfl, rfl, rfl, rfl⟩

/-- An unbounded static table resolves every qubit to its constant handle, writing nothing, and
raises the required qubits to one past it. -/
theorem qubit_unbounded (hu : UnboundedHandles h Q R qs cs) (b : Builder) (i : Nat) :
    h.qubit b i =
      .ok ({ h with requiredQubits := max h.requiredQubits (nextIndex i) }, b, Value.staticQubit i) := by
  simp [qubit, hu.mode_eq, hu.bounded_eq]

/-- An unbounded static table measures into every bit's own slot by one `mz` call, and raises
the required results to one past it. -/
theorem measure_unbounded (hu : UnboundedHandles h Q R qs cs) (b : Builder) (v : Value) (c : Nat) :
    h.measure b v c =
      .ok ({ h with requiredResults := max h.requiredResults (nextIndex c),
                    results := bind c (Value.staticResult c) h.results },
        b.callUnit Runtime.mz [v, Value.staticResult c]) := by
  simp [measure, hu.mode_eq, hu.bounded_eq]

theorem UnboundedHandles.perform (hu : UnboundedHandles s.1 Q R qs cs) (c : Call) :
    UnboundedHandles (perform s c).1 Q R (qs ++ [c].filterMap Call.qubit?)
      (cs ++ [c].filterMap Call.clbit?) := by
  cases c with
  | qubit i =>
    simp only [Handles.perform, qubit_unbounded hu, List.filterMap_cons, List.filterMap_nil,
      Call.qubit?, Call.clbit?]
    exact ⟨hu.mode_eq, hu.bounded_eq, by simp [hu.requiredQubits_eq], by simp [hu.requiredResults_eq]⟩
  | measure v c =>
    simp only [Handles.perform, measure_unbounded hu, List.filterMap_cons, List.filterMap_nil,
      Call.qubit?, Call.clbit?]
    exact ⟨hu.mode_eq, hu.bounded_eq, by simp [hu.requiredQubits_eq], by simp [hu.requiredResults_eq]⟩

/-- One past an index never leaves the 32-bit words. -/
theorem nextIndex_lt (i : Nat) : nextIndex i < Nat.pow 2 32 := by
  have : Nat.pow 2 32 = 4294967296 := rfl
  simp only [nextIndex, this]
  omega

/-- The largest of a 32-bit word and indices raised by `nextIndex` is a 32-bit word. -/
theorem foldl_max_nextIndex_lt : ∀ (is : List Nat) {m : Nat}, m < Nat.pow 2 32 →
    (is.map nextIndex).foldl max m < Nat.pow 2 32
  | [], _, hm => hm
  | i :: is, m, hm => by
    rw [List.map_cons, List.foldl_cons]
    exact foldl_max_nextIndex_lt is (Nat.max_lt.2 ⟨hm, nextIndex_lt i⟩)

/-- What an unbounded static table for `Q` qubits and `R` results promises after resolving the
qubits `qs` and measuring into the bits `cs`: each required count is the largest of the declared
count and one past every index used, saturating at `2^32 - 1`, so it stays a 32-bit word when
the declared count is one; and no call is refused, a qubit resolving to its constant handle with
nothing written and a measurement writing one `mz` call. -/
structure UnboundedPromise (s : Handles × Builder) (Q R : Nat) (qs cs : List Nat) : Prop where
  requiredQubits_eq : s.1.requiredQubits = (qs.map nextIndex).foldl max Q
  requiredResults_eq : s.1.requiredResults = (cs.map nextIndex).foldl max R
  qubit_eq : ∀ i, s.1.qubit s.2 i =
    .ok ({ s.1 with requiredQubits := max s.1.requiredQubits (nextIndex i) }, s.2,
      Value.staticQubit i)
  measure_eq : ∀ v c, s.1.measure s.2 v c =
    .ok ({ s.1 with requiredResults := max s.1.requiredResults (nextIndex c),
                    results := bind c (Value.staticResult c) s.1.results },
      s.2.callUnit Runtime.mz [v, Value.staticResult c])
  requiredQubits_lt : Q < Nat.pow 2 32 → s.1.requiredQubits < Nat.pow 2 32
  requiredResults_lt : R < Nat.pow 2 32 → s.1.requiredResults < Nat.pow 2 32

theorem UnboundedHandles.promise (hu : UnboundedHandles s.1 Q R qs cs) :
    UnboundedPromise s Q R qs cs where
  requiredQubits_eq := hu.requiredQubits_eq
  requiredResults_eq := hu.requiredResults_eq
  qubit_eq := qubit_unbounded hu s.2
  measure_eq := measure_unbounded hu s.2
  requiredQubits_lt hQ := hu.requiredQubits_eq ▸ foldl_max_nextIndex_lt qs hQ
  requiredResults_lt hR := hu.requiredResults_eq ▸ foldl_max_nextIndex_lt cs hR

/-! ### Dynamic tables -/

/-- What a dynamic table promises after resolving the qubits `qs` and measuring into the bits
`cs`: the required qubits are the distinct qubits resolved and the required results the
measurements made; a qubit resolved before resolves to the same handle `%q<i>` with nothing
written, a new one is allocated by one call binding `%q<i>`; the next measurement binds
`%r<k>`, `k` the number of measurements so far, by one `m` call; each bit stands for the result
of its latest measurement; and releasing writes one release per allocated qubit, in order of
allocation. -/
structure DynamicPromise (s : Handles × Builder) (qs cs : List Nat) : Prop where
  requiredQubits_eq : s.1.requiredQubits = (newQubits [] qs).length
  requiredResults_eq : s.1.requiredResults = cs.length
  qubit_of_mem : ∀ i ∈ qs, s.1.qubit s.2 i = .ok (s.1, s.2, qubitHandle i)
  qubit_of_not_mem : ∀ i ∉ qs, ∃ h : Handles, s.1.qubit s.2 i =
      .ok (h, (s.2.call Runtime.qubitAllocate [] (some ("q" ++ toString i))).1, qubitHandle i) ∧
    h.requiredQubits = s.1.requiredQubits + 1
  measure_eq : ∀ v c, ∃ h : Handles, s.1.measure s.2 v c =
      .ok (h, (s.2.call Runtime.m [v] (some ("r" ++ toString cs.length))).1) ∧
    h.requiredResults = cs.length + 1 ∧ h.measured c = some (resultHandle cs.length)
  measured_eq : ∀ c, s.1.measured c = (lastIndex cs c).map resultHandle
  releaseAll_at : ∀ {b : Builder} {name : String} {done todo : List Block} {cur : Block},
    b.At name done cur todo →
      (s.1.releaseAll b).At name done
        (cur.pushAll ((newQubits [] qs).map fun q =>
          Builder.callInstr Runtime.qubitRelease [qubitHandle q] none)) todo

end Handles

open Handles

variable {s : Handles × Builder} {Q R : Nat} {qs cs : List Nat}

/-! ### What each call keeps -/

/-- A bounded static table stays one: resolving changes nothing and a measurement only binds
its bit. -/
theorem Lowering.StaticHandles.perform (hs : StaticHandles s.1 Q R) (c : Call) :
    StaticHandles (perform s c).1 Q R := by
  cases c with
  | qubit i =>
    by_cases hi : i < Q <;> simp [Handles.perform, qubit_static hs, hi, hs]
  | measure v c =>
    by_cases hc : c < R
    · simp only [Handles.perform, measure_static hs, hc, if_true]
      exact ⟨hs.mode_eq, hs.bounded_eq, hs.declaredQubits_eq, hs.declaredResults_eq,
        hs.requiredQubits_eq, hs.requiredResults_eq, hs.allocated_eq⟩
    · simp [Handles.perform, measure_static hs, hc, hs]

theorem Lowering.StaticHandles.promise (hs : StaticHandles s.1 Q R) : BoundedPromise s Q R where
  requiredQubits_eq := hs.requiredQubits_eq
  requiredResults_eq := hs.requiredResults_eq
  qubit_eq := qubit_static hs s.2
  measure_eq := measure_static hs s.2
  perform_qubit i hi := by simp [Handles.perform, qubit_static hs, Nat.not_lt.2 hi]
  perform_measure v c hc := by simp [Handles.perform, measure_static hs, Nat.not_lt.2 hc]

/-- A dynamic table stays one: a resolution allocates the qubit unless it was resolved before,
and a measurement becomes the latest into its bit. -/
theorem DynamicHandles.perform (hd : DynamicHandles s.1 R (newQubits [] qs) cs) (c : Call) :
    DynamicHandles (perform s c).1 R (newQubits [] (qs ++ [c].filterMap Call.qubit?))
      (cs ++ [c].filterMap Call.clbit?) := by
  cases c with
  | qubit i =>
    simp only [List.filterMap_cons, Call.qubit?, Call.clbit?, List.filterMap_nil, List.append_nil,
      newQubits_append, List.nil_append]
    by_cases hi : i ∈ newQubits [] qs
    · simpa [Handles.perform, hd.qubit_of_mem s.2 hi, newQubits, hi] using hd
    · obtain ⟨h', hq, hd'⟩ := hd.qubit_of_not_mem s.2 hi
      simpa [Handles.perform, hq, newQubits, hi] using hd'
  | measure v c =>
    obtain ⟨h', hm, hd'⟩ := hd.measure_eq s.2 v c
    simpa [Handles.perform, hm, List.filterMap_cons, Call.qubit?, Call.clbit?] using hd'

theorem DynamicHandles.promise (hd : DynamicHandles s.1 R (newQubits [] qs) cs) :
    DynamicPromise s qs cs where
  requiredQubits_eq := hd.requiredQubits_eq
  requiredResults_eq := hd.requiredResults_eq
  qubit_of_mem i hi := hd.qubit_of_mem s.2 (mem_newQubits.2 ⟨hi, List.not_mem_nil⟩)
  qubit_of_not_mem i hi := by
    obtain ⟨h', hq, hd'⟩ := hd.qubit_of_not_mem s.2 fun hm => hi (mem_newQubits.1 hm).1
    exact ⟨h', hq, by rw [hd'.requiredQubits_eq, hd.requiredQubits_eq, List.length_append,
      List.length_singleton]⟩
  measure_eq v c := by
    obtain ⟨h', hm, hd'⟩ := hd.measure_eq s.2 v c
    refine ⟨h', hm, by rw [hd'.requiredResults_eq, List.length_append, List.length_singleton], ?_⟩
    rw [measured, hd'.results_eq, lastIndex_append_singleton, if_pos rfl, Option.map_some]
  measured_eq c := hd.results_eq c
  releaseAll_at hb := by
    have h := releaseAll_writes s.1 hb
    rwa [hd.allocated_eq, releaseCalls, List.map_map] at h

namespace Handles

/-! ### Fresh tables -/

/-- What a fresh table of the given addressing and bounds, for `Q` qubits and `R` results,
promises after the calls `calls`. -/
def Contract : Addressing → Bool → Nat → Nat → List Call → Handles × Builder → Prop
  | .static, true, Q, R, _, s => BoundedPromise s Q R
  | .static, false, Q, R, calls, s =>
    UnboundedPromise s Q R (calls.filterMap Call.qubit?) (calls.filterMap Call.clbit?)
  | .dynamic, _, _, _, calls, s =>
    DynamicPromise s (calls.filterMap Call.qubit?) (calls.filterMap Call.clbit?)

/-- **The handle table contract.** Whatever calls are made on a fresh table and any builder,
the table keeps the promise of its addressing and bounds. -/
theorem performAll_contract (mode : Addressing) (bounded : Bool) (Q R : Nat) (b : Builder)
    (calls : List Call) :
    Contract mode bounded Q R calls (performAll ((Handles.new mode Q R).withBounds bounded, b) calls) := by
  cases mode with
  | static =>
    cases bounded with
    | true =>
      exact (performAll_induction (P := fun s _ => StaticHandles s.1 Q R)
        (fun _ _ c hs => hs.perform c) (s := ((Handles.new .static Q R).withBounds true, b))
        (staticHandles_new Q R) calls).promise
    | false =>
      refine (performAll_induction
        (P := fun s calls => UnboundedHandles s.1 Q R (calls.filterMap Call.qubit?)
          (calls.filterMap Call.clbit?))
        (fun _ _ c hu => ?_) (s := ((Handles.new .static Q R).withBounds false, b))
        (unboundedHandles_new Q R) calls).promise
      simpa [List.filterMap_append] using hu.perform c
  | dynamic =>
    refine (performAll_induction
      (P := fun s calls => DynamicHandles s.1 R (newQubits [] (calls.filterMap Call.qubit?))
        (calls.filterMap Call.clbit?))
      (fun _ _ c hd => ?_) (s := ((Handles.new .dynamic Q R).withBounds bounded, b))
      (dynamicHandles_new Q R bounded) calls).promise
    simpa [List.filterMap_append] using hd.perform c

end Handles
end QirGen
