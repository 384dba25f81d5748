import CapLiveness.Proofs.Solved
import Mathlib.Logic.Relation

/-!
# Requirements as reachability

What a function may need from its entry on is what the functions use themselves
that it can reach by calls. A function may call another when one of its call sites
may enter it, be it as a known target or, through outside code, as a function that
can be entered from there (`MayCall`).

The tables reach the same sets in two hops through the slots of outside code. A
slot stands for functions, and requirements flow between slots as calls lead
between the functions they stand for (`WellFormed.exists_call_of_mem_slotCallees`,
`WellFormed.flows_of_mayCall`). So requirements are described by paths of calls
(`WellFormed.flows_requiredIn_iff`), and the results of analyses by
`requirements_closed_form`.
-/

set_option autoImplicit false

namespace CapLiveness

open Relation (ReflTransGen)

namespace Program

/-- Whether a function has a call site that may enter another. -/
def MayCall (p : Program) (f g : FunctionId) : Prop :=
  ∃ b site, p.block? b = some site ∧ site.function = f ∧ p.MayEnter site g

namespace WellFormed

variable {p : Program} (wf : p.WellFormed)
include wf

/-! ## Calls between slots -/

/-- A slot that is entered from another stands for functions that the functions of
the other slot may call, or for the same functions. -/
theorem exists_call_of_mem_slotCallees {slot callee : Nat}
    (entered : callee ∈ p.setting.slotCallees slot) {f : FunctionId}
    (stands : p.StandsFor callee f) :
    ∃ caller, p.StandsFor slot caller ∧ (caller = f ∨ p.MayCall caller f) := by
  rcases slotCallees_cases entered with
    ⟨rfl, isExternal⟩ | ⟨rfl, rfl⟩ | ⟨b, site, found, call, owner, isCallee⟩
  · have external := wf.mem_externalFunctions.mp isExternal
    obtain ⟨_, function, found, _⟩ := id external
    rw [standsFor_function (lt_of_function? found)] at stands
    refine ⟨f, ?_, .inl rfl⟩
    rw [standsFor_callingExternal, stands]
    exact external
  · rw [standsFor_callingExternal] at stands
    exact ⟨f, standsFor_callsExternal.mpr stands, .inl rfl⟩
  · obtain ⟨i, _, names, bound, _, _⟩ := wf.exists_owner found
    refine ⟨Int.ofNat slot, ?_, .inr ⟨_, site, found, owner, ?_⟩⟩
    · rw [names] at owner
      exact (standsFor_function (Int.ofNat.inj owner ▸ bound)).mpr rfl
    · exact (wf.mayEnter_iff found).mpr ⟨call, callee, isCallee, stands⟩

/-- What a function requires flows into every slot that stands for it. -/
theorem flows_of_standsFor {k slot i : Nat} (bound : slot < p.functions.size + 2)
    (stands : p.StandsFor slot (Int.ofNat i))
    (flows : p.setting.Flows k ⟨.requiredIn, i⟩) : p.setting.Flows k ⟨.requiredIn, slot⟩ := by
  by_cases isFunction : slot < p.functions.size
  · rw [standsFor_function isFunction] at stands
    rwa [← Int.ofNat.inj stands]
  · rw [standsFor_outside (Nat.not_lt.mp isFunction)] at stands
    have calling : p.setting.Flows k ⟨.requiredIn, p.setting.graph.callingExternal⟩ := by
      refine .source (Setting.slot_mem_initialEntities callingExternal_lt) ?_ flows
      refine List.mem_map.mpr ⟨i, ?_, rfl⟩
      rw [slotCallees_callingExternal]
      exact wf.mem_externalFunctions.mpr stands
    have calls : p.setting.Flows k ⟨.requiredIn, p.setting.graph.callsExternal⟩ := by
      refine .source (Setting.slot_mem_initialEntities callsExternal_lt) ?_ calling
      refine List.mem_map.mpr ⟨_, ?_, rfl⟩
      rw [slotCallees_callsExternal]
      exact List.mem_singleton.mpr rfl
    have outside : slot = p.functions.size ∨ slot = p.functions.size + 1 := by omega
    rcases outside with rfl | rfl
    · exact calls
    · exact calling

/-- What a slot requires flows into the functions with a call site that enters it. -/
theorem flows_of_mem_callees {k b slot callee : Nat} {site : Block}
    (found : p.block? (Int.ofNat b) = some site) (call : site.kind = .call)
    (owner : site.function = Int.ofNat slot) (isCallee : callee ∈ p.setting.callees site)
    (flows : p.setting.Flows k ⟨.requiredIn, callee⟩) : p.setting.Flows k ⟨.requiredIn, slot⟩ := by
  obtain ⟨_, _, names, bound, _⟩ := wf.exists_owner found
  obtain rfl := Int.ofNat.inj (owner.symm.trans names)
  refine .source (Setting.slot_mem_initialEntities (Nat.lt_add_right 2 bound)) ?_ flows
  exact List.mem_map.mpr ⟨callee, wf.mem_slotCallees_of_mem_callees found call owner isCallee, rfl⟩

/-- What a function requires flows into the functions that may call it. -/
theorem flows_of_mayCall {k i j : Nat} (call : p.MayCall (Int.ofNat i) (Int.ofNat j))
    (flows : p.setting.Flows k ⟨.requiredIn, j⟩) : p.setting.Flows k ⟨.requiredIn, i⟩ := by
  obtain ⟨b, site, found, owner, enters⟩ := call
  obtain ⟨isCall, slot, callee, stands⟩ := (wf.mayEnter_iff found).mp enters
  obtain ⟨c, rfl, _⟩ := entryAt?_eq_some_iff.mp found
  have bound := wf.lt_of_mem_callees found isCall callee
  exact wf.flows_of_mem_callees found isCall owner callee (wf.flows_of_standsFor bound stands flows)

/-! ## Paths of calls -/

/-- A kind that flows into a slot is used by a function that can be reached by calls
from one that the slot stands for. -/
theorem exists_path_of_flows {k : Nat} {cell : Cell} (flows : p.setting.Flows k cell) {slot : Nat}
    (isRequirement : cell = ⟨.requiredIn, slot⟩) :
    ∃ f, p.StandsFor slot f ∧
      ∃ i, ReflTransGen p.MayCall f (Int.ofNat i) ∧ k ∈ p.setting.own ⟨.requiredIn, i⟩ := by
  induction flows generalizing slot with
  | all givenUp _ =>
    rw [isRequirement] at givenUp
    cases givenUp
  | own _ member =>
    rw [isRequirement] at member
    obtain ⟨_, found, _⟩ := mem_own_requiredIn.mp member
    have bound := lt_of_function? found
    exact ⟨Int.ofNat slot, (standsFor_function bound).mpr rfl, slot, .refl, member⟩
  | source _ reads _ ih =>
    rw [isRequirement] at reads
    obtain ⟨callee, entered, rfl⟩ := List.mem_map.mp reads
    obtain ⟨f, stands, i, path, member⟩ := ih rfl
    -- A hop between the slots of outside code is no call: the path stays as it is.
    obtain ⟨caller, standsCaller, rfl | call⟩ := wf.exists_call_of_mem_slotCallees entered stands
    · exact ⟨caller, standsCaller, i, path, member⟩
    · exact ⟨caller, standsCaller, i, .head call path, member⟩

/-- What a function uses flows back along the calls that lead to it. -/
theorem flows_of_path {k i j : Nat} (member : k ∈ p.setting.own ⟨.requiredIn, i⟩)
    (path : ReflTransGen p.MayCall (Int.ofNat j) (Int.ofNat i)) :
    p.setting.Flows k ⟨.requiredIn, j⟩ := by
  suffices along : ∀ f, ReflTransGen p.MayCall f (Int.ofNat i) →
      ∀ j, f = Int.ofNat j → p.setting.Flows k ⟨.requiredIn, j⟩ from along _ path j rfl
  intro f path
  induction path using ReflTransGen.head_induction_on with
  | refl =>
    intro j same
    obtain rfl := Int.ofNat.inj same
    obtain ⟨_, found, _⟩ := mem_own_requiredIn.mp member
    have bound := lt_of_function? found
    exact .own (Setting.slot_mem_initialEntities (Nat.lt_add_right 2 bound)) member
  | head call _ ih =>
    rintro j rfl
    obtain ⟨_, _, found, _, enters⟩ := id call
    obtain ⟨_, foundCallee⟩ := wf.exists_function_of_mayEnter found enters
    obtain ⟨callee, rfl, _⟩ := entryAt?_eq_some_iff.mp foundCallee
    exact wf.flows_of_mayCall call (ih callee rfl)

/-- **What flows into the requirement of a slot** is what the functions use that can be
reached by calls from those it stands for. -/
theorem flows_requiredIn_iff {k slot : Nat} (bound : slot < p.functions.size + 2) :
    p.setting.Flows k ⟨.requiredIn, slot⟩ ↔
      ∃ f, p.StandsFor slot f ∧
        ∃ i, ReflTransGen p.MayCall f (Int.ofNat i) ∧ k ∈ p.setting.own ⟨.requiredIn, i⟩ := by
  constructor
  · intro flows
    exact wf.exists_path_of_flows flows rfl
  · rintro ⟨f, stands, i, path, member⟩
    obtain ⟨j, rfl, _⟩ := stands.exists_slot
    exact wf.flows_of_standsFor bound stands (wf.flows_of_path member path)

end WellFormed

end Program

/-! ## Requirements of results -/

/-- What a function uses itself, by a result: everything if it is opaque, and otherwise
what its blocks use. -/
def Result.UsesItself (r : Result) (f : FunctionId) (k : Nat) : Prop :=
  ∃ function, r.program.function? f = some function ∧
    if r.isOpaque? f = some true then k ∈ r.program.enumeration.all
    else ∃ b ∈ function.blocks, ∃ used, r.localUses? b = some used ∧ k ∈ used

namespace Result.IsSolved

variable {r : Result} {p : Program} (solved : r.IsSolved p)
include solved

theorem usesItself_iff {f : FunctionId} {k : Nat} :
    r.UsesItself f k ↔ ∃ i, f = Int.ofNat i ∧ k ∈ p.setting.own ⟨.requiredIn, i⟩ := by
  unfold Result.UsesItself Result.program
  rw [solved.setting]
  constructor
  · rintro ⟨function, found, uses⟩
    obtain ⟨i, rfl, inside⟩ := entryAt?_eq_some_iff.mp found
    refine ⟨i, rfl, Program.mem_own_requiredIn.mpr ⟨function, inside, ?_⟩⟩
    rw [solved.mem_functionUses_iff]
    simpa only [solved.isOpaque?_ofNat (Program.lt_of_function? inside),
      Option.some.injEq] using uses
  · rintro ⟨i, rfl, member⟩
    obtain ⟨function, inside, uses⟩ := Program.mem_own_requiredIn.mp member
    refine ⟨function, inside, ?_⟩
    rw [solved.mem_functionUses_iff] at uses
    simpa only [solved.isOpaque?_ofNat (Program.lt_of_function? inside),
      Option.some.injEq] using uses

/-- The requirement of a function is what is used along the calls from it. -/
theorem mem_requiredIn_iff {i k : Nat} (bound : i < p.functions.size) :
    k ∈ r.tables.get ⟨.requiredIn, i⟩ ↔
      ∃ g, ReflTransGen p.MayCall (Int.ofNat i) g ∧ r.UsesItself g k := by
  rw [solved.mem_get, solved.wellFormed.flows_requiredIn_iff (Nat.lt_add_right 2 bound)]
  constructor
  · rintro ⟨f, stands, j, path, member⟩
    obtain rfl := (Program.standsFor_function bound).mp stands
    exact ⟨_, path, solved.usesItself_iff.mpr ⟨j, rfl, member⟩⟩
  · rintro ⟨g, path, uses⟩
    obtain ⟨j, rfl, member⟩ := solved.usesItself_iff.mp uses
    exact ⟨_, (Program.standsFor_function bound).mpr rfl, j, path, member⟩

/-- A slot requires what the functions require that it stands for. -/
theorem mem_requiredIn_iff_standsFor {slot k : Nat} (bound : slot < p.functions.size + 2) :
    k ∈ r.tables.get ⟨.requiredIn, slot⟩ ↔
      ∃ f required, p.StandsFor slot f ∧ r.requiredIn? f = some required ∧ k ∈ required := by
  rw [solved.mem_get]
  constructor
  · intro flows
    obtain ⟨f, stands, i, path, member⟩ := solved.wellFormed.exists_path_of_flows flows rfl
    obtain ⟨j, rfl, isFunction⟩ := stands.exists_slot
    refine ⟨_, _, stands, solved.covers.requiredIn?_ofNat isFunction, ?_⟩
    exact solved.mem_get.mpr (solved.wellFormed.flows_of_path member path)
  · rintro ⟨f, required, stands, isRequired, member⟩
    obtain ⟨j, rfl, isFunction⟩ := stands.exists_slot
    rw [solved.covers.requiredIn?_ofNat isFunction] at isRequired
    obtain rfl := Option.some.inj isRequired
    exact solved.wellFormed.flows_of_standsFor bound stands (solved.mem_get.mp member)

end Result.IsSolved

/-- **Requirements are reachability.** In the result of an analysis that was not skipped,
a function requires exactly what is used by the functions that it can reach by calls,
outside code requires what is required by the functions that can be entered from there,
and the entry drop is what the entry function does not require. -/
theorem requirements_closed_form {p : Program} {config : Config} {r : Result}
    (analyzed : (p.analyze config).outcome = .ok r) (notSkipped : r.skipped = false) :
    r.program = p ∧
      (∀ f function, p.function? f = some function →
        ∃ required, r.requiredIn? f = some required ∧
          ∀ k, k ∈ required ↔ ∃ g, ReflTransGen p.MayCall f g ∧ r.UsesItself g k) ∧
      (∃ required, r.requiredIn? FunctionId.callsExternal = some required ∧
        r.requiredIn? FunctionId.callingExternal = some required ∧
        ∀ k, k ∈ required ↔
          ∃ g inner, p.IsExternal g ∧ r.requiredIn? g = some inner ∧ k ∈ inner) ∧
      ∃ required, r.requiredIn? p.entry = some required ∧
        ∀ k, k ∈ r.entryDrop ↔ k ∈ p.enumeration.all ∧ k ∉ required := by
  have solved := Program.isSolved_of_outcome analyzed notSkipped
  refine ⟨solved.program_eq, ?_, ?_, ?_⟩
  · intro f function found
    obtain ⟨i, rfl, inside⟩ := entryAt?_eq_some_iff.mp found
    have bound := Program.lt_of_function? inside
    exact ⟨_, solved.covers.requiredIn?_ofNat bound, fun k => solved.mem_requiredIn_iff bound⟩
  · have calls : ∀ k, k ∈ r.tables.get ⟨.requiredIn, p.setting.graph.callsExternal⟩ ↔
        ∃ g inner, p.IsExternal g ∧ r.requiredIn? g = some inner ∧ k ∈ inner := by
      intro k
      simp only [solved.mem_requiredIn_iff_standsFor Program.callsExternal_lt,
        Program.standsFor_callsExternal]
    have calling : ∀ k, k ∈ r.tables.get ⟨.requiredIn, p.setting.graph.callingExternal⟩ ↔
        ∃ g inner, p.IsExternal g ∧ r.requiredIn? g = some inner ∧ k ∈ inner := by
      intro k
      simp only [solved.mem_requiredIn_iff_standsFor Program.callingExternal_lt,
        Program.standsFor_callingExternal]
    refine ⟨_, solved.covers.requiredIn?_callsExternal, ?_, calls⟩
    rw [solved.covers.requiredIn?_callingExternal, Option.some.injEq]
    exact CapSet.ext_mem fun k => (calling k).trans (calls k).symm
  · obtain ⟨_, found, _⟩ := solved.wellFormed.entry
    obtain ⟨i, isEntry, inside⟩ := entryAt?_eq_some_iff.mp found
    have bound := Program.lt_of_function? inside
    refine ⟨_, isEntry ▸ solved.covers.requiredIn?_ofNat bound, fun k => ?_⟩
    rw [solved.entryDrop_eq isEntry bound, CapSet.mem_sdiff]

/-- The entry function of the sample program requires kind `0`, which the worker raises: it
calls outside code, which may call the callback, which calls the worker. -/
theorem requirements_closed_form_sample :
    ∃ r, (sampleProgram.analyze sampleConfig).outcome = .ok r ∧ r.skipped = false ∧
      ∃ required, r.requiredIn? 0 = some required ∧ 0 ∈ required ∧
        ∀ k, k ∈ required ↔ ∃ g, ReflTransGen sampleProgram.MayCall 0 g ∧ r.UsesItself g k := by
  obtain ⟨r, analyzed, notSkipped⟩ := sampleProgram_analyzed
  obtain ⟨_, functions, _⟩ := requirements_closed_form analyzed notSkipped
  obtain ⟨required, isRequired, requiredIff⟩ := functions 0 _ rfl
  refine ⟨r, analyzed, notSkipped, required, isRequired, (requiredIff 0).mpr ?_, requiredIff⟩
  have toCallback : sampleProgram.MayCall 0 2 := by
    refine ⟨2, _, rfl, rfl, rfl, .inr ⟨rfl, ?_, _, rfl, rfl⟩⟩
    decide
  have toWorker : sampleProgram.MayCall 2 1 := by
    refine ⟨8, _, rfl, rfl, rfl, .inl ?_⟩
    decide
  have solved := Program.isSolved_of_outcome analyzed notSkipped
  refine ⟨1, .head toCallback (.single toWorker), solved.usesItself_iff.mpr ⟨1, rfl, ?_⟩⟩
  decide +kernel

end CapLiveness
