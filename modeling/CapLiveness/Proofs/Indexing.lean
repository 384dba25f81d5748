import CapLiveness.Proofs.GraphBuilding
import CapLiveness.Proofs.WellFormed

/-!
# What the graph of a program records

The graph of a program is a set of lists, built once
(`CapLiveness.Proofs.GraphBuilding`). Each list is described here by its members,
in terms of the program alone: the slots that a call may enter (`mem_calleeSlots`),
the call sites that may enter a slot (`mem_callersOf`), the call sites of a
function (`mem_sitesOf`), the predecessors of a block (`mem_predecessorsOf`), and the
functions that can be entered from outside (`WellFormed.mem_externalFunctions`).

In a well-formed program the slot of a function is its position, and the slots of
outside code stand for the functions that can be entered from there. So the slots
of a call describe exactly which functions it may enter (`WellFormed.mayEnter_iff`).
-/

set_option autoImplicit false

namespace CapLiveness

/-! ## Lists -/

theorem mem_eraseRepsBy_loop {α : Type} [BEq α] [LawfulBEq α] (xs : List α) {a x : α}
    {seen : List α} :
    x ∈ List.eraseRepsBy.loop (· == ·) a xs seen ↔ x ∈ seen ∨ x = a ∨ x ∈ xs := by
  induction xs generalizing a seen with
  | nil => simp [List.eraseRepsBy.loop, or_comm]
  | cons b rest ih =>
    rw [List.eraseRepsBy.loop]
    split
    case h_1 same =>
      have equal : a = b := beq_iff_eq.mp same
      rw [ih, equal, List.mem_cons]
      simp
    case h_2 =>
      rw [ih, List.mem_cons, List.mem_cons]
      exact ⟨fun member => by grind, fun member => by grind⟩

/-- Collapsing runs keeps the members. -/
@[simp] theorem mem_eraseReps {α : Type} [BEq α] [LawfulBEq α] {xs : List α} {x : α} :
    x ∈ xs.eraseReps ↔ x ∈ xs := by
  cases xs with
  | nil => rfl
  | cons a rest =>
    rw [List.eraseReps, List.eraseRepsBy, mem_eraseRepsBy_loop, List.mem_cons]
    simp

/-! ## Slots -/

theorem slotOf?_ofNat {n slot : Nat} (bound : slot < n) :
    slotOf? n (Int.ofNat slot) = some slot := by
  have inside : 0 ≤ Int.ofNat slot ∧ Int.ofNat slot < n + 2 := by
    rw [Int.ofNat_eq_natCast]
    omega
  unfold slotOf?
  rw [if_neg (by simp [FunctionId.callsExternal]), if_neg (by simp [FunctionId.callingExternal]),
    if_pos inside]
  rfl

/-- The slot of the function in a slot is that slot. -/
theorem slotOf?_functionOfSlot {n slot : Nat} (bound : slot < n + 2) :
    slotOf? n (functionOfSlot n slot) = some slot := by
  unfold functionOfSlot
  by_cases calls : slot = n
  · rw [if_pos calls, calls]
    rfl
  · rw [if_neg calls]
    by_cases calling : slot = n + 1
    · rw [if_pos calling, calling]
      rfl
    · rw [if_neg calling]
      exact slotOf?_ofNat (by omega)

/-- The slots that a call may enter are those of its targets, and the slot of code
outside the program when the call may reach it. -/
theorem mem_calleeSlots {n slot : Nat} {target : CallTarget} :
    slot ∈ calleeSlots n target ↔
      (∃ f ∈ target.targets, slotOf? n f = some slot) ∨
        (target.reachesExternal = true ∧ slot = n) := by
  unfold calleeSlots
  by_cases outside : target.reachesExternal = true <;> simp [outside]

namespace Program

variable {p : Program}

/-! ## Functions that can be entered -/

/-- Whether a function can be entered from outside the program: its address is
taken, and it is not the entry function. -/
def IsExternal (p : Program) (f : FunctionId) : Prop :=
  f ≠ p.entry ∧ ∃ function, p.function? f = some function ∧ function.addressTaken = true

/-- Whether a block may enter a function by its call: the function is one of the
known targets, or the call may reach outside code and the function can be entered
from there. -/
def MayEnter (p : Program) (site : Block) (f : FunctionId) : Prop :=
  site.kind = .call ∧
    (f ∈ site.target.targets ∨ (site.target.reachesExternal = true ∧ p.IsExternal f))

/-- Whether a slot stands for a function: its own, or that of outside code, from which
the function can be entered. -/
def StandsFor (p : Program) (slot : Nat) (f : FunctionId) : Prop :=
  if slot < p.functions.size then f = Int.ofNat slot else p.IsExternal f

theorem standsFor_function {slot : Nat} (bound : slot < p.functions.size) {f : FunctionId} :
    p.StandsFor slot f ↔ f = Int.ofNat slot := by
  rw [StandsFor, if_pos bound]

theorem standsFor_outside {slot : Nat} (bound : p.functions.size ≤ slot) {f : FunctionId} :
    p.StandsFor slot f ↔ p.IsExternal f := by
  rw [StandsFor, if_neg (Nat.not_lt.mpr bound)]

/-- Slots stand for functions of the program. -/
theorem StandsFor.exists_slot {slot : Nat} {f : FunctionId} (stands : p.StandsFor slot f) :
    ∃ i : Nat, f = Int.ofNat i ∧ i < p.functions.size := by
  by_cases bound : slot < p.functions.size
  · exact ⟨slot, (standsFor_function bound).mp stands, bound⟩
  · obtain ⟨_, _, found, _⟩ := (standsFor_outside (Nat.not_lt.mp bound)).mp stands
    obtain ⟨i, same, inside⟩ := entryAt?_eq_some_iff.mp found
    exact ⟨i, same, lt_of_function? inside⟩

theorem mem_blockEntries {block : Block} {b : Nat} :
    (block, b) ∈ p.blockEntries ↔ p.block? (Int.ofNat b) = some block :=
  mem_zipIdx_toList_iff

theorem mem_predecessorsOf {s b : Nat} :
    b ∈ (Graph.ofProgram p).predecessorsOf s ↔
      s < p.blocks.size ∧
        ∃ block, p.block? (Int.ofNat b) = some block ∧ Int.ofNat s ∈ block.successors := by
  rw [Graph.predecessorsOf, Graph.predecessors_ofProgram, mem_getD_rowsOf]
  refine and_congr_right fun _ => ?_
  simp only [predecessorsIn, List.mem_flatMap, List.mem_replicate]
  constructor
  · rintro ⟨⟨block, _⟩, member, occurs, rfl⟩
    exact ⟨block, mem_blockEntries.mp member, List.count_pos_iff.mp (Nat.pos_of_ne_zero occurs)⟩
  · rintro ⟨block, found, successor⟩
    exact ⟨(block, b), mem_blockEntries.mpr found,
      Nat.pos_iff_ne_zero.mp (List.count_pos_iff.mpr successor), rfl⟩

theorem mem_sitesOf {slot b : Nat} :
    b ∈ (Graph.ofProgram p).sitesOf slot ↔
      slot < p.functions.size + 2 ∧
        ∃ block, p.block? (Int.ofNat b) = some block ∧ block.kind = .call ∧
          block.function = Int.ofNat slot := by
  rw [Graph.sitesOf, Graph.sites_ofProgram, mem_getD_rowsOf]
  simp only [sitesIn, mem_positionsOf, mem_blockEntries, decide_eq_true_eq]

theorem mem_callersOf {slot b : Nat} :
    b ∈ (Graph.ofProgram p).callersOf slot ↔
      slot < p.functions.size + 2 ∧
        ∃ block, p.block? (Int.ofNat b) = some block ∧ block.kind = .call ∧
          slot ∈ calleeSlots p.functions.size block.target := by
  rw [Graph.callersOf, Graph.callers_ofProgram, mem_getD_rowsOf]
  simp only [callersIn, mem_positionsOf, mem_blockEntries, decide_eq_true_eq]

namespace WellFormed

/-! ## In a well-formed program -/

variable (wf : p.WellFormed)
include wf

/-- The known targets of a call are functions. -/
theorem hasFunction_of_mem_targets {b : BlockId} {block : Block}
    (found : p.block? b = some block) (call : block.kind = .call) {f : FunctionId}
    (target : f ∈ block.target.targets) : p.hasFunction f = true := by
  have kind := (wf.block found).kind
  unfold FitsKind at kind
  rw [call] at kind
  have targets := kind.2
  revert target targets
  cases block.target with
  | direct callee =>
    intro target has
    rw [List.mem_singleton.mp target]
    exact has
  | resolved candidates complete =>
    intro target has
    exact has f target
  | unresolved => simp [CallTarget.targets]
  | unknown code => simp [HasTargets]

/-- A call enters the slots of its known targets, and the slot of outside code
when it may reach it. -/
theorem mem_calleeSlots_iff {b : BlockId} {block : Block} (found : p.block? b = some block)
    (call : block.kind = .call) {slot : Nat} :
    slot ∈ calleeSlots p.functions.size block.target ↔
      Int.ofNat slot ∈ block.target.targets ∨
        (block.target.reachesExternal = true ∧ slot = p.functions.size) := by
  rw [mem_calleeSlots]
  refine or_congr ?_ Iff.rfl
  constructor
  · rintro ⟨f, target, atSlot⟩
    obtain ⟨function, foundFunction⟩ :=
      exists_of_hasFunction (wf.hasFunction_of_mem_targets found call target)
    obtain ⟨i, rfl, inside⟩ := entryAt?_eq_some_iff.mp foundFunction
    rw [slotOf?_ofNat (lt_of_function? inside), Option.some.injEq] at atSlot
    exact atSlot ▸ target
  · intro target
    obtain ⟨function, foundFunction⟩ :=
      exists_of_hasFunction (wf.hasFunction_of_mem_targets found call target)
    exact ⟨Int.ofNat slot, target, slotOf?_ofNat (lt_of_function? foundFunction)⟩

/-- **A call may enter exactly the functions that its callee slots stand for.** -/
theorem mayEnter_iff {b : BlockId} {site : Block} (found : p.block? b = some site)
    {f : FunctionId} :
    p.MayEnter site f ↔ site.kind = .call ∧
      ∃ slot ∈ calleeSlots p.functions.size site.target, p.StandsFor slot f := by
  refine and_congr_right fun call => ?_
  constructor
  · rintro (target | ⟨outside, external⟩)
    · obtain ⟨function, foundFunction⟩ :=
        exists_of_hasFunction (wf.hasFunction_of_mem_targets found call target)
      obtain ⟨i, rfl, inside⟩ := entryAt?_eq_some_iff.mp foundFunction
      exact ⟨i, (wf.mem_calleeSlots_iff found call).mpr (.inl target),
        (standsFor_function (lt_of_function? inside)).mpr rfl⟩
    · exact ⟨p.functions.size, (wf.mem_calleeSlots_iff found call).mpr (.inr ⟨outside, rfl⟩),
        (standsFor_outside (Nat.le_refl _)).mpr external⟩
  · rintro ⟨slot, callee, stands⟩
    rcases (wf.mem_calleeSlots_iff found call).mp callee with target | ⟨outside, rfl⟩
    · obtain ⟨function, foundFunction⟩ :=
        exists_of_hasFunction (wf.hasFunction_of_mem_targets found call target)
      rw [standsFor_function (lt_of_function? foundFunction)] at stands
      exact .inl (stands ▸ target)
    · exact .inr ⟨outside, (standsFor_outside (Nat.le_refl _)).mp stands⟩

/-- What a call may enter is a function of the program. -/
theorem exists_function_of_mayEnter {b : BlockId} {site : Block} (found : p.block? b = some site)
    {f : FunctionId} (enters : p.MayEnter site f) : ∃ function, p.function? f = some function := by
  obtain ⟨call, target | ⟨_, _, function, foundFunction, _⟩⟩ := enters
  · exact exists_of_hasFunction (wf.hasFunction_of_mem_targets found call target)
  · exact ⟨function, foundFunction⟩

/-- The functions that can be entered from outside are recorded by position. -/
theorem mem_externalFunctions {slot : Nat} :
    slot ∈ p.externalFunctions ↔ p.IsExternal (Int.ofNat slot) := by
  simp only [externalFunctions, List.mem_filterMap, Option.ite_none_right_eq_some,
    Option.some.injEq]
  constructor
  · rintro ⟨⟨function, _⟩, member, ⟨taken, notEntry⟩, rfl⟩
    have found := mem_zipIdx_toList_iff.mp member
    rw [(wf.function found).id] at notEntry
    exact ⟨notEntry, function, found, taken⟩
  · rintro ⟨notEntry, function, found, taken⟩
    refine ⟨(function, slot), mem_zipIdx_toList_iff.mpr found, ⟨taken, ?_⟩, rfl⟩
    rw [(wf.function found).id]
    exact notEntry

end WellFormed

end Program

end CapLiveness
