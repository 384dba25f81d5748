import CapLiveness.Proofs.Drops
import CapLiveness.Proofs.Faults
import CapLiveness.Proofs.Levels

/-!
# Extraction and opaque functions

Extraction reads every block once. What it cannot take as a use of a kind is a structural
error, and a function with a structural error is opaque. So three accounts agree: the errors
that are there, the functions that are opaque, and the diagnostics
(`functionProblems_ne_nil_iff`, `WellFormed.lists_diagnostics`).

An opaque function is taken to need everything throughout. Whoever may call it needs
everything as well (`IsSolved.requiredIn?_of_calls`), and as everything is live at all of its
blocks, none of them drops anything (`IsSolved.not_mem_drops`).
-/

set_option autoImplicit false

namespace CapLiveness

open Relation (ReflTransGen)

theorem eq_ofNat_of_slotOf? {n slot : Nat} {f : FunctionId} (found : slotOf? n f = some slot)
    (bound : slot < n) : f = Int.ofNat slot := by
  unfold slotOf? at found
  rw [Int.ofNat_eq_natCast]
  grind

/-- A block has a structural error if it unwinds, or an argument is no constant or outside the
enumeration. -/
theorem Block.not_isRegular_iff {block : Block} {caps : Enumeration} :
    ¬ block.IsRegular caps ↔
      block.exit = .unwind ∨ .variable ∈ block.arguments ∨
        ∃ value : Int, .constant value ∈ block.arguments ∧ (value < 0 ∨ caps.size ≤ value) := by
  simp only [IsRegular, not_and_or, not_not, not_forall, exists_prop]
  refine or_congr_right ⟨?_, ?_⟩
  · rintro ⟨value | _, member, outside⟩
    · refine .inr ⟨value, member, ?_⟩
      simp only [Argument.IsKind] at outside
      omega
    · exact .inl member
  · rintro (member | ⟨value, member, outside⟩)
    · exact ⟨_, member, not_false⟩
    · refine ⟨_, member, ?_⟩
      simp only [Argument.IsKind]
      omega

namespace Drops

/-- A block that drops nothing has no entry. -/
theorem not_mem_entries {count : Nat} {set : Nat → CapSet} {b : Nat} {kinds : CapSet}
    (none : ∀ k, k ∉ (ofBlocks count set).get (Int.ofNat b)) :
    (Int.ofNat b, kinds) ∉ (ofBlocks count set).entries := by
  intro entered
  obtain ⟨c, bound, nonempty, isEntry⟩ := mem_entries_ofBlocks.mp entered
  obtain rfl : b = c := Int.ofNat.inj (congrArg Prod.fst isEntry)
  rw [get_ofBlocks set bound, ← CapSet.isEmpty_iff_forall, nonempty] at none
  cases none

end Drops

namespace Program

variable {p : Program}

/-! ## Counting -/

theorem isOpaque_eq {slot : Nat} {function : Function}
    (inside : p.functions[slot]? = some function) :
    p.setting.uses.isOpaque slot = !(p.functionProblems function).isEmpty := by
  rw [isOpaque_eq_getD, Array.getD_eq_getD_getElem?, Array.getElem?_map, inside]
  rfl

/-- The functions with structural errors, by what is wrong with their blocks. -/
theorem functionProblems_ne_nil_iff {function : Function} :
    p.functionProblems function ≠ [] ↔ ∃ b ∈ function.blocks, ∃ block, p.block? b = some block ∧
      (block.exit = .unwind ∨ .variable ∈ block.arguments ∨ ∃ value : Int,
        .constant value ∈ block.arguments ∧ (value < 0 ∨ p.enumeration.size ≤ value)) := by
  simp only [ne_eq, functionProblems_eq_nil_iff, not_forall, exists_prop, Block.not_isRegular_iff]

theorem length_findingsOf : (Uses.findingsOf p).length =
    p.functions.toList.countP fun f => !(p.functionProblems f).isEmpty := by
  rw [Uses.findingsOf, List.filter_map, List.length_map, List.countP_eq_length_filter]
  rfl

/-- The result of an analysis that is not skipped reports what was extracted. -/
theorem reports_of_outcome {σ : Type} {source : Source σ} {choices : σ} {config : Config}
    {r : Result} (analyzed : (p.analyzeWith source choices config).outcome = .ok r)
    (notSkipped : r.skipped = false) :
    r.diagnostics = (Uses.ofProgram p).diagnostics ∧
      r.stats.opaqueFunctions = p.setting.uses.opaqueCount := by
  obtain ⟨_, ⟨_, rfl⟩ | ⟨_, rfl⟩⟩ := outcome_cases analyzed
  · cases notSkipped
  · exact ⟨rfl, rfl⟩

namespace WellFormed

variable (wf : p.WellFormed)
include wf

theorem capabilities_eq : p.capabilities = some p.enumeration := by
  obtain ⟨caps, isCaps⟩ := Option.isSome_iff_exists.mp wf.capabilities
  rw [enumeration, isCaps]
  rfl

theorem exists_function_of_calls {f g : FunctionId} (calls : ReflTransGen p.MayCall f g)
    {function : Function} (found : p.function? g = some function) :
    ∃ function, p.function? f = some function := by
  rcases calls.cases_head with rfl | ⟨_, ⟨b, site, foundSite, rfl, _⟩, _⟩
  · exact ⟨function, found⟩
  · exact wf.owner foundSite

end WellFormed

end Program

namespace Result.IsSolved

variable {r : Result} {p : Program} (solved : r.IsSolved p)
include solved

/-! ## Opaque functions -/

theorem isOpaque?_of_found {f : FunctionId} {function : Function}
    (found : p.function? f = some function) :
    r.isOpaque? f = some !(p.functionProblems function).isEmpty := by
  obtain ⟨i, rfl, inside⟩ := entryAt?_eq_some_iff.mp found
  rw [solved.isOpaque?_ofNat (Program.lt_of_function? found), Program.isOpaque_eq inside]

theorem opaqueCount_eq :
    p.setting.uses.opaqueCount =
      p.functions.toList.countP fun f => r.isOpaque? f.id = some true := by
  refine Program.length_findingsOf.trans (List.countP_congr fun function member => ?_)
  obtain ⟨i, inside⟩ := List.mem_iff_getElem?.mp member
  have found : p.function? (Int.ofNat i) = some function :=
    (Array.getElem?_toList ..).symm.trans inside
  rw [(solved.wellFormed.function found).id, solved.isOpaque?_of_found found]
  simp

/-- Opaque functions are functions of the program. -/
theorem exists_function_of_isOpaque? {f : FunctionId} (givenUp : r.isOpaque? f = some true) :
    ∃ function, p.function? f = some function := by
  rw [Result.isOpaque?, solved.setting, Option.map_eq_some_iff] at givenUp
  obtain ⟨slot, found, isOpaque⟩ := givenUp
  obtain ⟨function, inside, _⟩ := Program.isOpaque_iff.mp isOpaque
  rw [solved.covers.slot?_eq] at found
  obtain ⟨bound, _⟩ := Array.getElem?_eq_some_iff.mp inside
  obtain rfl := eq_ofNat_of_slotOf? found bound
  exact ⟨function, inside⟩

theorem isOpaqueBlock_of_listed {f : FunctionId} {function : Function} {b : Nat}
    (found : p.function? f = some function) (givenUp : r.isOpaque? f = some true)
    (listed : Int.ofNat b ∈ function.blocks) : p.setting.isOpaqueBlock b = true := by
  obtain ⟨block, foundBlock, owner⟩ := solved.wellFormed.exists_listed found listed
  obtain ⟨i, rfl, _⟩ := entryAt?_eq_some_iff.mp found
  rw [solved.isOpaque?_ofNat (Program.lt_of_function? found)] at givenUp
  rw [Program.isOpaqueBlock_eq foundBlock, owner]
  exact Option.some.inj givenUp

/-- A cell where every kind flows holds everything. -/
theorem get_eq_all {cell : Cell} (all : ∀ k ∈ p.enumeration.all, p.setting.Flows k cell) :
    r.tables.get cell = p.enumeration.all := by
  refine CapSet.ext_mem fun k => ?_
  rw [solved.mem_get]
  exact ⟨Program.mem_all_of_flows, all k⟩

theorem requiredIn?_eq_all {f : FunctionId} {function : Function}
    (found : p.function? f = some function) (all : ∀ k ∈ p.enumeration.all, p.Requires f k) :
    r.requiredIn? f = some p.enumeration.all := by
  obtain ⟨i, rfl, _⟩ := entryAt?_eq_some_iff.mp found
  rw [solved.covers.requiredIn?_ofNat (Program.lt_of_function? found)]
  exact congrArg some (solved.get_eq_all all)

theorem requires_of_isOpaque? {f : FunctionId} {k : Nat} (givenUp : r.isOpaque? f = some true)
    (member : k ∈ p.enumeration.all) : p.Requires f k := by
  have wf := solved.wellFormed
  obtain ⟨function, found⟩ := solved.exists_function_of_isOpaque? givenUp
  obtain ⟨i, rfl, inside⟩ := entryAt?_eq_some_iff.mp found
  rw [solved.isOpaque?_ofNat (Program.lt_of_function? found)] at givenUp
  have isOpaque := Option.some.inj givenUp
  -- A function without blocks has no errors, so an opaque one has a block to speak of.
  obtain ⟨other, otherInside, b, listed, _⟩ := Program.isOpaque_iff.mp isOpaque
  obtain rfl := Option.some.inj (inside.symm.trans otherInside)
  obtain ⟨block, foundBlock, owner⟩ := wf.exists_listed found listed
  rw [← owner]
  exact wf.requires_of_isOpaque foundBlock (owner ▸ isOpaque) member

/-- **Who may call an opaque function needs everything.** -/
theorem requiredIn?_of_calls {f g : FunctionId} (calls : ReflTransGen p.MayCall f g)
    (givenUp : r.isOpaque? g = some true) : r.requiredIn? f = some p.enumeration.all := by
  have wf := solved.wellFormed
  obtain ⟨function, found⟩ := solved.exists_function_of_isOpaque? givenUp
  obtain ⟨caller, foundCaller⟩ := wf.exists_function_of_calls calls found
  refine solved.requiredIn?_eq_all foundCaller fun k member => wf.requires_of_calls calls ?_
  exact solved.requires_of_isOpaque? givenUp member

section Blocks

variable {f : FunctionId} {function : Function} {b : BlockId}
  (found : p.function? f = some function) (givenUp : r.isOpaque? f = some true)
  (listed : b ∈ function.blocks)
include found givenUp listed

/-- Everything is live throughout an opaque function. -/
theorem live_of_isOpaque? :
    r.liveIn? b = some p.enumeration.all ∧ r.liveOut? b = some p.enumeration.all := by
  obtain ⟨block, foundBlock, _⟩ := solved.wellFormed.exists_listed found listed
  obtain ⟨i, rfl, _⟩ := entryAt?_eq_some_iff.mp foundBlock
  have isOpaque := solved.isOpaqueBlock_of_listed found givenUp listed
  rw [solved.covers.liveIn?_ofNat foundBlock, solved.covers.liveOut?_ofNat foundBlock]
  exact ⟨congrArg some (solved.get_eq_all fun k member => .all isOpaque member),
    congrArg some (solved.get_eq_all fun k member => .all isOpaque member)⟩

/-- **An opaque function drops nothing.** -/
theorem not_mem_drops (kinds : CapSet) :
    (b, kinds) ∉ r.dropEnd.entries ∧ (b, kinds) ∉ r.dropStart.entries := by
  obtain ⟨block, foundBlock, _⟩ := solved.wellFormed.exists_listed found listed
  obtain ⟨i, rfl, _⟩ := entryAt?_eq_some_iff.mp foundBlock
  have isOpaque := solved.isOpaqueBlock_of_listed found givenUp listed
  have noneAtEnd : ∀ k, k ∉ r.dropEnd.get (Int.ofNat i) := by
    intro k dropped
    obtain ⟨isOpen, _⟩ := (solved.mem_dropEnd_iff foundBlock).mp dropped
    cases isOpaque.symm.trans isOpen
  have noneAtStart : ∀ k, k ∉ r.dropStart.get (Int.ofNat i) := by
    intro k dropped
    obtain ⟨dead, _, _, _, _, _, live⟩ := (solved.mem_dropStart_iff foundBlock).mp dropped
    exact dead (.all isOpaque (Program.mem_all_of_flows live))
  rw [solved.dropEnd] at noneAtEnd ⊢
  rw [solved.dropStart] at noneAtStart ⊢
  exact ⟨Drops.not_mem_entries noneAtEnd, Drops.not_mem_entries noneAtStart⟩

end Blocks

end Result.IsSolved

/-- **Extraction finds every structural error and nothing else.** Take a program that passes
validation and refers to the raise primitive, and give up on functions one by one. Then there
is a result. The kinds that a block uses are its constant arguments in the enumeration. A
function is opaque exactly if one of its blocks unwinds, or has an argument that is no constant
or outside the enumeration. The diagnostics list the structural errors in the order of their
places, every place once, and the statistics count the opaque functions. An opaque function
requires everything, everything is live throughout it, and it drops nothing. Whoever may call
it, directly or through others, requires everything as well. -/
theorem extraction_exact {p : Program} {config : Config} (valid : p.validate = none)
    (raises : p.hasRaisePrimitive = true) (lenient : config.strictness = .function) :
    ∃ caps r, p.capabilities = some caps ∧ (p.analyze config).outcome = .ok r ∧
      r.skipped = false ∧
      (∀ b block, p.block? b = some block → ∃ used, r.localUses? b = some used ∧
        ∀ k < maxKinds, k ∈ used ↔ k < caps.size ∧ .constant (Int.ofNat k) ∈ block.arguments) ∧
      (∀ f function, p.function? f = some function → ∃ givenUp, r.isOpaque? f = some givenUp ∧
        (givenUp = true ↔ ∃ b ∈ function.blocks, ∃ block, p.block? b = some block ∧
          (block.exit = .unwind ∨ .variable ∈ block.arguments ∨ ∃ value : Int,
            .constant value ∈ block.arguments ∧ (value < 0 ∨ caps.size ≤ value)))) ∧
      Lists PlaceOrder p.Fault r.diagnostics ∧
      r.stats.opaqueFunctions =
        p.functions.toList.countP (fun f => r.isOpaque? f.id = some true) ∧
      (∀ f function, p.function? f = some function → r.isOpaque? f = some true →
        ∀ b ∈ function.blocks, r.liveIn? b = some caps.all ∧ r.liveOut? b = some caps.all ∧
          ∀ kinds, (b, kinds) ∉ r.dropEnd.entries ∧ (b, kinds) ∉ r.dropStart.entries) ∧
      ∀ f g, ReflTransGen p.MayCall f g → r.isOpaque? g = some true →
        r.requiredIn? f = some caps.all := by
  obtain ⟨r, analyzed, notSkipped⟩ := Program.exists_result valid raises lenient
  have solved := Program.isSolved_of_outcome analyzed notSkipped
  have wf := solved.wellFormed
  obtain ⟨diagnostics, count⟩ := Program.reports_of_outcome analyzed notSkipped
  refine ⟨p.enumeration, r, wf.capabilities_eq, analyzed, notSkipped, ?_, ?_, ?_, ?_, ?_, ?_⟩
  · intro b block found
    refine ⟨_, solved.localUses?_of_found found, fun k isKind => ?_⟩
    rw [Block.mem_localUses, Enumeration.all, CapSet.mem_below, and_comm]
    simp only [isKind, and_true]
  · intro f function found
    refine ⟨_, solved.isOpaque?_of_found found, ?_⟩
    rw [Bool.not_eq_true', List.isEmpty_eq_false_iff, Program.functionProblems_ne_nil_iff]
  · rw [diagnostics]
    exact wf.lists_diagnostics
  · rw [count, solved.opaqueCount_eq]
  · intro f function found givenUp b listed
    obtain ⟨liveIn, liveOut⟩ := solved.live_of_isOpaque? found givenUp listed
    exact ⟨liveIn, liveOut, solved.not_mem_drops found givenUp listed⟩
  · exact fun f g calls givenUp => solved.requiredIn?_of_calls calls givenUp

/-- A program with structural errors of every kind. The second function lists its blocks out
of order, and the first one, which calls it, has no errors. -/
def faultyProgram : Program where
  capabilities := some (.ofFaultless ["CAP_CHOWN", "CAP_KILL"] none (by decide) (by decide +kernel))
  functions := #[
    { id := 0, name := "main", blocks := [0, 1], exit := 1 },
    { id := 1, name := "parse", blocks := [3, 2], exit := BlockId.absent },
    { id := 2, name := "legacy", blocks := [4], exit := 4 }]
  blocks := #[
    { id := 0, function := 0, kind := .call, target := .direct 1, successors := [1] },
    { id := 1, function := 0, exit := .return },
    { id := 2, function := 1, uses := [.constant 0, .variable, .constant 2], exit := .unwind },
    { id := 3, function := 1, kind := .raise, raised := [.constant (-1)], uses := [.constant 1],
      successors := [2] },
    { id := 4, function := 2, uses := [.variable], exit := .return }]
  entry := 0

/-- The errors of the faulty program are found in order. Two functions are opaque, and the first
function requires everything although it has no errors and uses nothing. -/
theorem extraction_exact_faulty :
    ∃ r, (faultyProgram.analyze sampleConfig).outcome = .ok r ∧
      r.isOpaque? 1 = some true ∧ r.stats.opaqueFunctions = 2 ∧
      Lists PlaceOrder faultyProgram.Fault r.diagnostics ∧
      r.diagnostics.map Problem.code? = [some .outOfRange, some .unwindExit, some .nonConstant,
        some .outOfRange, some .nonConstant] ∧
      (∃ used, r.localUses? 2 = some used ∧ 0 ∈ used ∧ 1 ∉ used) ∧
      r.liveOut? 2 = some (.below 2) ∧ (∀ kinds, (2, kinds) ∉ r.dropStart.entries) ∧
      r.requiredIn? 0 = some (.below 2) := by
  have valid : faultyProgram.validate = none := by decide +kernel
  have raises : faultyProgram.hasRaisePrimitive = true := by decide
  have lenient : sampleConfig.strictness = .function := rfl
  obtain ⟨caps, r, isCaps, analyzed, notSkipped, uses, isOpaque, lists, _, blocks, callers⟩ :=
    extraction_exact valid raises lenient
  obtain rfl : _ = caps := Option.some.inj isCaps
  obtain ⟨diagnostics, opaqueCount⟩ := Program.reports_of_outcome analyzed notSkipped
  obtain ⟨used, isUsed, memUsed⟩ := uses 2 _ rfl
  obtain ⟨_, isGivenUp, givenUpIff⟩ := isOpaque 1 _ rfl
  obtain rfl := givenUpIff.mpr ⟨2, by decide, _, rfl, .inl rfl⟩
  obtain ⟨_, liveOut, drops⟩ := blocks 1 _ rfl isGivenUp 2 (by decide)
  have calls : faultyProgram.MayCall 0 1 := ⟨0, _, rfl, rfl, rfl, .inl (by decide)⟩
  refine ⟨r, analyzed, isGivenUp, opaqueCount.trans (by decide +kernel), lists, ?_,
    ⟨used, isUsed, ?_, ?_⟩, liveOut.trans (by decide +kernel), fun kinds => (drops kinds).2,
    (callers 0 1 (.single calls) isGivenUp).trans (by decide +kernel)⟩
  · rw [diagnostics]
    decide +kernel
  · rw [memUsed 0 (by decide)]
    decide
  · rw [memUsed 1 (by decide)]
    decide

end CapLiveness
