import CapLiveness.Proofs.LivenessPaths
import Mathlib.Tactic.MkIffOfInductiveProp

/-!
# Imprecision only adds

The program that is analyzed is a description of another one, made by tools that may not
know everything: which branches are taken, what an indirect call enters, whether an
argument is constant. A description with more edges, more callees, more uses or more
functions that can be entered from outside is less precise (`Program.Refines`).

Whatever an equation reads in the more precise program it reads in the less precise one
(`Refines.sources_subset`), and whatever a cell has to contain by itself stays there
(`Refines.own_subset`); functions that are given up on stay given up
(`Refines.isOpaque`). So whatever flows still flows (`Refines.flows`): imprecision adds
to every set and never hides a need, and less can be dropped at the start
(`analysis_monotone`).
-/

set_option autoImplicit false

namespace CapLiveness

/-- The slots that a block enters by its call, among `n` functions. -/
def Block.entered (n : Nat) (block : Block) : List Nat :=
  if block.kind = .call then calleeSlots n block.target else []

theorem Block.mem_entered {n slot : Nat} {block : Block} :
    slot ∈ block.entered n ↔ block.kind = .call ∧ slot ∈ calleeSlots n block.target := by
  unfold entered
  split <;> simp_all

/-- Whether a function is described at least as precisely as another. -/
@[mk_iff]
structure Function.Refines (function other : Function) : Prop where
  blocks : function.blocks ⊆ other.blocks
  exit : function.exit = other.exit
  addressTaken : function.addressTaken = true → other.addressTaken = true

/-- Whether a block is described at least as precisely as another, among `n` functions. -/
@[mk_iff]
structure Block.Refines (n : Nat) (block other : Block) : Prop where
  successors : block.successors ⊆ other.successors
  arguments : block.arguments ⊆ other.arguments
  entered : block.entered n ⊆ other.entered n
  unwinds : block.exit = .unwind → other.exit = .unwind

instance (function other : Function) : Decidable (function.Refines other) :=
  decidable_of_iff _ (Function.refines_iff function other).symm

instance (n : Nat) (block other : Block) : Decidable (block.Refines n other) :=
  decidable_of_iff _ (Block.refines_iff n block other).symm

/-- **Whether a program is described at least as precisely as another.** The functions are
the same and return from the same blocks; the less precise description may add to
whatever else the analysis reads. -/
structure Program.Refines (p q : Program) : Prop where
  enumeration : p.enumeration = q.enumeration
  entry : p.entry = q.entry
  size : p.functions.size = q.functions.size
  function : ∀ {f function other}, p.function? f = some function → q.function? f = some other →
    function.Refines other
  block : ∀ {b block other}, p.block? b = some block → q.block? b = some other →
    block.Refines p.functions.size other

theorem Block.IsRegular.of_refines {n : Nat} {block other : Block} {caps : Enumeration}
    (refines : block.Refines n other) (regular : other.IsRegular caps) : block.IsRegular caps := by
  refine ⟨fun unwinds => regular.1 (refines.unwinds unwinds), ?_⟩
  intro argument member
  exact regular.2 argument (refines.arguments member)

namespace Program.Refines

variable {p q : Program} (refines : p.Refines q)

section Programs

include refines

theorem exists_function {f : FunctionId} {function : Function}
    (found : p.function? f = some function) :
    ∃ other, q.function? f = some other ∧ function.Refines other := by
  obtain ⟨i, rfl, inside⟩ := entryAt?_eq_some_iff.mp found
  have bound : i < q.functions.size := refines.size ▸ lt_of_function? found
  have foundOther : q.function? (Int.ofNat i) = some q.functions[i] :=
    Array.getElem?_eq_getElem bound
  exact ⟨_, foundOther, refines.function found foundOther⟩

theorem isExternal {f : FunctionId} (external : p.IsExternal f) : q.IsExternal f := by
  obtain ⟨notEntry, function, found, taken⟩ := external
  obtain ⟨other, foundOther, finer⟩ := refines.exists_function found
  exact ⟨refines.entry ▸ notEntry, other, foundOther, finer.addressTaken taken⟩

theorem callees {block other : Block} (finer : block.Refines p.functions.size other)
    (call : block.kind = .call) {slot : Nat} (callee : slot ∈ p.setting.callees block) :
    other.kind = .call ∧ slot ∈ q.setting.callees other := by
  have entered := Block.mem_entered.mp (finer.entered (Block.mem_entered.mpr ⟨call, callee⟩))
  rw [refines.size] at entered
  exact entered

theorem mem_localUses {b : BlockId} {block other : Block} (found : p.block? b = some block)
    (foundOther : q.block? b = some other) {k : Nat} (used : k ∈ block.localUses p.enumeration) :
    k ∈ other.localUses q.enumeration := by
  obtain ⟨member, inside⟩ := Block.mem_localUses.mp used
  rw [refines.enumeration] at inside
  exact Block.mem_localUses.mpr ⟨(refines.block found foundOther).arguments member, inside⟩

theorem exitSources_subset {b : Nat} {block other : Block}
    (found : p.block? (Int.ofNat b) = some block) (foundOther : q.block? (Int.ofNat b) = some other)
    (sameOwner : other.function = block.function) {source : Cell}
    (reads : source ∈ p.setting.exitSources b block) :
    source ∈ q.setting.exitSources b other := by
  rcases mem_exitSources.mp reads with
    ⟨next, successor, rfl⟩ | ⟨⟨function, foundFunction, exits⟩, rfl⟩
  · have listed := (refines.block found foundOther).successors successor
    exact mem_exitSources.mpr (.inl ⟨next, listed, rfl⟩)
  · obtain ⟨otherFunction, foundOtherFunction, finer⟩ := refines.exists_function foundFunction
    rw [← sameOwner] at foundOtherFunction ⊢
    exact mem_exitSources.mpr
      (.inr ⟨⟨otherFunction, foundOtherFunction, finer.exit.symm.trans exits⟩, rfl⟩)

end Programs

variable (wf : p.WellFormed) (wfOther : q.WellFormed)
include refines wf wfOther

theorem exists_block {b : BlockId} {block : Block} (found : p.block? b = some block) :
    ∃ other, q.block? b = some other ∧ other.function = block.function ∧
      block.Refines p.functions.size other := by
  obtain ⟨function, foundFunction⟩ := wf.owner found
  obtain ⟨otherFunction, foundOtherFunction, finer⟩ := refines.exists_function foundFunction
  have listed := finer.blocks ((wf.listed_iff foundFunction found).mpr rfl)
  obtain ⟨other, foundOther, owner⟩ := wfOther.exists_listed foundOtherFunction listed
  exact ⟨other, foundOther, owner, refines.block found foundOther⟩

theorem isOpaque {slot : Nat} (givenUp : p.setting.uses.isOpaque slot = true) :
    q.setting.uses.isOpaque slot = true := by
  obtain ⟨function, inside, b, listed, block, found, irregular⟩ := isOpaque_iff.mp givenUp
  have foundFunction : p.function? (Int.ofNat slot) = some function := inside
  obtain ⟨otherFunction, insideOther, finer⟩ := refines.exists_function foundFunction
  obtain ⟨other, foundOther, _, finerBlock⟩ := refines.exists_block wf wfOther found
  rw [refines.enumeration] at irregular
  exact isOpaque_iff.mpr ⟨otherFunction, insideOther, b, finer.blocks listed, other,
    foundOther, fun regular => irregular (.of_refines finerBlock regular)⟩

/-! ## What the equations read -/

theorem slotCallees_subset {slot callee : Nat} (entered : callee ∈ p.setting.slotCallees slot) :
    callee ∈ q.setting.slotCallees slot := by
  have calling : p.setting.graph.callingExternal = q.setting.graph.callingExternal :=
    congrArg (· + 1) refines.size
  have calls : p.setting.graph.callsExternal = q.setting.graph.callsExternal := refines.size
  rcases slotCallees_cases entered with
    ⟨rfl, external⟩ | ⟨rfl, rfl⟩ | ⟨b, site, found, call, owner, isCallee⟩
  · rw [calling, slotCallees_callingExternal]
    exact wfOther.mem_externalFunctions.mpr
      (refines.isExternal (wf.mem_externalFunctions.mp external))
  · rw [calls, slotCallees_callsExternal, calling]
    exact List.mem_singleton.mpr rfl
  · obtain ⟨other, foundOther, sameOwner, finer⟩ := refines.exists_block wf wfOther found
    obtain ⟨otherCall, isOtherCallee⟩ := refines.callees finer call isCallee
    exact wfOther.mem_slotCallees_of_mem_callees foundOther otherCall (sameOwner.trans owner)
      isOtherCallee

theorem callersOf_subset {slot c : Nat} (caller : c ∈ p.setting.graph.callersOf slot) :
    c ∈ q.setting.graph.callersOf slot := by
  obtain ⟨_, site, found, call, callee⟩ := mem_callersOf.mp caller
  obtain ⟨other, foundOther, _, finer⟩ := refines.exists_block wf wfOther found
  obtain ⟨otherCall, isOtherCallee⟩ := refines.callees finer call callee
  exact wfOther.mem_callersOf_of_mem_callees foundOther otherCall isOtherCallee

/-- **What an equation reads, it reads in the less precise program too.** -/
theorem sources_subset {cell source : Cell} (solved : cell.entity ∈ p.setting.initialEntities)
    (reads : source ∈ p.setting.sources cell) : source ∈ q.setting.sources cell := by
  obtain ⟨field, index⟩ := cell
  cases field with
  | requiredIn | requiredOut =>
    obtain ⟨callee, entered, rfl⟩ := List.mem_map.mp reads
    exact List.mem_map.mpr ⟨callee, refines.slotCallees_subset wf wfOther entered, rfl⟩
  | returnLive =>
    rcases mem_sources_returnLive.mp reads with ⟨c, caller, rfl⟩ | ⟨external, rfl⟩
    · have isCaller := refines.callersOf_subset wf wfOther caller
      exact mem_sources_returnLive.mpr (.inl ⟨c, isCaller, rfl⟩)
    · have isExternal := refines.isExternal (wf.isExternal_iff.mp external)
      have calls : p.setting.graph.callsExternal = q.setting.graph.callsExternal := refines.size
      rw [calls]
      exact mem_sources_returnLive.mpr (.inr ⟨wfOther.isExternal_iff.mpr isExternal, rfl⟩)
  | liveOut =>
    obtain ⟨block, found, _⟩ := exists_block_of_solved solved
    obtain ⟨other, foundOther, sameOwner, _⟩ := refines.exists_block wf wfOther found
    have exit := (mem_sources_liveOut found).mp reads
    exact (mem_sources_liveOut foundOther).mpr
      (refines.exitSources_subset found foundOther sameOwner exit)
  | liveIn =>
    obtain ⟨block, found, _⟩ := exists_block_of_solved solved
    obtain ⟨other, foundOther, sameOwner, finer⟩ := refines.exists_block wf wfOther found
    apply (mem_sources_liveIn foundOther).mpr
    rcases (mem_sources_liveIn found).mp reads with exit | ⟨call, slot, callee, rfl⟩
    · exact .inl (refines.exitSources_subset found foundOther sameOwner exit)
    · obtain ⟨otherCall, isOtherCallee⟩ := refines.callees finer call callee
      exact .inr ⟨otherCall, slot, isOtherCallee, rfl⟩

theorem own_subset {k : Nat} {cell : Cell} (solved : cell.entity ∈ p.setting.initialEntities)
    (member : k ∈ p.setting.own cell) : k ∈ q.setting.own cell := by
  obtain ⟨field, index⟩ := cell
  cases field with
  | requiredOut | returnLive | liveOut => exact absurd member (CapSet.not_mem_empty k)
  | liveIn =>
    obtain ⟨block, found, _⟩ := exists_block_of_solved solved
    obtain ⟨other, foundOther, _⟩ := refines.exists_block wf wfOther found
    rw [own_liveIn found] at member
    rw [own_liveIn foundOther]
    exact refines.mem_localUses found foundOther member
  | requiredIn =>
    have inside : k ∈ q.enumeration.all := by
      rw [← refines.enumeration]
      exact mem_all_of_flows (.own solved member)
    obtain ⟨function, isFunction, uses⟩ := mem_own_requiredIn.mp member
    have foundFunction : p.function? (Int.ofNat index) = some function := isFunction
    obtain ⟨other, isOther, finer⟩ := refines.exists_function foundFunction
    refine mem_own_requiredIn.mpr ⟨other, isOther, ?_⟩
    -- The function may be given up on in the less precise program only; then it uses
    -- everything there.
    split
    case isTrue => exact inside
    case isFalse isOpen =>
      rw [if_neg fun givenUp => isOpen (refines.isOpaque wf wfOther givenUp)] at uses
      obtain ⟨b, listed, block, found, used⟩ := mem_functionUses.mp uses
      obtain ⟨otherBlock, foundOther, _⟩ := refines.exists_block wf wfOther found
      exact mem_functionUses.mpr ⟨b, finer.blocks listed, otherBlock, foundOther,
        refines.mem_localUses found foundOther used⟩

/-! ## Flows -/

/-- A cell with an equation has one in the less precise program, or is given up there. -/
theorem flows_of_solved {k : Nat} {cell : Cell} (solved : cell.entity ∈ p.setting.initialEntities)
    (member : k ∈ q.setting.program.enumeration.all)
    (flows : cell.entity ∈ q.setting.initialEntities → q.setting.Flows k cell) :
    q.setting.Flows k cell := by
  cases isEntity : cell.entity with
  | function slot =>
    rw [isEntity] at solved
    apply flows
    rw [isEntity]
    have bound := Setting.function_mem_initialEntities.mp solved
    refine Setting.slot_mem_initialEntities ?_
    rw [← refines.size]
    exact bound
  | block b =>
    rw [isEntity] at solved
    obtain ⟨block, found, _⟩ := exists_block_of_solved solved
    obtain ⟨other, foundOther, _⟩ := refines.exists_block wf wfOther found
    exact WellFormed.flows_of_solved foundOther isEntity member flows

/-- **Whatever flows still flows in the less precise program.** -/
theorem flows {k : Nat} {cell : Cell} (flows : p.setting.Flows k cell) :
    q.setting.Flows k cell := by
  have member : k ∈ q.setting.program.enumeration.all := by
    have inside := mem_all_of_flows flows
    rwa [show p.setting.program.enumeration = q.setting.program.enumeration from
      refines.enumeration] at inside
  induction flows with
  | own solved used =>
    exact refines.flows_of_solved wf wfOther solved member fun solvedOther =>
      .own solvedOther (refines.own_subset wf wfOther solved used)
  | source solved reads _ ih =>
    exact refines.flows_of_solved wf wfOther solved member fun solvedOther =>
      .source solvedOther (refines.sources_subset wf wfOther solved reads) ih
  | @all cell givenUp _ =>
    refine .all ?_ member
    cases isEntity : cell.entity with
    | function slot =>
      rw [isEntity] at givenUp
      cases givenUp
    | block b =>
      rw [isEntity] at givenUp
      obtain ⟨block, found⟩ := exists_block_of_isOpaqueBlock givenUp
      obtain ⟨other, foundOther, sameOwner, _⟩ := refines.exists_block wf wfOther found
      refine (isOpaqueBlock_eq foundOther).trans ?_
      rw [sameOwner]
      exact refines.isOpaque wf wfOther ((isOpaqueBlock_eq found).symm.trans givenUp)

end Program.Refines

/-! ## The results -/

/-- Whether two sets exist, the first contained in the second. -/
def Within (fine coarse : Option CapSet) : Prop :=
  ∃ s t, fine = some s ∧ coarse = some t ∧ s ⊆ t

namespace Result.IsSolved

variable {p q : Program} {r other : Result} (solved : r.IsSolved p) (solvedOther : other.IsSolved q)
  (refines : p.Refines q)
include solved solvedOther refines

theorem get_subset (cell : Cell) : r.tables.get cell ⊆ other.tables.get cell := by
  intro k member
  have flows := refines.flows solved.wellFormed solvedOther.wellFormed (solved.mem_get.mp member)
  exact solvedOther.mem_get.mpr flows

theorem entryDrop_subset : other.entryDrop ⊆ r.entryDrop := by
  obtain ⟨_, isEntry, _⟩ := solved.wellFormed.entry
  obtain ⟨i, isSlot, inside⟩ := entryAt?_eq_some_iff.mp isEntry
  have bound := Program.lt_of_function? inside
  rw [solved.entryDrop_eq isSlot bound,
    solvedOther.entryDrop_eq (refines.entry ▸ isSlot) (refines.size ▸ bound), refines.enumeration]
  intro k dropped
  obtain ⟨member, unneeded⟩ := CapSet.mem_sdiff.mp dropped
  refine CapSet.mem_sdiff.mpr ⟨member, ?_⟩
  exact fun needed => unneeded (solved.get_subset solvedOther refines _ k needed)

end Result.IsSolved

theorem Program.exists_slot {p : Program} {f : FunctionId}
    (known : p.hasFunction f = true ∨ f.isSentinel = true) :
    ∃ slot, slotOf? p.functions.size f = some slot := by
  rcases known with has | sentinel
  · obtain ⟨function, found⟩ := exists_of_hasFunction has
    obtain ⟨i, rfl, _⟩ := entryAt?_eq_some_iff.mp found
    exact ⟨i, slotOf?_ofNat (lt_of_function? found)⟩
  · simp only [FunctionId.isSentinel, Bool.or_eq_true, beq_iff_eq] at sentinel
    rcases sentinel with rfl | rfl
    · exact ⟨_, rfl⟩
    · exact ⟨_, rfl⟩

/-- **The analysis is monotone in imprecision.** Take two descriptions of a program, the first
at least as precise as the second, and analyze both, giving up on functions with errors
one by one and visiting in any orders. Every set of the first result is contained in
that of the second, for functions, outside code and blocks, and less can be dropped at
the start in the second. -/
theorem analysis_monotone {p q : Program} (refines : p.Refines q) (valid : p.validate = none)
    (validOther : q.validate = none) (raises : p.hasRaisePrimitive = true)
    (raisesOther : q.hasRaisePrimitive = true) {config configOther : Config}
    (lenient : config.strictness = .function) (lenientOther : configOther.strictness = .function) :
    ∃ r other, (p.analyze config).outcome = .ok r ∧ (q.analyze configOther).outcome = .ok other ∧
      (∀ f, p.hasFunction f = true ∨ f.isSentinel = true →
        Within (r.requiredIn? f) (other.requiredIn? f) ∧
          Within (r.requiredOut? f) (other.requiredOut? f) ∧
          Within (r.returnLive? f) (other.returnLive? f)) ∧
      (∀ b, p.hasBlock b = true →
        Within (r.liveIn? b) (other.liveIn? b) ∧ Within (r.liveOut? b) (other.liveOut? b)) ∧
      other.entryDrop ⊆ r.entryDrop := by
  obtain ⟨r, analyzed, notSkipped⟩ := Program.exists_result valid raises lenient
  obtain ⟨other, analyzedOther, notSkippedOther⟩ :=
    Program.exists_result validOther raisesOther lenientOther
  have solved := Program.isSolved_of_outcome analyzed notSkipped
  have solvedOther := Program.isSolved_of_outcome analyzedOther notSkippedOther
  have contained := solved.get_subset solvedOther refines
  refine ⟨r, other, analyzed, analyzedOther, ?_, ?_, solved.entryDrop_subset solvedOther refines⟩
  · intro f known
    obtain ⟨slot, isSlot⟩ := Program.exists_slot known
    have atSlot : r.slot? f = some slot := (solved.covers.slot?_eq f).trans isSlot
    have atSlotOther : other.slot? f = some slot := by
      rw [solvedOther.covers.slot?_eq, ← refines.size]
      exact isSlot
    unfold Result.requiredIn? Result.requiredOut? Result.returnLive?
    rw [atSlot, atSlotOther]
    exact ⟨⟨_, _, rfl, rfl, contained _⟩, ⟨_, _, rfl, rfl, contained _⟩,
      ⟨_, _, rfl, rfl, contained _⟩⟩
  · intro b has
    obtain ⟨block, found⟩ := Program.exists_of_hasBlock has
    obtain ⟨otherBlock, foundOther, _⟩ :=
      refines.exists_block solved.wellFormed solvedOther.wellFormed found
    obtain ⟨b, rfl, _⟩ := entryAt?_eq_some_iff.mp found
    constructor
    · exact ⟨_, _, solved.covers.liveIn?_ofNat found,
        solvedOther.covers.liveIn?_ofNat foundOther, contained _⟩
    · exact ⟨_, _, solved.covers.liveOut?_ofNat found,
        solvedOther.covers.liveOut?_ofNat foundOther, contained _⟩

theorem tameProgram_refines : tameProgram.Refines sampleProgram where
  enumeration := rfl
  entry := rfl
  size := rfl
  function := by
    intro f function other found foundOther
    obtain ⟨i, rfl, _⟩ := entryAt?_eq_some_iff.mp found
    have finer : ∀ i < 4, ∀ function ∈ tameProgram.functions[i]?,
        ∀ other ∈ sampleProgram.functions[i]?, function.Refines other := by decide
    exact finer i (Program.lt_of_function? found) function found other foundOther
  block := by
    intro b block other found foundOther
    obtain ⟨i, rfl, _⟩ := entryAt?_eq_some_iff.mp found
    have finer : ∀ i < 10, ∀ block ∈ tameProgram.blocks[i]?,
        ∀ other ∈ sampleProgram.blocks[i]?, block.Refines 4 other := by decide +kernel
    exact finer i (Program.lt_of_block? found) block found other foundOther

/-- The sample program is less precise than the tame one: there the callback can be entered
from outside, and the legacy function is given up on. Both require what the worker raises, but
only in the sample program something is live where the callback returns. -/
theorem analysis_monotone_tame :
    tameProgram.Refines sampleProgram ∧
      ∃ r other, (tameProgram.analyze sampleConfig).outcome = .ok r ∧
        (sampleProgram.analyze { sampleConfig with order := .lifo }).outcome = .ok other ∧
        Within (r.requiredIn? FunctionId.callsExternal)
          (other.requiredIn? FunctionId.callsExternal) ∧
        Within (r.returnLive? 2) (other.returnLive? 2) ∧
        Within (r.liveIn? 9) (other.liveIn? 9) ∧ other.entryDrop ⊆ r.entryDrop ∧
        (∃ required, r.requiredIn? 0 = some required ∧ 0 ∈ required) ∧
        (∃ after, r.returnLive? 2 = some after ∧ 1 ∉ after) ∧
        ∃ after, other.returnLive? 2 = some after ∧ 1 ∈ after := by
  have lenient : sampleConfig.strictness = .function := rfl
  have lenientLifo : { sampleConfig with order := .lifo }.strictness = .function := rfl
  obtain ⟨r, other, analyzed, analyzedOther, functions, blocks, drops⟩ :=
    analysis_monotone tameProgram_refines rfl rfl rfl rfl lenient lenientLifo
  have solved := Program.isSolved_of_lenient rfl rfl lenient analyzed
  have solvedOther := Program.isSolved_of_lenient rfl rfl lenientLifo analyzedOther
  have worker : tameProgram.setting.Flows 0 ⟨.requiredIn, 1⟩ :=
    .own (by decide +kernel) (by decide +kernel)
  have required : 0 ∈ r.tables.get ⟨.requiredIn, 0⟩ :=
    solved.mem_get.mpr (.source (by decide +kernel) (by decide +kernel) worker)
  have dead : ¬ tameProgram.setting.Flows 1 ⟨.returnLive, 2⟩ := by
    refine Setting.not_flows_of_closed [⟨.returnLive, 2⟩] ?_ List.mem_cons_self
    decide +kernel
  refine ⟨tameProgram_refines, r, other, analyzed, analyzedOther, (functions _ (.inr rfl)).1,
    (functions 2 (.inl rfl)).2.2, (blocks 9 rfl).1, drops, ?_, ?_, ?_⟩
  · exact ⟨_, solved.covers.requiredIn?_ofNat (by decide), required⟩
  · exact ⟨_, solved.covers.returnLive?_ofNat (by decide),
      fun live => dead (solved.mem_get.mp live)⟩
  · exact ⟨_, solvedOther.covers.returnLive?_ofNat (by decide),
      solvedOther.mem_get.mpr sampleProgram_flows_back.2⟩

end CapLiveness
