import CapLiveness.Analysis.Verification
import CapLiveness.Proofs.Drops

/-!
# Verification accepts the analysis and nothing below it

An entity is stable when its cells contain what their equations demand
(`Setting.isStable_iff`), so a result has converged exactly when this holds for every
entity that is not opaque (`Setting.unstable_eq_nil_iff`). The outcome of an analysis
passes all checks, skipped or not.

Where no function is opaque, the converse is leastness. Tables that pass contain what
their equations demand, however they came about, and so they contain everything that
flows. In particular a cell that lost members cannot justify itself, be it on a cycle of
blocks or of calls: some entity is unstable (`verification_exact`).
-/

set_option autoImplicit false

namespace CapLiveness

namespace Setting

variable {s : Setting} {t : Tables}

/-! ## Stable entities -/

/-- Whether verification looks at an entity: it is there, and its function is not opaque. -/
def Checks (s : Setting) : Entity → Prop
  | .function slot => slot < s.graph.slotCount ∧ s.uses.isOpaque slot = false
  | .block b => b < s.program.blocks.size ∧ s.isOpaqueBlock b = false

theorem Checks.mem_initialEntities {entity : Entity} (checks : s.Checks entity) :
    entity ∈ s.initialEntities := by
  cases entity with
  | function slot => exact function_mem_initialEntities.mpr checks.1
  | block b => exact block_mem_initialEntities.mpr checks

theorem mem_openSlots {slot : Nat} : slot ∈ s.openSlots ↔ s.Checks (.function slot) := by
  simp [openSlots, Checks]

theorem mem_openBlocks {block : Block} {b : Nat} :
    (block, b) ∈ s.openBlocks ↔ s.block? b = some block ∧ s.Checks (.block b) := by
  have entry : (block, b) ∈ s.program.blockEntries ↔ s.block? b = some block :=
    Program.mem_zipIdx_toList_iff
  rw [openBlocks, List.mem_filter, entry]
  refine and_congr_right fun found => ?_
  have inside : b < s.program.blocks.size := (Array.getElem?_eq_some_iff.mp found).1
  simp [Checks, isOpaqueBlock, found, inside]

theorem isStable_iff {entity : Entity} (solved : entity ∈ s.initialEntities) :
    s.isStable t entity = true ↔ ∀ cell ∈ entity.cells, s.demand t cell ⊆ t.get cell := by
  rw [isStable, transfer_eq_map_demand s t solved]
  simp [CapSet.subsetOf_iff]

theorem unstable_eq_nil_iff :
    s.unstable t = [] ↔ ∀ cell : Cell, s.Checks cell.entity → s.demand t cell ⊆ t.get cell := by
  have slots : (s.openSlots.filter fun slot => !s.isStable t (.function slot)) = [] ↔
      ∀ slot, s.Checks (.function slot) → s.isStable t (.function slot) = true := by
    simp [List.filter_eq_nil_iff, mem_openSlots]
  have blocks : ((s.openBlocks.map (·.2)).filter fun b => !s.isStable t (.block b)) = [] ↔
      ∀ b, s.Checks (.block b) → s.isStable t (.block b) = true := by
    simp only [List.filter_eq_nil_iff, List.mem_map, Prod.exists, mem_openBlocks]
    constructor
    · intro stable b checks
      have inside : b < s.program.blocks.size := checks.1
      have found : s.block? b = some s.program.blocks[b] := Array.getElem?_eq_getElem inside
      simpa using stable b ⟨_, b, ⟨found, checks⟩, rfl⟩
    · rintro stable _ ⟨_, b, ⟨_, checks⟩, rfl⟩
      simp [stable b checks]
  rw [unstable, List.append_eq_nil_iff, List.map_eq_nil_iff, List.map_eq_nil_iff, slots, blocks]
  constructor
  · rintro ⟨stableSlots, stableBlocks⟩ cell checks
    refine (isStable_iff checks.mem_initialEntities).mp ?_ cell (Entity.mem_cells.mpr rfl)
    cases kind : cell.entity with
    | function slot => exact stableSlots slot (kind ▸ checks)
    | block b => exact stableBlocks b (kind ▸ checks)
  · intro contains
    have stable : ∀ entity, s.Checks entity → s.isStable t entity = true := by
      intro entity checks
      refine (isStable_iff checks.mem_initialEntities).mpr fun cell member => contains cell ?_
      rw [Entity.mem_cells.mp member]
      exact checks
    exact ⟨fun slot => stable _, fun b => stable _⟩

theorem IsClosed.unstable_eq_nil (closed : s.IsClosed t) : s.unstable t = [] :=
  unstable_eq_nil_iff.mpr fun cell checks => closed.demand_subset cell checks.mem_initialEntities

theorem isOpaqueEntity_eq_false (allOpen : ∀ slot, s.uses.isOpaque slot = false)
    (entity : Entity) : s.isOpaqueEntity entity = false := by
  cases entity with
  | function slot => rfl
  | block b =>
    show s.isOpaqueBlock b = false
    unfold isOpaqueBlock
    split
    · exact allOpen _
    · rfl

/-- Without opaque functions, tables that pass are closed. -/
theorem isClosed_of_unstable_eq_nil (allOpen : ∀ slot, s.uses.isOpaque slot = false)
    (stable : s.unstable t = []) : s.IsClosed t := by
  constructor
  · intro cell solved
    refine unstable_eq_nil_iff.mp stable cell ?_
    cases kind : cell.entity with
    | function slot =>
      exact ⟨function_mem_initialEntities.mp (kind ▸ solved), allOpen slot⟩
    | block b => exact block_mem_initialEntities.mp (kind ▸ solved)
  · intro cell givenUp
    rw [isOpaqueEntity_eq_false allOpen] at givenUp
    cases givenUp

end Setting

/-! ## Checks of a result -/

namespace Result

variable {r : Result} {p : Program}

/-- The same result with other tables. Nothing is computed again. -/
def withTables (r : Result) (t : Tables) : Result := { r with tables := t }

theorem converged_iff (r : Result) : r.converged = true ↔ r.setting.unstable r.tables = [] :=
  List.isEmpty_iff

theorem verify_eq_none_iff : r.verify = none ↔ r.violations = [] := by
  simp [verify, Problem.ofCauses]

theorem converged_of_verify (accepted : r.verify = none) : r.converged = true := by
  have none := verify_eq_none_iff.mp accepted
  rw [violations, List.append_eq_nil_iff, List.append_eq_nil_iff] at none
  exact r.converged_iff.mpr none.1.1

theorem violation_eq_nil_iff {kinds : CapSet} {violation : Violation} :
    (if kinds.isEmpty then [] else [violation]) = [] ↔ ∀ k, k ∉ kinds := by
  rw [← CapSet.isEmpty_iff_forall]
  cases kinds.isEmpty <;> simp

/-- What verification asks of drop sets, kind by kind: nothing is dropped that is live or
required, and nothing is lost on an edge. -/
structure DropsFit (r : Result) : Prop where
  atEnd : ∀ (b : Nat), r.setting.Checks (.block b) → ∀ k,
    k ∈ r.dropEnd.get (Int.ofNat b) → k ∉ r.tables.get ⟨.liveOut, b⟩
  onEdge : ∀ (b : Nat) (block : Block), r.setting.block? b = some block →
    r.setting.Checks (.block b) → ∀ next ∈ block.successors, ∀ k,
      k ∈ r.tables.get ⟨.liveOut, b⟩ →
        k ∈ r.tables.get ⟨.liveIn, next.toNat⟩ ∨ k ∈ r.dropStart.get next
  atEntry : ∀ k, k ∈ r.entryDrop → k ∉ r.setting.requirement r.tables r.program.entry

theorem DropsFit.violations_eq_nil (fit : r.DropsFit)
    (stable : r.setting.unstable r.tables = []) : r.violations = [] := by
  rw [violations, List.append_eq_nil_iff, List.append_eq_nil_iff, List.flatMap_eq_nil_iff]
  refine ⟨⟨stable, ?_⟩, ?_⟩
  · rintro ⟨block, b⟩ member
    obtain ⟨found, checks⟩ := Setting.mem_openBlocks.mp member
    rw [List.append_eq_nil_iff, List.flatMap_eq_nil_iff]
    constructor
    · rw [dropViolations, violation_eq_nil_iff]
      intro k both
      obtain ⟨dropped, live⟩ := CapSet.mem_inter.mp both
      exact fit.atEnd b checks k dropped live
    · intro next successor
      rw [edgeViolations, violation_eq_nil_iff]
      intro k lost
      obtain ⟨live, neither⟩ := CapSet.mem_sdiff.mp lost
      exact neither (CapSet.mem_union.mpr (fit.onEdge b block found checks next successor k live))
  · rw [entryViolations, violation_eq_nil_iff]
    intro k both
    obtain ⟨dropped, required⟩ := CapSet.mem_inter.mp both
    exact fit.atEntry k dropped required

theorem IsSolved.dropsFit (solved : r.IsSolved p) : r.DropsFit := by
  have wf := solved.wellFormed
  have program : r.program = p := solved.program_eq
  refine ⟨?_, ?_, ?_⟩
  · intro b checks k dropped live
    rw [solved.setting] at checks
    have inside : b < p.blocks.size := checks.1
    have found : p.block? (Int.ofNat b) = some p.blocks[b] := Array.getElem?_eq_getElem inside
    exact ((solved.mem_dropEnd_iff found).mp dropped).2.2 (solved.mem_get.mp live)
  · intro b block found checks next successor k live
    rw [solved.setting] at found
    have foundBlock : p.block? (Int.ofNat b) = some block := found
    obtain ⟨_, foundNext, _⟩ := (wf.block foundBlock).successors next successor
    obtain ⟨i, rfl, _⟩ := entryAt?_eq_some_iff.mp foundNext
    rw [solved.mem_get] at live ⊢
    exact solved.liveIn_or_dropStart foundBlock successor live
  · intro k dropped required
    rw [solved.entryDrop, Setting.dropAtEntry] at dropped
    rw [solved.setting, program] at required
    exact (CapSet.mem_sdiff.mp dropped).2 required

/-- Every successor and call target in a well-formed program has a place in the tables. -/
theorem Covers.isClosed (covers : r.Covers p) : r.isClosed = true := by
  have wf := covers.wellFormed
  have program : r.setting.program = p := covers.program
  rw [Result.isClosed, List.all_eq_true]
  rintro ⟨block, b⟩ member
  have found := (Setting.mem_openBlocks.mp member).1
  rw [Setting.block?, program] at found
  have foundBlock : p.block? (Int.ofNat b) = some block := found
  rw [Setting.isClosedAt, program, covers.graph, Bool.and_eq_true, List.all_eq_true,
    Bool.or_eq_true, List.all_eq_true]
  constructor
  · intro next successor
    obtain ⟨after, foundNext, _⟩ := (wf.block foundBlock).successors next successor
    rw [← Program.isSome_block?, foundNext]
    rfl
  · by_cases call : block.kind = .call
    · refine .inr fun f target => ?_
      obtain ⟨function, foundFunction⟩ :=
        Program.exists_of_hasFunction (wf.hasFunction_of_mem_targets foundBlock call target)
      obtain ⟨i, rfl, inside⟩ := entryAt?_eq_some_iff.mp foundFunction
      show (slotOf? p.functions.size (Int.ofNat i)).isSome = true
      rw [slotOf?_ofNat (Program.lt_of_function? inside)]
      rfl
    · exact .inl (by simpa using call)

theorem IsSolved.isClosed_tables (solved : r.IsSolved p) : p.setting.IsClosed r.tables := by
  constructor
  · intro cell isSolved k demanded
    refine solved.mem_get.mpr (Setting.flows_of_mem_demand ?_ isSolved demanded)
    exact fun source k member => solved.mem_get.mp member
  · intro cell givenUp k member
    exact solved.mem_get.mpr (.all givenUp member)

theorem IsSolved.not_isOpaque (solved : r.IsSolved p) (allOpen : ∀ f, r.isOpaque? f ≠ some true)
    (slot : Nat) : p.setting.uses.isOpaque slot = false := by
  rw [Bool.eq_false_iff]
  intro givenUp
  obtain ⟨function, found, _⟩ := Program.isOpaque_iff.mp givenUp
  have bound := Program.lt_of_function? found
  exact allOpen (Int.ofNat slot) ((solved.isOpaque?_ofNat bound).trans (congrArg some givenUp))

end Result

/-! ## Skipped results -/

namespace Program

variable (p : Program)

theorem not_isOpaque_bareSetting (slot : Nat) : p.bareSetting.uses.isOpaque slot = false := by
  simp only [bareSetting, Uses.isOpaque, Uses.none, Array.getD_eq_getD_getElem?,
    Array.getElem?_replicate]
  split <;> rfl

theorem own_bareSetting (cell : Cell) : p.bareSetting.own cell = ∅ := by
  obtain ⟨field, index⟩ := cell
  cases field with
  | requiredOut | returnLive | liveOut => rfl
  | requiredIn | liveIn =>
    simp only [bareSetting, Setting.own, Uses.none, Array.getD_eq_getD_getElem?,
      Array.getElem?_replicate]
    split <;> rfl

theorem isClosed_skippedResult : p.bareSetting.IsClosed p.bareSetting.skippedResult.tables := by
  constructor
  · intro cell _ k demanded
    rw [Setting.mem_demand, own_bareSetting] at demanded
    rcases demanded with own | ⟨source, _, member⟩
    · exact absurd own (CapSet.not_mem_empty k)
    · rw [get_skippedResult] at member
      exact absurd member (CapSet.not_mem_empty k)
  · intro cell givenUp
    rw [Setting.isOpaqueEntity_eq_false p.not_isOpaque_bareSetting] at givenUp
    cases givenUp

theorem dropsFit_skippedResult : p.bareSetting.skippedResult.DropsFit := by
  refine ⟨?_, ?_, ?_⟩
  · intro b _ k dropped
    exact absurd dropped (CapSet.not_mem_empty k)
  · intro b block _ _ next _ k live
    rw [get_skippedResult] at live
    exact absurd live (CapSet.not_mem_empty k)
  · intro k dropped
    exact absurd dropped (CapSet.not_mem_empty k)

end Program

/-! ## Outcomes of an analysis -/

namespace Program

variable {p : Program} {config : Config} {r : Result}

theorem verified_of_outcome (analyzed : (p.analyze config).outcome = .ok r) :
    r.Covers p ∧ r.setting.unstable r.tables = [] ∧ r.DropsFit := by
  rcases solved_or_skipped analyzed with solved | ⟨wf, rfl⟩
  · have stable := solved.isClosed_tables.unstable_eq_nil
    rw [← solved.setting] at stable
    exact ⟨solved.covers, stable, solved.dropsFit⟩
  · exact ⟨covers_skippedResult wf, p.isClosed_skippedResult.unstable_eq_nil,
      p.dropsFit_skippedResult⟩

theorem le_of_converged (analyzed : (p.analyze config).outcome = .ok r)
    (allOpen : ∀ f, r.isOpaque? f ≠ some true) {t : Tables}
    (converged : (r.withTables t).converged = true) : r.tables ≤ t := by
  intro cell k member
  rcases solved_or_skipped analyzed with solved | ⟨_, rfl⟩
  · have stable : r.setting.unstable t = [] := (r.withTables t).converged_iff.mp converged
    rw [solved.setting] at stable
    -- Closed tables contain all that flows, and nothing else was computed.
    have closed := Setting.isClosed_of_unstable_eq_nil (solved.not_isOpaque allOpen) stable
    exact closed.mem_of_flows (solved.mem_get.mp member)
  · rw [get_skippedResult] at member
    exact absurd member (CapSet.not_mem_empty k)

end Program

/-- **Verification is exact.** The outcome of an analysis, skipped or not, passes all its
checks. If no function is opaque and the tables are replaced by any others, then tables
that have converged contain the computed ones; so where a computed member is missing from
a cell, whatever else was changed, the result has not converged and fails verification. -/
theorem verification_exact {p : Program} {config : Config} {r : Result}
    (analyzed : (p.analyze config).outcome = .ok r) :
    r.isClosed = true ∧ r.verify = none ∧ r.converged = true ∧
      ((∀ f, r.isOpaque? f ≠ some true) → ∀ t : Tables,
        ((r.withTables t).converged = true → r.tables ≤ t) ∧
          ∀ cell, ¬ r.tables.get cell ⊆ t.get cell →
            (r.withTables t).converged = false ∧ (r.withTables t).verify ≠ none) := by
  obtain ⟨covers, stable, fit⟩ := Program.verified_of_outcome analyzed
  refine ⟨covers.isClosed, Result.verify_eq_none_iff.mpr (fit.violations_eq_nil stable),
    r.converged_iff.mpr stable, ?_⟩
  intro allOpen t
  refine ⟨Program.le_of_converged analyzed allOpen, ?_⟩
  intro cell missing
  have unstable : (r.withTables t).converged = false := by
    rw [Bool.eq_false_iff]
    intro converged
    exact missing (Program.le_of_converged analyzed allOpen converged cell)
  refine ⟨unstable, ?_⟩
  -- Verification includes the check for convergence.
  intro accepted
  rw [Result.converged_of_verify accepted] at unstable
  cases unstable

/-- In the tame program no function is given up on, and the worker calls itself. Emptying the
set of what it requires is noticed, although the recursive call then asks for nothing. -/
theorem verification_exact_tame :
    ∃ r, (tameProgram.analyze sampleConfig).outcome = .ok r ∧ r.verify = none ∧
      (∀ f, r.isOpaque? f ≠ some true) ∧
        (r.withTables (r.tables.set ⟨.requiredIn, 1⟩ ∅)).converged = false ∧
          (r.withTables (r.tables.set ⟨.requiredIn, 1⟩ ∅)).verify ≠ none := by
  obtain ⟨r, analyzed, notSkipped⟩ := tameProgram_analyzed
  have solved := Program.isSolved_of_outcome analyzed notSkipped
  have slots : tameProgram.setting.uses.opaqueSlots = Array.replicate 6 false := by decide +kernel
  have allOpen : ∀ f, r.isOpaque? f ≠ some true := by
    intro f
    rw [Result.isOpaque?, solved.setting]
    cases r.slot? f with
    | none => simp
    | some slot =>
      by_cases inside : slot < 6 <;>
        simp [Uses.isOpaque, slots, Array.getD_eq_getD_getElem?, inside]
  obtain ⟨_, accepted, _, tampered⟩ := verification_exact analyzed
  refine ⟨r, analyzed, accepted, allOpen, (tampered allOpen _).2 ⟨.requiredIn, 1⟩ ?_⟩
  have required : 0 ∈ r.tables.get ⟨.requiredIn, 1⟩ :=
    solved.mem_get.mpr (.own (by decide +kernel) (by decide +kernel))
  rw [Tables.get_set_self _ _ (by rw [solved.sized]; decide +kernel)]
  intro contained
  exact CapSet.not_mem_empty 0 (contained 0 required)

end CapLiveness
