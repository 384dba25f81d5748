import CapLiveness.Proofs.Outcome
import CapLiveness.Proofs.Worklist

/-!
# The solver computes the least solution

Solved tables hold exactly the kinds that flow into their cells, whichever pending
entity is taken next (`WellFormed.mem_solve_iff`).

One inclusion is an invariant of the run: whatever is in a cell flows into it. The
other is the invariant of the worklist: a cell whose entity is not pending
contains what its equation demands. It holds because a cell that grows makes its
readers pending. During a visit it is suspended for the entity that is being
visited, whose demands were computed from the tables at the start of the visit
(`Visiting`); they are still its demands at the end, unless one of its own cells
is among its sources, and then it is pending again.

So the tables are a solution of the equations, they are contained in all tables
that contain what the equations demand, and they do not depend on the order of
the visits (`solve_least_solution`).
-/

set_option autoImplicit false

namespace CapLiveness

/-! ## Growing cells -/

namespace Tables

theorem column_setColumn (t : Tables) (field other : Field) (sets : Array CapSet) :
    (t.setColumn field sets).column other = if other = field then sets else t.column other := by
  cases field <;> cases other <;> rfl

theorem size_column_set (t : Tables) (cell : Cell) (kinds : CapSet) (field : Field) :
    ((t.set cell kinds).column field).size = (t.column field).size := by
  rw [set, column_setColumn]
  split
  case isTrue same => rw [same, Array.size_setIfInBounds]
  case isFalse => rfl

/-- A cell that is there holds what was put into it. -/
theorem get_set_self (t : Tables) {cell : Cell} (kinds : CapSet)
    (bound : cell.index < (t.column cell.field).size) : (t.set cell kinds).get cell = kinds := by
  rw [get, set, column_setColumn, if_pos rfl]
  simp [Array.getD_eq_getD_getElem?, bound]

/-- Other cells stay. -/
theorem get_set_of_ne (t : Tables) {cell other : Cell} (kinds : CapSet) (different : other ≠ cell) :
    (t.set cell kinds).get other = t.get other := by
  rw [get, set, column_setColumn]
  split
  case isFalse => rfl
  case isTrue same =>
    have indices : cell.index ≠ other.index := by
      intro equal
      apply different
      cases cell
      cases other
      simp_all
    rw [get, same]
    simp [Array.getD_eq_getD_getElem?, indices]

/-- What growing a cell does: nothing to add, or exactly that cell becomes the
union. -/
theorem grow?_cases (t : Tables) (cell : Cell) (kinds : CapSet) :
    (t.grow? cell kinds = none ∧
        (cell.index < (t.column cell.field).size → kinds ⊆ t.get cell)) ∨
      ∃ grown, t.grow? cell kinds = some grown ∧ grown.get cell = t.get cell ∪ kinds ∧
        (∀ other, other ≠ cell → grown.get other = t.get other) ∧
        ∀ field, (grown.column field).size = (t.column field).size := by
  rw [grow?_eq]
  split
  case isTrue grows =>
    refine .inr ⟨_, rfl, get_set_self t _ grows.1, ?_, size_column_set t cell _⟩
    intro other different
    exact get_set_of_ne t _ different
  case isFalse stays =>
    refine .inl ⟨rfl, fun bound => ?_⟩
    by_cases contained : kinds ⊆ t.get cell
    · exact contained
    · exact absurd ⟨bound, contained⟩ stays

/-- Tables with columns of the same sizes and the same sets in all cells are equal. -/
theorem ext_get {t u : Tables} (sizes : ∀ field, (t.column field).size = (u.column field).size)
    (cells : ∀ cell, t.get cell = u.get cell) : t = u := by
  have columns : ∀ field, t.column field = u.column field := by
    intro field
    apply Array.ext (sizes field)
    intro i boundT boundU
    have same := cells ⟨field, i⟩
    simpa [get, Array.getD_eq_getD_getElem?, boundT, boundU] using same
  obtain ⟨requiredIn, requiredOut, returnLive, liveIn, liveOut⟩ := t
  obtain ⟨requiredIn', requiredOut', returnLive', liveIn', liveOut'⟩ := u
  obtain rfl : requiredIn = requiredIn' := columns .requiredIn
  obtain rfl : requiredOut = requiredOut' := columns .requiredOut
  obtain rfl : returnLive = returnLive' := columns .returnLive
  obtain rfl : liveIn = liveIn' := columns .liveIn
  obtain rfl : liveOut = liveOut' := columns .liveOut
  rfl

end Tables

namespace Setting

variable {σ : Type} {s : Setting}

/-! ## The tables at the start -/

theorem get_initialTables (s : Setting) (cell : Cell) :
    s.initialTables.get cell =
      if s.isOpaqueEntity cell.entity then s.program.enumeration.all else ∅ := by
  obtain ⟨field, index⟩ := cell
  have blocks : (s.program.blocks.map fun b =>
      if s.uses.isOpaque b.function.toNat then s.program.enumeration.all else ∅).getD index ∅ =
        if s.isOpaqueBlock index then s.program.enumeration.all else ∅ := by
    unfold isOpaqueBlock block?
    cases found : s.program.blocks[index]? with
    | none => simp [Array.getD_eq_getD_getElem?, found]
    | some block => simp [Array.getD_eq_getD_getElem?, found]
  have slots : (Array.replicate s.graph.slotCount (∅ : CapSet)).getD index ∅ = ∅ := by
    rw [Array.getD_eq_getD_getElem?, Array.getElem?_replicate]
    split <;> rfl
  cases field with
  | requiredIn => exact slots
  | requiredOut => exact slots
  | returnLive => exact slots
  | liveIn => exact blocks
  | liveOut => exact blocks

/-- Cells with an equation have a place in the tables. -/
theorem lt_size_initialTables {cell : Cell} (solved : cell.entity ∈ s.initialEntities) :
    cell.index < (s.initialTables.column cell.field).size := by
  obtain ⟨field, index⟩ := cell
  cases field with
  | requiredIn => simpa [initialTables, Tables.column, Tables.empty] using
      function_mem_initialEntities.mp solved
  | requiredOut => simpa [initialTables, Tables.column, Tables.empty] using
      function_mem_initialEntities.mp solved
  | returnLive => simpa [initialTables, Tables.column, Tables.empty] using
      function_mem_initialEntities.mp solved
  | liveIn => simpa [initialTables, Tables.column] using (block_mem_initialEntities.mp solved).1
  | liveOut => simpa [initialTables, Tables.column] using (block_mem_initialEntities.mp solved).1

theorem not_isOpaqueEntity {entity : Entity} (solved : entity ∈ s.initialEntities) :
    s.isOpaqueEntity entity = false := by
  cases entity with
  | function slot => rfl
  | block b => exact (block_mem_initialEntities.mp solved).2

/-! ## The invariant of a run -/

/-- What the tables and the worklist of a run always satisfy. -/
structure Sound (s : Setting) (progress : Progress σ) : Prop where
  sized : ∀ field,
    (progress.tables.column field).size = (s.initialTables.column field).size
  /-- Only entities with equations are visited. -/
  pending : ∀ entity ∈ progress.pending.items, entity ∈ s.initialEntities
  flows : ∀ cell k, k ∈ progress.tables.get cell → s.Flows k cell
  all : ∀ cell : Cell, s.isOpaqueEntity cell.entity = true →
    s.program.enumeration.all ⊆ progress.tables.get cell

/-- The invariant between visits: what is not pending contains what is demanded. -/
structure Invariant (s : Setting) (progress : Progress σ) : Prop extends Sound s progress where
  settled : ∀ cell : Cell, cell.entity ∈ s.initialEntities →
    cell.entity ∉ progress.pending.items →
    s.demand progress.tables cell ⊆ progress.tables.get cell

/-- The invariant during a visit that began with the tables `start`: the visited
entity may be unsettled, but then it still demands what it demanded at the start. -/
structure Visiting (s : Setting) (start : Tables) (visited : Entity) (progress : Progress σ) :
    Prop extends Sound s progress where
  settled : ∀ cell : Cell, cell.entity ∈ s.initialEntities →
    cell.entity ∉ progress.pending.items →
    s.demand progress.tables cell ⊆ progress.tables.get cell ∨
      (cell.entity = visited ∧ s.demand progress.tables cell = s.demand start cell)

/-- Demands depend on the sources only. -/
theorem demand_congr {t u : Tables} {cell : Cell}
    (same : ∀ source ∈ s.sources cell, t.get source = u.get source) :
    s.demand t cell = s.demand u cell := by
  apply CapSet.ext_mem
  intro k
  rw [mem_demand, mem_demand]
  refine or_congr Iff.rfl (exists_congr fun source => and_congr_right fun reads => ?_)
  rw [same source reads]

/-- A demand on tables that contain only what flows contains only what flows. -/
theorem flows_of_mem_demand {t : Tables} {cell : Cell} {k : Nat}
    (flows : ∀ source k, k ∈ t.get source → s.Flows k source)
    (solved : cell.entity ∈ s.initialEntities) (member : k ∈ s.demand t cell) :
    s.Flows k cell := by
  rcases mem_demand.mp member with own | ⟨source, reads, live⟩
  · exact .own solved own
  · exact .source solved reads (flows source k live)

end Setting

namespace Program.WellFormed

variable {σ : Type} {p : Program} (wf : p.WellFormed)
include wf

/-- A cell that an entity does not depend on can grow without changing what the
entity demands. -/
theorem demand_eq_of_not_mem_dependents {t u : Tables} {cell reader : Cell}
    (elsewhere : ∀ other, other ≠ cell → u.get other = t.get other)
    (solved : reader.entity ∈ p.setting.initialEntities)
    (independent : reader.entity ∉ p.setting.dependents cell) :
    p.setting.demand u reader = p.setting.demand t reader := by
  apply Setting.demand_congr
  intro source reads
  apply elsewhere
  rintro rfl
  exact independent (wf.entity_mem_dependents solved reads)

/-- **Letting one cell grow keeps the invariant of a visit.** Whoever reads the cell
becomes pending, so everyone else demands what it demanded before. -/
theorem visiting_absorb {start : Tables} {visited : Entity} {progress : Progress σ}
    (startFlows : ∀ cell k, k ∈ start.get cell → p.setting.Flows k cell)
    (invariant : p.setting.Visiting start visited progress) {cell : Cell}
    (solved : cell.entity ∈ p.setting.initialEntities) :
    p.setting.Visiting start visited
        (p.setting.absorb progress (cell, p.setting.demand start cell)) ∧
      p.setting.demand start cell ⊆
        (p.setting.absorb progress (cell, p.setting.demand start cell)).tables.get cell ∧
      progress.tables ≤ (p.setting.absorb progress (cell, p.setting.demand start cell)).tables := by
  have bound : cell.index < (progress.tables.column cell.field).size := by
    rw [invariant.sized]
    exact Setting.lt_size_initialTables solved
  unfold Setting.absorb
  rcases progress.tables.grow?_cases cell (p.setting.demand start cell) with
    ⟨unchanged, contained⟩ | ⟨grown, changed, atCell, elsewhere, sizes⟩
  · rw [unchanged]
    exact ⟨invariant, contained bound, fun _ _ member => member⟩
  · rw [changed]
    have larger : progress.tables ≤ grown := by
      intro other
      by_cases same : other = cell
      · rw [same, atCell]
        exact CapSet.subset_union_left _ _
      · rw [elsewhere other same]
        exact fun _ member => member
    refine ⟨⟨⟨?_, ?_, ?_, ?_⟩, ?_⟩, ?_, larger⟩
    · intro field
      rw [sizes field, invariant.sized field]
    · intro entity member
      rcases Worklist.mem_pushAll.mp member with before | dependent
      · exact invariant.pending entity before
      · exact wf.dependents_subset_initialEntities solved dependent
    · intro other k member
      by_cases same : other = cell
      · subst same
        rw [atCell, CapSet.mem_union] at member
        rcases member with before | demanded
        · exact invariant.flows other k before
        · exact Setting.flows_of_mem_demand startFlows solved demanded
      · rw [elsewhere other same] at member
        exact invariant.flows other k member
    · intro other givenUp k member
      exact larger other k (invariant.all other givenUp k member)
    · intro reader readerSolved notPending
      rw [Worklist.mem_pushAll, not_or] at notPending
      rw [wf.demand_eq_of_not_mem_dependents elsewhere readerSolved notPending.2]
      rcases invariant.settled reader readerSolved notPending.1 with contained | suspended
      · exact .inl fun k member => larger reader k (contained k member)
      · exact .inr suspended
    · rw [atCell]
      exact CapSet.subset_union_right _ _

/-- Letting several cells grow keeps the invariant of a visit, and each then
contains what was demanded of it. -/
theorem visiting_absorbAll {start : Tables} {visited : Entity}
    (startFlows : ∀ cell k, k ∈ start.get cell → p.setting.Flows k cell) (cells : List Cell)
    (solved : ∀ cell ∈ cells, cell.entity ∈ p.setting.initialEntities) {progress : Progress σ}
    (invariant : p.setting.Visiting start visited progress) :
    p.setting.Visiting start visited
        ((cells.map fun cell => (cell, p.setting.demand start cell)).foldl p.setting.absorb
          progress) ∧
      (∀ cell ∈ cells, p.setting.demand start cell ⊆
        ((cells.map fun cell => (cell, p.setting.demand start cell)).foldl p.setting.absorb
          progress).tables.get cell) ∧
      progress.tables ≤ ((cells.map fun cell => (cell, p.setting.demand start cell)).foldl
        p.setting.absorb progress).tables := by
  induction cells generalizing progress with
  | nil => exact ⟨invariant, by simp, fun _ _ member => member⟩
  | cons first rest ih =>
    rw [List.map_cons, List.foldl_cons]
    obtain ⟨afterFirst, containsFirst, largerFirst⟩ :=
      wf.visiting_absorb startFlows invariant (solved first List.mem_cons_self)
    obtain ⟨afterRest, containsRest, largerRest⟩ :=
      ih (fun cell member => solved cell (List.mem_cons_of_mem _ member)) afterFirst
    refine ⟨afterRest, ?_, fun cell k member => largerRest cell k (largerFirst cell k member)⟩
    intro cell member k demanded
    rcases List.mem_cons.mp member with rfl | later
    · exact largerRest _ k (containsFirst k demanded)
    · exact containsRest cell later k demanded

/-- **A visit keeps the invariant.** -/
theorem invariant_visit {progress : Progress σ} {visited : Entity}
    (solved : visited ∈ p.setting.initialEntities)
    (invariant : p.setting.Visiting progress.tables visited progress) :
    p.setting.Invariant (p.setting.visit progress visited) := by
  have counted : p.setting.Visiting progress.tables visited
      { progress with visits := progress.visits + 1 } :=
    ⟨⟨invariant.sized, invariant.pending, invariant.flows, invariant.all⟩, invariant.settled⟩
  unfold Setting.visit
  rw [Setting.transfer_eq_map_demand _ _ solved]
  obtain ⟨after, contains, _⟩ := wf.visiting_absorbAll invariant.flows visited.cells
    (fun cell member => by rw [Entity.mem_cells.mp member]; exact solved) counted
  refine ⟨after.toSound, ?_⟩
  intro cell cellSolved notPending
  rcases after.settled cell cellSolved notPending with contained | ⟨ofVisited, sameDemand⟩
  · exact contained
  · rw [sameDemand]
    exact contains cell (Entity.mem_cells.mpr ofVisited)

end Program.WellFormed

namespace Setting

variable {σ : Type} {s : Setting}

/-- **Runs.** What visits preserve holds at the end of a run, and then nothing is
pending. -/
theorem run_induction {source : Source σ} {holds : Progress σ → Prop}
    (step : ∀ progress entity rest, holds progress →
      progress.pending.pop source = some (entity, rest) →
      holds (s.visit { progress with pending := rest } entity))
    {progress : Progress σ} (start : holds progress) :
    holds (s.run source progress) ∧ (s.run source progress).pending.items = [] := by
  fun_induction run s source progress with
  | case1 progress taken => exact ⟨start, Worklist.pop_eq_none_iff.mp taken⟩
  | case2 progress entity rest taken shorter ih => exact ih (step progress entity rest start taken)

/-- What is pending at the start is what has equations. -/
theorem mem_initialPending {source : Source σ} {order : Order} {choices : σ} {entity : Entity} :
    entity ∈ (s.initialPending source order choices).items ↔ entity ∈ s.initialEntities := by
  unfold initialPending
  split
  · rw [(Worklist.shuffle_perm source _).mem_iff]
    simp
  · simp

theorem invariant_initial (s : Setting) (source : Source σ) (order : Order) (choices : σ) :
    s.Invariant ⟨s.initialTables, s.initialPending source order choices, 0, 0, #[]⟩ := by
  refine ⟨⟨fun _ => rfl, fun _ member => mem_initialPending.mp member, ?_, ?_⟩, ?_⟩
  · intro cell k member
    rw [get_initialTables] at member
    split at member
    case isTrue givenUp => exact .all givenUp member
    case isFalse => exact absurd member (CapSet.not_mem_empty k)
  · intro cell givenUp k member
    rw [get_initialTables, if_pos givenUp]
    exact member
  · intro cell solved notPending
    exact absurd (mem_initialPending.mpr solved) notPending

end Setting

namespace Program.WellFormed

variable {σ : Type} {p : Program} (wf : p.WellFormed)
include wf

/-- Visiting a pending entity keeps the invariant, whichever is taken. -/
theorem invariant_take {progress : Progress σ} {entity : Entity} {rest : Worklist Entity σ}
    (invariant : p.setting.Invariant progress)
    (taken : progress.pending.items.Perm (entity :: rest.items)) :
    p.setting.Invariant (p.setting.visit { progress with pending := rest } entity) := by
  have solved : entity ∈ p.setting.initialEntities :=
    invariant.pending entity (taken.mem_iff.mpr List.mem_cons_self)
  refine wf.invariant_visit solved ⟨⟨invariant.sized, ?_, invariant.flows, invariant.all⟩, ?_⟩
  · intro other member
    exact invariant.pending other (taken.mem_iff.mpr (List.mem_cons_of_mem _ member))
  · intro cell cellSolved notPending
    by_cases same : cell.entity = entity
    · exact .inr ⟨same, rfl⟩
    · refine .inl (invariant.settled cell cellSolved ?_)
      rw [taken.mem_iff, List.mem_cons, not_or]
      exact ⟨same, notPending⟩

/-- The invariant holds at the end of the solver's run, when nothing is pending. -/
theorem invariant_solve (source : Source σ) (order : Order) (choices : σ) :
    p.setting.Invariant (p.setting.solve source order choices) ∧
      (p.setting.solve source order choices).pending.items = [] := by
  refine Setting.run_induction ?_ (p.setting.invariant_initial source order choices)
  intro progress entity rest invariant taken
  exact wf.invariant_take invariant (Worklist.perm_of_pop taken)

theorem isClosed_solve (source : Source σ) (order : Order) (choices : σ) :
    p.setting.IsClosed (p.setting.solve source order choices).tables := by
  obtain ⟨invariant, empty⟩ := wf.invariant_solve source order choices
  refine ⟨fun cell solved => invariant.settled cell solved ?_, invariant.all⟩
  rw [empty]
  exact List.not_mem_nil

/-- **Solved tables hold exactly what flows,** whatever the order of the visits. -/
theorem mem_solve_iff {source : Source σ} {order : Order} {choices : σ} {cell : Cell} {k : Nat} :
    k ∈ (p.setting.solve source order choices).tables.get cell ↔ p.setting.Flows k cell :=
  ⟨(wf.invariant_solve source order choices).1.flows cell k,
    (wf.isClosed_solve source order choices).mem_of_flows⟩

/-- Solved cells hold exactly what their equations demand. -/
theorem demand_solve (source : Source σ) (order : Order) (choices : σ) {cell : Cell}
    (solved : cell.entity ∈ p.setting.initialEntities) :
    p.setting.demand (p.setting.solve source order choices).tables cell =
      (p.setting.solve source order choices).tables.get cell := by
  apply CapSet.ext_mem
  intro k
  constructor
  · exact (wf.isClosed_solve source order choices).demand_subset cell solved k
  · intro member
    exact (wf.mem_solve_iff.mp member).mem_demand (fun _ => wf.mem_solve_iff.mpr)
      (Setting.not_isOpaqueEntity solved)

/-- All is live in the blocks of opaque functions, and nothing else. -/
theorem get_solve_of_isOpaqueEntity (source : Source σ) (order : Order) (choices : σ) {cell : Cell}
    (givenUp : p.setting.isOpaqueEntity cell.entity = true) :
    (p.setting.solve source order choices).tables.get cell =
      p.setting.program.enumeration.all := by
  have notSolved : cell.entity ∉ p.setting.initialEntities := by
    intro solved
    rw [Setting.not_isOpaqueEntity solved] at givenUp
    cases givenUp
  apply CapSet.ext_mem
  intro k
  rw [wf.mem_solve_iff]
  constructor
  · intro flows
    cases flows with
    | all _ member => exact member
    | own solved _ => exact absurd solved notSolved
    | source solved _ _ => exact absurd solved notSolved
  · exact .all givenUp

/-- **The order of the visits does not matter.** -/
theorem tables_solve_eq {τ : Type} (source : Source σ) (order : Order) (choices : σ)
    (source' : Source τ) (order' : Order) (choices' : τ) :
    (p.setting.solve source order choices).tables =
      (p.setting.solve source' order' choices').tables := by
  apply Tables.ext_get
  · intro field
    rw [(wf.invariant_solve source order choices).1.sized,
      (wf.invariant_solve source' order' choices').1.sized]
  · intro cell
    apply CapSet.ext_mem
    intro k
    rw [wf.mem_solve_iff, wf.mem_solve_iff]

end Program.WellFormed

/-! ## Solutions of the equations -/

namespace Setting

/-- Tables that hold exactly what the transfer functions compute from them, in every
slot and every block of a function that is not opaque, and all kinds elsewhere. -/
structure IsSolution (s : Setting) (t : Tables) : Prop where
  slots : ∀ slot < s.program.functions.size + 2,
    s.requiredIn t slot = t.get ⟨.requiredIn, slot⟩ ∧
      s.requiredOut t slot = t.get ⟨.requiredOut, slot⟩ ∧
      s.returnLive t slot = t.get ⟨.returnLive, slot⟩
  openBlocks : ∀ b block, s.block? b = some block →
    s.uses.isOpaque block.function.toNat = false →
    s.liveIn t b block = t.get ⟨.liveIn, b⟩ ∧ s.liveOut t b block = t.get ⟨.liveOut, b⟩
  opaqueBlocks : ∀ b block, s.block? b = some block →
    s.uses.isOpaque block.function.toNat = true →
    t.get ⟨.liveIn, b⟩ = s.program.enumeration.all ∧
      t.get ⟨.liveOut, b⟩ = s.program.enumeration.all

/-- Tables that contain what the transfer functions compute from them, in every slot
and every block of a function that is not opaque, and all kinds elsewhere. -/
structure IsPostSolution (s : Setting) (t : Tables) : Prop where
  slots : ∀ slot < s.program.functions.size + 2,
    s.requiredIn t slot ⊆ t.get ⟨.requiredIn, slot⟩ ∧
      s.requiredOut t slot ⊆ t.get ⟨.requiredOut, slot⟩ ∧
      s.returnLive t slot ⊆ t.get ⟨.returnLive, slot⟩
  openBlocks : ∀ b block, s.block? b = some block →
    s.uses.isOpaque block.function.toNat = false →
    s.liveIn t b block ⊆ t.get ⟨.liveIn, b⟩ ∧ s.liveOut t b block ⊆ t.get ⟨.liveOut, b⟩
  opaqueBlocks : ∀ b block, s.block? b = some block →
    s.uses.isOpaque block.function.toNat = true →
    t.get ⟨.liveIn, b⟩ = s.program.enumeration.all ∧
      t.get ⟨.liveOut, b⟩ = s.program.enumeration.all

/-- The setting in which a program is analyzed has one slot for each function, and two
more. -/
theorem slot_mem_initialEntities {p : Program} {slot : Nat} (bound : slot < p.functions.size + 2) :
    .function slot ∈ p.setting.initialEntities :=
  function_mem_initialEntities.mpr bound

theorem block_mem_initialEntities_of_found {s : Setting} {b : Nat} {block : Block}
    (found : s.block? b = some block) (notOpaque : s.uses.isOpaque block.function.toNat = false) :
    .block b ∈ s.initialEntities := by
  refine block_mem_initialEntities.mpr ⟨(Array.getElem?_eq_some_iff.mp found).1, ?_⟩
  simpa only [isOpaqueBlock, found] using notOpaque

/-- Tables that contain what the transfer functions compute are closed. -/
theorem IsPostSolution.isClosed {p : Program} {t : Tables} (post : p.setting.IsPostSolution t) :
    p.setting.IsClosed t := by
  have openBlock : ∀ b, .block b ∈ p.setting.initialEntities → ∃ block,
      p.setting.block? b = some block ∧ p.setting.uses.isOpaque block.function.toNat = false := by
    intro b solved
    obtain ⟨block, found, notOpaque⟩ := Program.exists_block_of_solved solved
    rw [Program.isOpaqueBlock_eq found] at notOpaque
    exact ⟨block, found, notOpaque⟩
  constructor
  · rintro ⟨field, index⟩ solved
    cases field with
    | requiredIn =>
      rw [← requiredIn_eq_demand]
      exact (post.slots index (function_mem_initialEntities.mp solved)).1
    | requiredOut =>
      rw [← requiredOut_eq_demand]
      exact (post.slots index (function_mem_initialEntities.mp solved)).2.1
    | returnLive =>
      rw [← returnLive_eq_demand]
      exact (post.slots index (function_mem_initialEntities.mp solved)).2.2
    | liveIn =>
      obtain ⟨block, found, notOpaque⟩ := openBlock index solved
      rw [← liveIn_eq_demand _ _ found]
      exact (post.openBlocks index block found notOpaque).1
    | liveOut =>
      obtain ⟨block, found, notOpaque⟩ := openBlock index solved
      rw [← liveOut_eq_demand _ _ found]
      exact (post.openBlocks index block found notOpaque).2
  · rintro ⟨field, index⟩ givenUp
    have opaqueBlock : p.setting.isOpaqueBlock index = true →
        p.setting.program.enumeration.all ⊆ t.get ⟨.liveIn, index⟩ ∧
          p.setting.program.enumeration.all ⊆ t.get ⟨.liveOut, index⟩ := by
      intro givenUp
      unfold isOpaqueBlock at givenUp
      split at givenUp
      case h_2 => cases givenUp
      case h_1 block found =>
        obtain ⟨liveIn, liveOut⟩ := post.opaqueBlocks index block found givenUp
        rw [liveIn, liveOut]
        exact ⟨fun _ member => member, fun _ member => member⟩
    cases field with
    | requiredIn => cases givenUp
    | requiredOut => cases givenUp
    | returnLive => cases givenUp
    | liveIn => exact (opaqueBlock givenUp).1
    | liveOut => exact (opaqueBlock givenUp).2

end Setting

namespace Program.WellFormed

variable {σ : Type} {p : Program} (wf : p.WellFormed)
include wf

/-- Solved tables are a solution. -/
theorem isSolution_solve (source : Source σ) (order : Order) (choices : σ) :
    p.setting.IsSolution (p.setting.solve source order choices).tables := by
  refine ⟨?_, ?_, ?_⟩
  · intro slot bound
    have solved := Setting.slot_mem_initialEntities bound
    rw [Setting.requiredIn_eq_demand, Setting.requiredOut_eq_demand, Setting.returnLive_eq_demand]
    exact ⟨wf.demand_solve source order choices solved, wf.demand_solve source order choices solved,
      wf.demand_solve source order choices solved⟩
  · intro b block found notOpaque
    have solved := Setting.block_mem_initialEntities_of_found found notOpaque
    rw [Setting.liveIn_eq_demand _ _ found, Setting.liveOut_eq_demand _ _ found]
    exact ⟨wf.demand_solve source order choices solved, wf.demand_solve source order choices solved⟩
  · intro b block found givenUp
    have isOpaque : p.setting.isOpaqueBlock b = true := by
      simpa only [Setting.isOpaqueBlock, found] using givenUp
    exact ⟨wf.get_solve_of_isOpaqueEntity source order choices isOpaque,
      wf.get_solve_of_isOpaqueEntity source order choices isOpaque⟩

/-- Solved tables are contained in all tables that contain what is demanded of them. -/
theorem solve_le (source : Source σ) (order : Order) (choices : σ) {t : Tables}
    (closed : p.setting.IsClosed t) : (p.setting.solve source order choices).tables ≤ t := by
  intro cell k member
  exact closed.mem_of_flows (wf.mem_solve_iff.mp member)

end Program.WellFormed

/-- **The solver computes the least solution.** For a program that passes validation and
refers to the raise primitive, whatever the strictness under which its uses can be
extracted, the order of the visits and the source of choices: the solver stops with
nothing pending, its tables solve the equations, and they are contained in all tables
that contain what the transfer functions compute from them. So every analysis of the
program, in any order and with any choices, has these tables and the drop sets derived
from them. -/
theorem solve_least_solution {σ : Type} {p : Program} (valid : p.validate = none)
    (raises : p.hasRaisePrimitive = true) {strictness : Strictness} {uses : Uses}
    (extracted : Uses.extract strictness p = .ok uses) (source : Source σ) (order : Order)
    (choices : σ) :
    let s : Setting := { p.bareSetting with uses := uses }
    let solved := s.solve source order choices
    solved.pending.items = [] ∧ s.IsSolution solved.tables ∧
      (∀ t, s.IsPostSolution t → solved.tables ≤ t) ∧
      ∀ {τ : Type} (other : Source τ) (otherChoices : τ) (config : Config),
        config.strictness = strictness →
          ∃ r, (p.analyzeWith other otherChoices config).outcome = .ok r ∧
            r.tables = solved.tables ∧ r.dropEnd = s.dropsAtEnd solved.tables ∧
            r.dropStart = s.dropsAtStart solved.tables ∧
            r.entryDrop = s.dropAtEntry solved.tables := by
  have wf := Program.wellFormed_of_validate valid
  obtain rfl := Uses.eq_ofProgram_of_extract extracted
  refine ⟨(wf.invariant_solve source order choices).2, wf.isSolution_solve source order choices,
    fun t post => wf.solve_le source order choices post.isClosed, ?_⟩
  rintro τ other otherChoices config rfl
  refine ⟨_, Program.outcome_of_extract valid raises extracted, ?_⟩
  have same := wf.tables_solve_eq other config.order otherChoices source order choices
  exact ⟨same, congrArg p.setting.dropsAtEnd same, congrArg p.setting.dropsAtStart same,
    congrArg p.setting.dropAtEntry same⟩

/-- A program in which everything meets: a branch, a recursive function, a call of unknown
code that may call back, and a function that is given up on because of an argument that
is not a constant. -/
def sampleProgram : Program where
  capabilities := some
    (.ofFaultless ["CAP_CHOWN", "CAP_KILL", "CAP_SETUID"] none (by decide) (by decide +kernel))
  functions := #[
    { id := 0, name := "main", blocks := [0, 1, 2, 3, 4], exit := 4 },
    { id := 1, name := "worker", blocks := [5, 6, 7], exit := 7 },
    { id := 2, name := "callback", blocks := [8], exit := 8, addressTaken := true },
    { id := 3, name := "legacy", blocks := [9], exit := 9 }]
  blocks := #[
    { id := 0, function := 0, successors := [1, 2] },
    { id := 1, function := 0, kind := .call, target := .direct 1, successors := [4] },
    { id := 2, function := 0, kind := .call, target := .unresolved, successors := [3] },
    { id := 3, function := 0, kind := .raise, raised := [.constant 1], successors := [4] },
    { id := 4, function := 0, exit := .return },
    { id := 5, function := 1, kind := .raise, raised := [.constant 0], successors := [6, 7] },
    { id := 6, function := 1, kind := .call, target := .direct 1, successors := [7] },
    { id := 7, function := 1, exit := .return },
    { id := 8, function := 2, kind := .call, target := .direct 1, exit := .return },
    { id := 9, function := 3, uses := [.variable], exit := .return }]
  entry := 0

/-- The sample program passes validation, and newest-first visits solve its equations. -/
theorem solve_least_solution_sample :
    sampleProgram.validate = none ∧ sampleProgram.hasRaisePrimitive = true ∧
      ∃ uses, Uses.extract .function sampleProgram = .ok uses ∧
        let s : Setting := { sampleProgram.bareSetting with uses := uses }
        let solved := s.solve Generator.source .lifo (Generator.ofSeed 0)
        solved.pending.items = [] ∧ s.IsSolution solved.tables ∧
          ∀ t, s.IsPostSolution t → solved.tables ≤ t := by
  have valid : sampleProgram.validate = none := rfl
  have raises : sampleProgram.hasRaisePrimitive = true := rfl
  have extracted : Uses.extract .function sampleProgram = .ok (Uses.ofProgram sampleProgram) := rfl
  obtain ⟨done, solution, least, _⟩ := solve_least_solution valid raises extracted
    Generator.source .lifo (Generator.ofSeed 0)
  exact ⟨valid, raises, _, extracted, done, solution, least⟩

end CapLiveness
