import CapLiveness.Proofs.Rounds

/-!
# The trace of a run

The solver reports every growth of a set, with the set before and after it. A place is
what such a report names: a table, a function and a block (`Place`). Every cell has a
place of its own (`Setting.placeOf_injective`), so the reports about a place are the
history of one cell.

What a history leaves at a place is the set after the last report about it, and nothing
if there is none (`leftAt`). The trace of a run tells the tables: a cell with an equation
always holds what the trace leaves at its place, and each report starts from there
(`Setting.Recorded`). Cells without an equation, those of the blocks of opaque functions,
are filled before the run and are never reported. So the trace of an analysis is a
faithful history of the sets it returns (`trace_faithful`).
-/

set_option autoImplicit false

namespace CapLiveness

/-! ## Histories -/

/-- What the report of a growth names. -/
structure Place where
  field : Field
  function : FunctionId
  block : BlockId
deriving DecidableEq

def Update.place (u : Update) : Place := ⟨u.field, u.function, u.block⟩

/-- What a history leaves at a place: the set after the last update there. -/
def leftAt (history : List Update) (place : Place) : CapSet :=
  match (history.filter (·.place == place)).getLast? with
  | some last => last.after
  | none => ∅

@[simp] theorem leftAt_nil (place : Place) : leftAt [] place = ∅ := rfl

theorem leftAt_concat_self (history : List Update) (u : Update) :
    leftAt (history ++ [u]) u.place = u.after := by
  simp [leftAt, List.filter_append]

theorem leftAt_concat_of_ne (history : List Update) {u : Update} {place : Place}
    (different : u.place ≠ place) : leftAt (history ++ [u]) place = leftAt history place := by
  simp [leftAt, List.filter_append, different]

/-- Whether each update of a history starts from what the history before it leaves at its
place, and grows. -/
def IsFaithful (history : List Update) : Prop :=
  ∀ earlier u later, history = earlier ++ u :: later →
    u.before = leftAt earlier u.place ∧ u.before ⊆ u.after ∧ ¬ u.after ⊆ u.before

theorem isFaithful_nil : IsFaithful [] := by
  intro earlier u later split
  simp at split

theorem IsFaithful.concat {history : List Update} (faithful : IsFaithful history) {u : Update}
    (before : u.before = leftAt history u.place) (subset : u.before ⊆ u.after)
    (new : ¬ u.after ⊆ u.before) : IsFaithful (history ++ [u]) := by
  intro earlier v later split
  rcases List.eq_nil_or_concat later with rfl | ⟨rest, last, rfl⟩
  · obtain ⟨rfl, same⟩ := List.append_inj' split rfl
    obtain rfl := List.singleton_inj.mp same
    exact ⟨before, subset, new⟩
  · rw [List.concat_eq_append, ← List.cons_append, ← List.append_assoc] at split
    exact faithful earlier v rest (List.append_inj' split rfl).1

namespace Setting

variable {σ : Type} {s : Setting}

/-! ## Places of cells -/

/-- The place of a cell. -/
def placeOf (s : Setting) (cell : Cell) : Place :=
  ⟨cell.field, s.functionOfCell cell, blockOfCell cell⟩

theorem place_update (s : Setting) (cell : Cell) (before after : Tables) :
    (s.update cell before after).place = s.placeOf cell := rfl

theorem placeOf_of_slot {cell : Cell} {slot : Nat} (ofSlot : cell.entity = .function slot) :
    s.placeOf cell =
      ⟨cell.field, functionOfSlot s.graph.functionCount slot, BlockId.absent⟩ := by
  obtain ⟨field, index⟩ := cell
  cases field <;> cases ofSlot <;> rfl

theorem placeOf_of_block (s : Setting) (cell : Cell) {b : Nat} (ofBlock : cell.entity = .block b)
    {block : Block} (found : s.block? b = some block) :
    s.placeOf cell = ⟨cell.field, block.function, Int.ofNat b⟩ := by
  obtain ⟨field, index⟩ := cell
  cases field <;> cases ofBlock <;>
    simp only [placeOf, functionOfCell, blockOfCell, found, Option.map_some, Option.getD_some]

/-- **Every cell with an equation has a place of its own.** -/
theorem placeOf_injective {cell other : Cell} (solved : cell.entity ∈ s.initialEntities)
    (otherSolved : other.entity ∈ s.initialEntities) (same : s.placeOf cell = s.placeOf other) :
    cell = other := by
  obtain ⟨field, index⟩ := cell
  obtain ⟨otherField, otherIndex⟩ := other
  obtain ⟨rfl, function, block⟩ := Place.mk.inj same
  have ofSlot : .function index ∈ s.initialEntities → .function otherIndex ∈ s.initialEntities →
      functionOfSlot s.graph.functionCount index = functionOfSlot s.graph.functionCount otherIndex →
      index = otherIndex := by
    intro isSlot isOther sameFunction
    have found := slotOf?_functionOfSlot (function_mem_initialEntities.mp isSlot)
    rw [sameFunction, slotOf?_functionOfSlot (function_mem_initialEntities.mp isOther)] at found
    exact (Option.some.inj found).symm
  have sameIndex : index = otherIndex := by
    cases field with
    | requiredIn => exact ofSlot solved otherSolved function
    | requiredOut => exact ofSlot solved otherSolved function
    | returnLive => exact ofSlot solved otherSolved function
    | liveIn => exact Int.ofNat.inj block
    | liveOut => exact Int.ofNat.inj block
  rw [sameIndex]

/-! ## The trace of a run -/

/-- What the trace of a run always satisfies. -/
structure Recorded (s : Setting) (progress : Progress σ) : Prop where
  counted : progress.updates = progress.trace.toList.length
  faithful : IsFaithful progress.trace.toList
  left : ∀ cell : Cell, cell.entity ∈ s.initialEntities →
    progress.tables.get cell = leftAt progress.trace.toList (s.placeOf cell)
  /-- Only cells with equations are reported, and what was reported is still there. -/
  placed : ∀ u ∈ progress.trace.toList, ∃ cell : Cell, cell.entity ∈ s.initialEntities ∧
    u.place = s.placeOf cell ∧ u.after ⊆ progress.tables.get cell

theorem recorded_start (s : Setting) (source : Source σ) (order : Order) (choices : σ) :
    s.Recorded (s.start source order choices) := by
  refine ⟨rfl, isFaithful_nil, ?_, ?_⟩
  · intro cell solved
    have empty := s.get_initialTables cell
    rwa [not_isOpaqueEntity solved] at empty
  · intro u member
    cases member

/-- **Growing a cell keeps the trace faithful.** -/
theorem Recorded.grow {cell : Cell} {before after : Progress σ} (recorded : s.Recorded before)
    (solved : cell.entity ∈ s.initialEntities) (grows : s.Grows cell before after) :
    s.Recorded after := by
  have trace : after.trace.toList =
      before.trace.toList ++ [s.update cell before.tables after.tables] := by
    rw [grows.trace, Array.toList_push]
  have larger : ∀ other, before.tables.get other ⊆ after.tables.get other := by
    intro other
    by_cases same : other = cell
    · rw [same]
      exact grows.subset
    · rw [grows.elsewhere other same]
      exact fun _ member => member
  refine ⟨?_, ?_, ?_, ?_⟩
  · rw [grows.updates, recorded.counted, trace, List.length_append, List.length_singleton]
  · rw [trace]
    exact recorded.faithful.concat (recorded.left cell solved) grows.subset grows.new
  · intro other otherSolved
    rw [trace]
    by_cases same : other = cell
    · rw [same, ← s.place_update cell before.tables after.tables, leftAt_concat_self]
      rfl
    · have elsewhere : (s.update cell before.tables after.tables).place ≠ s.placeOf other :=
        fun samePlace => same (placeOf_injective solved otherSolved samePlace).symm
      rw [grows.elsewhere other same, leftAt_concat_of_ne _ elsewhere]
      exact recorded.left other otherSolved
  · intro u member
    rw [trace, List.mem_append, List.mem_singleton] at member
    rcases member with earlier | rfl
    · obtain ⟨other, otherSolved, place, contained⟩ := recorded.placed u earlier
      exact ⟨other, otherSolved, place, fun k inSet => larger other k (contained k inSet)⟩
    · exact ⟨cell, solved, rfl, fun _ inSet => inSet⟩

end Setting

namespace Program

variable {σ : Type} {p : Program}

/-- The trace of the solver is a faithful history of its tables. -/
theorem WellFormed.recorded_solve (wf : p.WellFormed) (source : Source σ) (order : Order)
    (choices : σ) : p.setting.Recorded (p.setting.solve source order choices) := by
  obtain ⟨n, rounds⟩ := p.setting.exists_rounds_solve source order choices
  refine (wf.rounds_induction ?_ ?_ rounds ?_ (p.setting.recorded_start source order choices)).2
  · intro progress entity rest _ recorded
    exact ⟨recorded.counted, recorded.faithful, recorded.left, recorded.placed⟩
  · intro cell before after solved grows _ recorded
    exact recorded.grow solved grows
  · intro entity member
    exact Setting.mem_initialPending.mp member

end Program

namespace Result.IsSolved

variable {r : Result} {p : Program} (solved : r.IsSolved p)
include solved

/-- The sets of the function in a slot, read by its id. -/
theorem sets_functionOfSlot {slot : Nat} (bound : slot < p.functions.size + 2) :
    r.requiredIn? (functionOfSlot p.functions.size slot) = some (r.tables.get ⟨.requiredIn, slot⟩) ∧
      r.requiredOut? (functionOfSlot p.functions.size slot) =
        some (r.tables.get ⟨.requiredOut, slot⟩) ∧
      r.returnLive? (functionOfSlot p.functions.size slot) =
        some (r.tables.get ⟨.returnLive, slot⟩) := by
  have found := solved.covers.slot?_eq (functionOfSlot p.functions.size slot)
  rw [slotOf?_functionOfSlot bound] at found
  simp only [Result.requiredIn?, Result.requiredOut?, Result.returnLive?, found, Option.map_some,
    and_self]

/-- A block is solved for exactly when its function is not opaque. -/
theorem block_mem_initialEntities_iff {b : Nat} {block : Block}
    (found : p.block? (Int.ofNat b) = some block) :
    .block b ∈ p.setting.initialEntities ↔ r.isOpaque? block.function = some false := by
  obtain ⟨owner, _, names, bound, _⟩ := solved.wellFormed.exists_owner found
  rw [Setting.block_mem_initialEntities, Program.isOpaqueBlock_eq found, names,
    solved.isOpaque?_ofNat bound, Option.some.injEq]
  exact and_iff_right (Program.lt_of_block? found)

/-- A report about a cell with an equation names no block, or a block of a function that is
not opaque. -/
theorem block_of_place {u : Update} {cell : Cell}
    (cellSolved : cell.entity ∈ p.setting.initialEntities)
    (place : u.place = p.setting.placeOf cell) :
    u.block = BlockId.absent ∨ ∃ block, p.block? u.block = some block ∧
      block.function = u.function ∧ r.isOpaque? u.function = some false := by
  cases ofCell : cell.entity with
  | function slot =>
    rw [Setting.placeOf_of_slot ofCell] at place
    exact .inl (congrArg Place.block place)
  | block b =>
    rw [ofCell] at cellSolved
    obtain ⟨block, found, _⟩ := Program.exists_block_of_solved cellSolved
    rw [p.setting.placeOf_of_block cell ofCell found] at place
    have atBlock : u.block = Int.ofNat b := congrArg Place.block place
    have inFunction : u.function = block.function := congrArg Place.function place
    rw [atBlock, inFunction]
    exact .inr ⟨block, found, rfl, (solved.block_mem_initialEntities_iff found).mp cellSolved⟩

end Result.IsSolved

/-- **The trace is a faithful history.** In an analysis that was not skipped, with any
order and any choices, as many growths are reported as are counted. Each starts from the
set after the previous report about the same table, function and block, or from nothing,
and adds kinds of the enumeration. No block of an opaque function is reported. At the end,
the sets of every slot and of every block of a function that is not opaque are those after
their last reports, and empty where there was none. -/
theorem trace_faithful {σ : Type} {source : Source σ} {choices : σ} {config : Config}
    {p : Program} {r : Result} (analyzed : (p.analyzeWith source choices config).outcome = .ok r)
    (notSkipped : r.skipped = false) :
    r.stats.updates = r.trace.length ∧ IsFaithful r.trace ∧
      (∀ u ∈ r.trace, u.after ⊆ p.enumeration.all ∧
        (u.block = BlockId.absent ∨ ∃ block, p.block? u.block = some block ∧
          block.function = u.function ∧ r.isOpaque? u.function = some false)) ∧
      (∀ slot < p.functions.size + 2,
        let f := functionOfSlot p.functions.size slot
        r.requiredIn? f = some (leftAt r.trace ⟨.requiredIn, f, BlockId.absent⟩) ∧
          r.requiredOut? f = some (leftAt r.trace ⟨.requiredOut, f, BlockId.absent⟩) ∧
          r.returnLive? f = some (leftAt r.trace ⟨.returnLive, f, BlockId.absent⟩)) ∧
      ∀ b block, p.block? b = some block → r.isOpaque? block.function = some false →
        r.liveIn? b = some (leftAt r.trace ⟨.liveIn, block.function, b⟩) ∧
          r.liveOut? b = some (leftAt r.trace ⟨.liveOut, block.function, b⟩) := by
  have solved := Program.isSolved_of_outcome analyzed notSkipped
  obtain ⟨wf, ⟨_, rfl⟩ | ⟨_, isResult⟩⟩ := Program.outcome_cases analyzed
  · cases notSkipped
  have recorded := wf.recorded_solve source config.order choices
  have tables : r.tables = (p.setting.solve source config.order choices).tables := by
    rw [isResult]
    rfl
  have trace : r.trace = (p.setting.solve source config.order choices).trace.toList := by
    rw [isResult]
    rfl
  have left : ∀ cell : Cell, cell.entity ∈ p.setting.initialEntities →
      r.tables.get cell = leftAt r.trace (p.setting.placeOf cell) := by
    rw [tables, trace]
    exact recorded.left
  refine ⟨?_, trace ▸ recorded.faithful, ?_, ?_, ?_⟩
  · rw [trace, isResult]
    exact recorded.counted
  · intro u member
    rw [trace] at member
    obtain ⟨cell, cellSolved, place, contained⟩ := recorded.placed u member
    rw [← tables] at contained
    refine ⟨?_, ?_⟩
    · intro k inSet
      exact Program.mem_all_of_flows (solved.mem_get.mp (contained k inSet))
    · exact solved.block_of_place cellSolved place
  · intro slot bound
    have slotSolved := Setting.slot_mem_initialEntities bound
    obtain ⟨requiredIn, requiredOut, returnLive⟩ := solved.sets_functionOfSlot bound
    rw [left ⟨.requiredIn, slot⟩ slotSolved] at requiredIn
    rw [left ⟨.requiredOut, slot⟩ slotSolved] at requiredOut
    rw [left ⟨.returnLive, slot⟩ slotSolved] at returnLive
    exact ⟨requiredIn, requiredOut, returnLive⟩
  · intro b block found isOpen
    obtain ⟨b, rfl, _⟩ := entryAt?_eq_some_iff.mp found
    have blockSolved := (solved.block_mem_initialEntities_iff found).mpr isOpen
    rw [solved.covers.liveIn?_ofNat found, solved.covers.liveOut?_ofNat found,
      left ⟨.liveIn, b⟩ blockSolved, left ⟨.liveOut, b⟩ blockSolved,
      p.setting.placeOf_of_block ⟨.liveIn, b⟩ rfl found,
      p.setting.placeOf_of_block ⟨.liveOut, b⟩ rfl found]
    exact ⟨rfl, rfl⟩

/-- The trace of the sample program, visited newest first, tells that the worker raises a
kind in its first block. -/
theorem trace_faithful_sample :
    ∃ r, (sampleProgram.analyze { sampleConfig with order := .lifo }).outcome = .ok r ∧
      r.skipped = false ∧ r.stats.updates = r.trace.length ∧ IsFaithful r.trace ∧
      r.liveIn? 5 = some (leftAt r.trace ⟨.liveIn, 1, 5⟩) ∧ 0 ∈ leftAt r.trace ⟨.liveIn, 1, 5⟩ := by
  obtain ⟨r, analyzed, notSkipped⟩ : ∃ r,
      (sampleProgram.analyze { sampleConfig with order := .lifo }).outcome = .ok r ∧
        r.skipped = false := Program.exists_result rfl rfl rfl
  have solved := Program.isSolved_of_outcome analyzed notSkipped
  obtain ⟨counted, faithful, _, _, blocks⟩ := trace_faithful analyzed notSkipped
  have isOpen : r.isOpaque? (Int.ofNat 1) = some false := by
    rw [solved.isOpaque?_ofNat (by decide)]
    decide +kernel
  have live : r.liveIn? 5 = some (leftAt r.trace ⟨.liveIn, 1, 5⟩) := (blocks 5 _ rfl isOpen).1
  refine ⟨r, analyzed, notSkipped, counted, faithful, live, ?_⟩
  have found : sampleProgram.block? (Int.ofNat 5) = some _ := rfl
  have blockSolved := (solved.block_mem_initialEntities_iff found).mpr isOpen
  have used : sampleProgram.setting.Flows 0 ⟨.liveIn, 5⟩ :=
    .own blockSolved (by rw [Program.own_liveIn found]; decide)
  rw [← Option.some.inj ((solved.covers.liveIn?_ofNat found).symm.trans live)]
  exact solved.mem_get.mpr used

end CapLiveness
