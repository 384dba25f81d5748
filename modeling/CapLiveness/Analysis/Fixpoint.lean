import CapLiveness.Analysis.Equations
import CapLiveness.Analysis.Worklist

/-!
# Solving the equations

The solver visits pending entities until none is left. A visit evaluates the
equations of an entity and lets its cells grow to what they have to contain. When
a cell grows, the entities that read it become pending.

Every visit either leaves the tables and the pending entities alone, or uses up
room of the tables (`visit_cases`). So the solver ends, whichever pending entity
is taken next.
-/

set_option autoImplicit false

namespace CapLiveness

variable {σ : Type}

/-- The growth of one set. -/
structure Update where
  field : Field
  function : FunctionId
  block : BlockId
  before : CapSet
  after : CapSet
deriving DecidableEq

/-- How far the solver has come. -/
structure Progress (σ : Type) where
  tables : Tables
  pending : Worklist Entity σ
  visits : Nat
  updates : Nat
  trace : Array Update

namespace Setting

/-- The function that a cell belongs to. -/
def functionOfCell (s : Setting) (cell : Cell) : FunctionId :=
  match cell.field with
  | .requiredIn | .requiredOut | .returnLive => functionOfSlot s.graph.functionCount cell.index
  | .liveIn | .liveOut => ((s.block? cell.index).map (·.function)).getD FunctionId.callsExternal

/-- The block that a cell belongs to, if any. -/
def blockOfCell (cell : Cell) : BlockId :=
  match cell.field with
  | .requiredIn | .requiredOut | .returnLive => BlockId.absent
  | .liveIn | .liveOut => Int.ofNat cell.index

/-- The growth of a cell, from the tables before and after it. -/
def update (s : Setting) (cell : Cell) (before after : Tables) : Update :=
  ⟨cell.field, s.functionOfCell cell, blockOfCell cell, before.get cell, after.get cell⟩

/-- Lets a cell grow to contain a set, and makes its readers pending if it does. -/
def absorb (s : Setting) (progress : Progress σ) (demand : Cell × CapSet) : Progress σ :=
  match progress.tables.grow? demand.1 demand.2 with
  | none => progress
  | some tables =>
    { progress with
      tables := tables
      pending := progress.pending.pushAll (s.dependents demand.1)
      updates := progress.updates + 1
      trace := progress.trace.push (s.update demand.1 progress.tables tables) }

/-- Visits an entity: its cells grow to what its equations demand. -/
def visit (s : Setting) (progress : Progress σ) (entity : Entity) : Progress σ :=
  (s.transfer progress.tables entity).foldl s.absorb
    { progress with visits := progress.visits + 1 }

theorem absorb_cases (s : Setting) (progress : Progress σ) (demand : Cell × CapSet) :
    s.absorb progress demand = progress ∨
      (s.absorb progress demand).tables.room < progress.tables.room := by
  unfold absorb
  split
  · exact .inl rfl
  · rename_i grown
    exact .inr (Tables.room_lt_of_grow? grown)

theorem foldl_absorb_cases (s : Setting) (demands : List (Cell × CapSet))
    (progress : Progress σ) :
    demands.foldl s.absorb progress = progress ∨
      (demands.foldl s.absorb progress).tables.room < progress.tables.room := by
  induction demands generalizing progress with
  | nil => exact .inl rfl
  | cons first rest ih =>
    rw [List.foldl_cons]
    rcases absorb_cases s progress first with same | smaller
    · rw [same]
      exact ih progress
    · rcases ih (s.absorb progress first) with same | smallerStill
      · rw [same]
        exact .inr smaller
      · exact .inr (Nat.lt_trans smallerStill smaller)

/-- **A visit leaves the pending entities and the tables alone, or uses up room.** -/
theorem visit_cases (s : Setting) (progress : Progress σ) (entity : Entity) :
    ((s.visit progress entity).pending = progress.pending ∧
        (s.visit progress entity).tables = progress.tables) ∨
      (s.visit progress entity).tables.room < progress.tables.room := by
  unfold visit
  rcases foldl_absorb_cases s (s.transfer progress.tables entity)
    { progress with visits := progress.visits + 1 } with same | smaller
  · rw [same]
    exact .inl ⟨rfl, rfl⟩
  · exact .inr smaller

/-- Visits pending entities until none is left. -/
def run (s : Setting) (source : Source σ) (progress : Progress σ) : Progress σ :=
  match taken : progress.pending.pop source with
  | none => progress
  | some (entity, rest) =>
    have : rest.items.length < progress.pending.items.length := by
      have shorter := Worklist.length_of_pop taken
      omega
    s.run source (s.visit { progress with pending := rest } entity)
termination_by (progress.tables.room, progress.pending.items.length)
decreasing_by
  rcases visit_cases s { progress with pending := rest } entity with ⟨pending, tables⟩ | smaller
  · rw [pending, tables]
    exact Prod.Lex.right _ (by assumption)
  · exact Prod.Lex.left _ _ smaller

/-! ## The start -/

/-- The entities that are pending at the start: the blocks of functions that are
not opaque, the last first, then the functions, the last slot first. -/
def initialEntities (s : Setting) : List Entity :=
  ((List.range s.program.blocks.size).reverse.filter (!s.isOpaqueBlock ·)).map .block ++
    (List.range s.graph.slotCount).reverse.map .function

/-- The tables at the start: all is live in the blocks of opaque functions, and
everything else is empty. -/
def initialTables (s : Setting) : Tables :=
  let blocks := s.program.blocks.map fun b =>
    if s.uses.isOpaque b.function.toNat then s.program.enumeration.all else ∅
  { Tables.empty s.graph.slotCount s.program.blocks.size with liveIn := blocks, liveOut := blocks }

/-- The worklist at the start, in random order if the order is random. -/
def initialPending (s : Setting) (source : Source σ) (order : Order) (choices : σ) :
    Worklist Entity σ :=
  let pending : Worklist Entity σ := (Worklist.start order choices).pushAll s.initialEntities
  if order = .random then pending.shuffle source else pending

/-- Solves the equations. -/
def solve (s : Setting) (source : Source σ) (order : Order) (choices : σ) : Progress σ :=
  s.run source ⟨s.initialTables, s.initialPending source order choices, 0, 0, #[]⟩

end Setting

end CapLiveness
