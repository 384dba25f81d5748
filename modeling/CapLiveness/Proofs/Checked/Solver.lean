import CapLiveness.Proofs.Checked.Equations
import CapLiveness.Proofs.Checked.Numbering
import CapLiveness.Proofs.Rounds

/-!
# The solver, with checked lookups

The solver as it runs, where the worklist, the tables and the program are read by lookups
that may fail, and what is pending is kept as numbers (`Entity.number`). A failing lookup ends
the run without a result. Like the solver, the checked one uses up room of the tables, so it
always ends.

A state with numbers stands for one with entities (`Stands`). From a start that fits, every
visit finds what it looks up, and what it leaves stands for what the visit of the entity
leaves (`exists_visit`). So the checked solver has a result, and it stands for that of the
solver (`exists_solve`). The only thing needed of the source of choices is that it keeps to
its bounds (`Source.IsBounded`), as the generator does (`Generator.isBounded_source`).
-/

set_option autoImplicit false

namespace CapLiveness

/-! ## Choices -/

/-- A source that keeps to its bounds. -/
structure Source.IsBounded {σ : Type} (source : Source σ) : Prop where
  below_lt : ∀ (bound : Nat) (choices : σ), 0 < bound → (source.below bound choices).1 < bound
  swaps_lt : ∀ (count : Nat) (choices : σ), ∀ pair ∈ (source.swaps count choices).1,
    pair.1 < count ∧ pair.2 < count

namespace Generator

theorem mul_div_words_lt (word : UInt64) {bound : Nat} (positive : 0 < bound) :
    word.toNat * bound / words < bound := by
  have inRange : word.toNat < words := word.toNat_lt
  rw [Nat.div_lt_iff_lt_mul (by decide), Nat.mul_comm bound]
  exact Nat.mul_lt_mul_of_pos_right inRange positive

theorem redraw_lt {bound : Nat} (positive : 0 < bound) (limit tries : Nat)
    (drawn : UInt64 × Generator) : (redraw bound limit tries drawn).1 < bound := by
  induction tries generalizing drawn with
  | zero => exact mul_div_words_lt drawn.1 positive
  | succ tries ih =>
    rw [redraw]
    split
    · exact ih _
    · exact mul_div_words_lt drawn.1 positive

theorem below_lt {bound : Nat} (positive : 0 < bound) (g : Generator) :
    (below bound g).1 < bound := by
  rw [below]
  split
  · exact Nat.mod_lt _ positive
  · exact redraw_lt positive _ _ _

theorem swapsFrom_lt (i : Nat) (g : Generator) :
    ∀ pair ∈ (swapsFrom i g).1, pair.1 < i + 1 ∧ pair.2 < i + 1 := by
  induction i generalizing g with
  | zero => simp [swapsFrom]
  | succ i ih =>
    intro pair member
    rcases List.mem_cons.mp member with rfl | later
    · exact ⟨Nat.lt_succ_self _, below_lt (Nat.zero_lt_succ _) g⟩
    · obtain ⟨left, right⟩ := ih _ pair later
      omega

/-- The generator keeps to its bounds. -/
theorem isBounded_source : source.IsBounded where
  below_lt _ g positive := below_lt positive g
  swaps_lt count g pair member := by
    cases count with
    | zero => exact absurd member List.not_mem_nil
    | succ i => exact swapsFrom_lt i g pair member

end Generator

namespace Checked

/-! ## Worklists -/

section Worklists

variable {α σ : Type}

/-- Takes the next entity, which must be there. -/
def take [DecidableEq α] (source : Source σ) (a : Agenda α σ) : Option (α × Agenda α σ) :=
  match a.schedule with
  | .newest => do
    let last ← a.items[a.items.length - 1]?
    some (last, ⟨.newest, a.items.dropLast, a.queued.remove last⟩)
  | .drawn choices => do
    let drawn := source.below a.items.length choices
    let chosen ← a.items[drawn.1]?
    let last ← a.items[a.items.length - 1]?
    some (chosen, ⟨.drawn drawn.2, Agenda.moveLast a.items drawn.1 last, a.queued.remove chosen⟩)
  | .oldest => do
    let first ← a.items[0]?
    some (first, ⟨.oldest, a.items.tail, a.queued.remove first⟩)

/-- A list with two entries exchanged. -/
def swap (items : List α) (i j : Nat) : Option (List α) := do
  let x ← items[i]?
  let y ← items[j]?
  some ((items.set i y).set j x)

/-- A list with entries exchanged, pair after pair. -/
def swapAll (items : List α) (pairs : List (Nat × Nat)) : Option (List α) :=
  pairs.foldlM (fun items pair => swap items pair.1 pair.2) items

/-- Puts the pending entities into an order of the source's choice. Without choices
there is nothing to draw from, which matters as soon as there are two entities. -/
def mix (source : Source σ) (a : Agenda α σ) : Option (Agenda α σ) :=
  match a.schedule with
  | .oldest | .newest => if a.items.length < 2 then some a else none
  | .drawn choices => do
    let drawn := source.swaps a.items.length choices
    let items ← swapAll a.items drawn.1
    some { a with schedule := .drawn drawn.2, items := items }

theorem getElem?_length_sub_one (first : α) (rest : List α) :
    (first :: rest)[(first :: rest).length - 1]? =
      some ((first :: rest).getLast (List.cons_ne_nil first rest)) := by
  rw [← List.getLast?_eq_getElem?, List.getLast?_eq_some_getLast]

/-- Where the lookups succeed, the next entity is taken. -/
theorem pop_of_take [DecidableEq α] {source : Source σ} {a : Agenda α σ} {taken : α × Agenda α σ}
    (found : take source a = some taken) : a.pop source = some taken := by
  obtain ⟨schedule, items, queued⟩ := a
  cases items with
  | nil => cases schedule <;> simp [take] at found
  | cons first rest =>
    cases schedule with
    | oldest => exact found
    | newest =>
      simp only [take, getElem?_length_sub_one, Option.bind_eq_bind, Option.bind_some] at found
      exact found
    | drawn choices =>
      simp only [take, getElem?_length_sub_one, Option.bind_eq_bind, Option.bind_some,
        Option.bind_eq_some_iff] at found
      obtain ⟨chosen, drawn, found⟩ := found
      rw [← found]
      simp only [Agenda.pop, Agenda.next, drawn, Option.getD_some]

/-- The lookups succeed when there is something to take. -/
theorem take_eq_pop [DecidableEq α] {source : Source σ} (bounded : source.IsBounded)
    (a : Agenda α σ) : take source a = a.pop source := by
  cases found : take source a with
  | some taken => exact (pop_of_take found).symm
  | none =>
    obtain ⟨schedule, items, queued⟩ := a
    cases items with
    | nil => rfl
    | cons first rest =>
      cases schedule with
      | oldest => simp [take] at found
      | newest =>
        simp only [take, getElem?_length_sub_one, Option.bind_eq_bind, Option.bind_some] at found
        cases found
      | drawn choices =>
        have chosen := List.getElem?_eq_getElem
          (bounded.below_lt (first :: rest).length choices (Nat.zero_lt_succ _))
        simp only [take, getElem?_length_sub_one, chosen, Option.bind_eq_bind,
          Option.bind_some] at found
        cases found

theorem swap_eq_some {items : List α} {i j : Nat} (boundI : i < items.length)
    (boundJ : j < items.length) : swap items i j = some (Agenda.swap items i j) := by
  simp [swap, Agenda.swap, List.getElem?_eq_getElem boundI, List.getElem?_eq_getElem boundJ]

theorem eq_swap_of_some {items swapped : List α} {i j : Nat}
    (found : swap items i j = some swapped) : swapped = Agenda.swap items i j := by
  simp only [swap, Option.bind_eq_bind, Option.bind_eq_some_iff, Option.some.injEq] at found
  obtain ⟨x, atI, y, atJ, rfl⟩ := found
  simp [Agenda.swap, atI, atJ]

theorem eq_swapAll_of_some {items swapped : List α} {pairs : List (Nat × Nat)}
    (found : swapAll items pairs = some swapped) : swapped = Agenda.swapAll items pairs := by
  induction pairs generalizing items with
  | nil => exact (Option.some.inj found).symm
  | cons pair later ih =>
    simp only [swapAll, List.foldlM_cons, Option.bind_eq_bind, Option.bind_eq_some_iff] at found
    obtain ⟨next, first, others⟩ := found
    rw [ih others, eq_swap_of_some first]
    rfl

theorem swapAll_eq_some {items : List α} {pairs : List (Nat × Nat)}
    (inside : ∀ pair ∈ pairs, pair.1 < items.length ∧ pair.2 < items.length) :
    swapAll items pairs = some (Agenda.swapAll items pairs) := by
  induction pairs generalizing items with
  | nil => rfl
  | cons pair later ih =>
    obtain ⟨left, right⟩ := inside pair List.mem_cons_self
    rw [swapAll, List.foldlM_cons, swap_eq_some left right]
    refine ih fun other member => ?_
    rw [(Agenda.swap_perm items _ _).length_eq]
    exact inside other (List.mem_cons_of_mem _ member)

theorem eq_shuffle_of_mix {source : Source σ} {a mixed : Agenda α σ}
    (found : mix source a = some mixed) : mixed = a.shuffle source := by
  obtain ⟨schedule, items, queued⟩ := a
  cases schedule with
  | oldest | newest =>
    simp only [mix, Option.ite_none_right_eq_some, Option.some.injEq] at found
    exact found.2.symm
  | drawn choices =>
    simp only [mix, Option.bind_eq_bind, Option.bind_eq_some_iff, Option.some.injEq] at found
    obtain ⟨swapped, exchanged, rfl⟩ := found
    rw [eq_swapAll_of_some exchanged]
    rfl

/-- Takes the next entity, which must be there. -/
def pop [DecidableEq α] (source : Source σ) (w : Worklist α σ) : Option (α × Worklist α σ) :=
  match found : take source w.toAgenda with
  | none => none
  | some (x, rest) => some (x, ⟨rest, w.consistent.pop (pop_of_take found)⟩)

/-- Puts the pending entities into an order of the source's choice. -/
def shuffle (source : Source σ) (w : Worklist α σ) : Option (Worklist α σ) :=
  match found : mix source w.toAgenda with
  | none => none
  | some mixed => some ⟨mixed, eq_shuffle_of_mix found ▸ w.consistent.shuffle source⟩

theorem length_of_pop [DecidableEq α] {source : Source σ} {w rest : Worklist α σ} {x : α}
    (taken : pop source w = some (x, rest)) : rest.items.length + 1 = w.items.length := by
  unfold pop at taken
  split at taken
  case h_1 => cases taken
  case h_2 found =>
    cases taken
    exact (Agenda.perm_of_pop (pop_of_take found)).length_eq.symm

theorem pop_eq [DecidableEq α] {source : Source σ} (bounded : source.IsBounded)
    (w : Worklist α σ) : pop source w = w.pop source := by
  have same := take_eq_pop bounded w.toAgenda
  unfold pop Worklist.pop
  split <;> split <;> simp_all

/-- A list that is drawn from can be shuffled. -/
theorem shuffle_eq_some {source : Source σ} (bounded : source.IsBounded) {w : Worklist α σ}
    {choices : σ} (drawn : w.schedule = .drawn choices) :
    shuffle source w = some (w.shuffle source) := by
  have mixed : mix source w.toAgenda = some (w.toAgenda.shuffle source) := by
    rw [mix, Agenda.shuffle, drawn]
    simp only
    rw [swapAll_eq_some (bounded.swaps_lt w.items.length choices)]
    rfl
  unfold shuffle
  split <;> simp_all [Worklist.shuffle]

end Worklists

/-! ## Visits -/

variable {σ : Type}

/-- The function that a cell belongs to. -/
def functionOfCell (s : Setting) (cell : Cell) : Option FunctionId :=
  match cell.field with
  | .requiredIn | .requiredOut | .returnLive =>
    some (functionOfSlot s.graph.functionCount cell.index)
  | .liveIn | .liveOut => (s.block? cell.index).map (·.function)

/-- How far the solver has come, with numbers for what is pending. -/
structure State (σ : Type) where
  tables : Tables
  pending : Worklist Nat σ
  visits : Nat
  updates : Nat
  trace : Array Update

/-- Lets a cell grow to contain a set, and makes the numbers of its readers pending if it
does. -/
def absorb (s : Setting) (state : State σ) (demand : Cell × CapSet) : Option (State σ) := do
  let before ← read state.tables demand.1
  let function ← functionOfCell s demand.1
  match state.tables.grow? demand.1 demand.2 with
  | none => some state
  | some tables =>
    (dependents s demand.1).map fun readers =>
      { tables := tables
        pending := state.pending.pushAll (readers.map (Entity.number s.graph.slotCount))
        visits := state.visits
        updates := state.updates + 1
        trace := state.trace.push
          ⟨demand.1.field, function, Setting.blockOfCell demand.1, before, tables.get demand.1⟩ }

/-- Visits the entity of a number: its cells grow to what its equations demand. -/
def visit (s : Setting) (state : State σ) (n : Nat) : Option (State σ) := do
  let demands ← transfer s state.tables (Entity.ofNumber s.graph.slotCount n)
  demands.foldlM (absorb s) { state with visits := state.visits + 1 }

variable {s : Setting}

theorem absorb_cases {state next : State σ} {demand : Cell × CapSet}
    (absorbed : absorb s state demand = some next) :
    next = state ∨ next.tables.room < state.tables.room := by
  simp only [absorb, Option.bind_eq_bind, Option.bind_eq_some_iff] at absorbed
  obtain ⟨_, _, _, _, absorbed⟩ := absorbed
  split at absorbed
  case h_1 => exact .inl (Option.some.inj absorbed).symm
  case h_2 grown =>
    obtain ⟨_, _, rfl⟩ := Option.map_eq_some_iff.mp absorbed
    exact .inr (Tables.room_lt_of_grow? grown)

theorem absorbAll_cases {demands : List (Cell × CapSet)} {state next : State σ}
    (absorbed : demands.foldlM (absorb s) state = some next) :
    next = state ∨ next.tables.room < state.tables.room := by
  induction demands generalizing state with
  | nil => exact .inl (Option.some.inj absorbed).symm
  | cons first rest ih =>
    simp only [List.foldlM_cons, Option.bind_eq_bind, Option.bind_eq_some_iff] at absorbed
    obtain ⟨now, absorbedFirst, absorbedRest⟩ := absorbed
    rcases absorb_cases absorbedFirst with rfl | smaller
    · exact ih absorbedRest
    · rcases ih absorbedRest with rfl | smallerStill
      · exact .inr smaller
      · exact .inr (Nat.lt_trans smallerStill smaller)

/-- A visit leaves the pending numbers and the tables alone, or uses up room. -/
theorem visit_cases {state next : State σ} {n : Nat} (visited : visit s state n = some next) :
    (next.pending = state.pending ∧ next.tables = state.tables) ∨
      next.tables.room < state.tables.room := by
  simp only [visit, Option.bind_eq_bind, Option.bind_eq_some_iff] at visited
  obtain ⟨_, _, absorbed⟩ := visited
  rcases absorbAll_cases absorbed with rfl | smaller
  · exact .inl ⟨rfl, rfl⟩
  · exact .inr smaller

theorem lex_of_visit {source : Source σ} {state next : State σ} {n : Nat} {rest : Worklist Nat σ}
    (taken : pop source state.pending = some (n, rest))
    (visited : visit s { state with pending := rest } n = some next) :
    Prod.Lex (· < ·) (· < ·) (next.tables.room, next.pending.items.length)
      (state.tables.room, state.pending.items.length) := by
  have shorter : rest.items.length < state.pending.items.length := by
    rw [← length_of_pop taken]
    exact Nat.lt_succ_self _
  rcases visit_cases visited with ⟨pending, tables⟩ | smaller
  · rw [pending, tables]
    exact Prod.Lex.right _ shorter
  · exact Prod.Lex.left _ _ smaller

/-- Visits pending numbers until none is left. -/
def run (s : Setting) (source : Source σ) (state : State σ) : Option (State σ) :=
  if state.pending.items.isEmpty then some state
  else
    match taken : pop source state.pending with
    | none => none
    | some (n, rest) =>
      match visited : visit s { state with pending := rest } n with
      | none => none
      | some next =>
        have := lex_of_visit taken visited
        run s source next
termination_by (state.tables.room, state.pending.items.length)
decreasing_by exact this

/-! ## Numbers stand for entities -/

/-- Whether a state stands for how far the solver has come: all is the same, but for the numbers
of the pending entities. -/
structure Stands (s : Setting) (state : State σ) (progress : Progress σ) : Prop where
  tables : state.tables = progress.tables
  pending : state.pending.Codes (Entity.number s.graph.slotCount) progress.pending
  visits : state.visits = progress.visits
  updates : state.updates = progress.updates
  trace : state.trace = progress.trace

/-- Entities with equations are slots and blocks of the program. -/
theorem hasEntity_of_mem_initialEntities {entity : Entity} (solved : entity ∈ s.initialEntities) :
    HasEntity s entity := by
  cases entity with
  | function slot => exact Setting.function_mem_initialEntities.mp solved
  | block b => exact (Setting.block_mem_initialEntities.mp solved).1

theorem HasEntity.hasSlot {entity : Entity} (has : HasEntity s entity) :
    entity.HasSlot s.graph.slotCount := by
  cases entity with
  | function slot => exact has
  | block b => trivial

/-- Entities with equations have different numbers. -/
theorem number_inj_initialEntities (first second : Entity) (isFirst : first ∈ s.initialEntities)
    (isSecond : second ∈ s.initialEntities)
    (same : first.number s.graph.slotCount = second.number s.graph.slotCount) : first = second :=
  Entity.number_inj (hasEntity_of_mem_initialEntities isFirst).hasSlot
    (hasEntity_of_mem_initialEntities isSecond).hasSlot same

theorem functionOfCell_eq_some (cell : Cell) (has : HasEntity s cell.entity) :
    functionOfCell s cell = some (s.functionOfCell cell) := by
  obtain ⟨field, index⟩ := cell
  have found (bound : index < s.program.blocks.size) :
      s.block? index = some s.program.blocks[index] := Array.getElem?_eq_getElem bound
  cases field with
  | requiredIn | requiredOut | returnLive => rfl
  | liveIn | liveOut =>
    simp only [functionOfCell, Setting.functionOfCell, found has, Option.map_some, Option.getD_some]

variable {p : Program}

theorem fits_setting (wf : p.WellFormed) : Fits p.setting := by
  refine ⟨wf, rfl, Graph.size_externalSlots p, ?_, ?_, ?_⟩ <;>
    simp [Program.setting, Uses.ofProgram, Graph.ofProgram, Graph.slotCount]

/-- What the checked solver relies on: tables with a set for each slot and block, and pending
entities with equations. -/
structure Ready (s : Setting) (progress : Progress σ) : Prop where
  sized : Sized s progress.tables
  pending : ∀ entity ∈ progress.pending.items, entity ∈ s.initialEntities

/-- **A cell grows without a failing lookup,** and the numbers of its readers become pending. -/
theorem exists_absorb (wf : p.WellFormed) {state : State σ} {progress : Progress σ}
    (stands : Stands p.setting state progress) (ready : Ready p.setting progress)
    {demand : Cell × CapSet} (solved : demand.1.entity ∈ p.setting.initialEntities) :
    ∃ next, absorb p.setting state demand = some next ∧
      Stands p.setting next (p.setting.absorb progress demand) ∧
      Ready p.setting (p.setting.absorb progress demand) := by
  have has := hasEntity_of_mem_initialEntities solved
  have before := read_eq_some ready.sized demand.1 has
  rw [← stands.tables] at before
  rw [absorb, Setting.absorb, before, functionOfCell_eq_some _ has]
  simp only [Option.bind_eq_bind, Option.bind_some, stands.tables]
  rcases progress.tables.grow?_cases demand.1 demand.2 with
    ⟨unchanged, _⟩ | ⟨grown, changed, _, _, sizes⟩
  · rw [unchanged]
    exact ⟨state, rfl, stands, ready⟩
  · rw [changed, (fits_setting wf).dependents_eq_some has]
    have readers : ∀ entity ∈ p.setting.dependents demand.1, entity ∈ p.setting.initialEntities :=
      fun entity reader => wf.dependents_subset_initialEntities solved reader
    refine ⟨_, rfl, ⟨rfl, ?_, stands.visits, congrArg (· + 1) stands.updates, ?_⟩,
      fun field => (sizes field).trans (ready.sized field), ?_⟩
    · exact stands.pending.pushAll number_inj_initialEntities ready.pending readers
    · show state.trace.push _ = progress.trace.push _
      rw [stands.trace]
      rfl
    · intro entity member
      rcases Worklist.mem_pushAll.mp member with earlier | reader
      · exact ready.pending entity earlier
      · exact readers entity reader

theorem exists_absorbAll (wf : p.WellFormed) {demands : List (Cell × CapSet)}
    (solved : ∀ demand ∈ demands, demand.1.entity ∈ p.setting.initialEntities)
    {state : State σ} {progress : Progress σ} (stands : Stands p.setting state progress)
    (ready : Ready p.setting progress) :
    ∃ next, demands.foldlM (absorb p.setting) state = some next ∧
      Stands p.setting next (demands.foldl p.setting.absorb progress) := by
  induction demands generalizing state progress with
  | nil => exact ⟨state, rfl, stands⟩
  | cons first rest ih =>
    obtain ⟨solvedHere, solvedRest⟩ := List.forall_mem_cons.mp solved
    obtain ⟨now, absorbed, standsNow, readyNow⟩ := exists_absorb wf stands ready solvedHere
    rw [List.foldlM_cons, absorbed, List.foldl_cons]
    exact ih solvedRest standsNow readyNow

/-- **An entity is visited by its number without a failing lookup.** -/
theorem exists_visit (wf : p.WellFormed) {state : State σ} {progress : Progress σ}
    (stands : Stands p.setting state progress) (ready : Ready p.setting progress)
    {entity : Entity} (solved : entity ∈ p.setting.initialEntities) :
    ∃ next, visit p.setting state (entity.number p.setting.graph.slotCount) = some next ∧
      Stands p.setting next (p.setting.visit progress entity) := by
  have has := hasEntity_of_mem_initialEntities solved
  have counted : Stands p.setting { state with visits := state.visits + 1 }
      { progress with visits := progress.visits + 1 } :=
    ⟨stands.tables, stands.pending, congrArg (· + 1) stands.visits, stands.updates, stands.trace⟩
  have demands : transfer p.setting state.tables entity =
      some (p.setting.transfer progress.tables entity) := by
    rw [stands.tables]
    exact (fits_setting wf).transfer_eq_some ready.sized has
  rw [visit, Entity.ofNumber_number has.hasSlot, demands, Option.bind_eq_bind, Option.bind_some]
  refine exists_absorbAll wf ?_ counted ⟨ready.sized, ready.pending⟩
  intro demand member
  rwa [Setting.entity_of_mem_transfer member]

/-- **The loop finds what it looks up and ends.** -/
theorem exists_run (wf : p.WellFormed) {source : Source σ} (bounded : source.IsBounded)
    {state : State σ} {progress : Progress σ} (stands : Stands p.setting state progress)
    (invariant : p.setting.Invariant progress) :
    ∃ final, run p.setting source state = some final ∧
      Stands p.setting final (p.setting.run source progress) := by
  fun_induction Setting.run p.setting source progress generalizing state with
  | case1 progress taken =>
    have empty : state.pending.items = [] := by
      rw [stands.pending.items, Worklist.pop_eq_none_iff.mp taken]
      rfl
    rw [run, if_pos (List.isEmpty_iff.mpr empty)]
    exact ⟨state, rfl, stands⟩
  | case2 progress entity rest taken shorter ih =>
    have perm := Worklist.perm_of_pop taken
    have solved := invariant.pending entity (perm.mem_iff.mpr List.mem_cons_self)
    obtain ⟨others, takenNumber, codes⟩ := stands.pending.pop taken
    have standsRest : Stands p.setting { state with pending := others }
        { progress with pending := rest } :=
      ⟨stands.tables, codes, stands.visits, stands.updates, stands.trace⟩
    have ready : Ready p.setting { progress with pending := rest } :=
      ⟨invariant.sized, fun other later =>
        invariant.pending other (perm.mem_iff.mpr (List.mem_cons_of_mem _ later))⟩
    obtain ⟨next, visited, standsNext⟩ := exists_visit wf standsRest ready solved
    have nonempty : ¬ state.pending.items.isEmpty = true := by
      rw [List.isEmpty_iff, ← Worklist.pop_eq_none_iff, takenNumber]
      exact Option.some_ne_none _
    rw [run, if_neg nonempty]
    split
    case h_1 failed =>
      rw [pop_eq bounded, takenNumber] at failed
      cases failed
    case h_2 found =>
      rw [pop_eq bounded, takenNumber] at found
      cases found
      split
      case h_1 failed =>
        rw [visited] at failed
        cases failed
      case h_2 found =>
        rw [visited] at found
        cases found
        exact ih standsNext (wf.invariant_take invariant perm)

/-! ## The start -/

/-- The entities that are pending at the start. -/
def initialEntities (s : Setting) : Option (List Entity) := do
  let blocks ← filter (fun b => (isOpaqueBlock s b).map (!·))
    (List.range s.program.blocks.size).reverse
  some (blocks.map .block ++ (List.range s.graph.slotCount).reverse.map .function)

/-- What is live at the ends of the blocks at the start: everything in the blocks that an
opaque function lists, and nothing elsewhere. -/
def initialBlocks (s : Setting) : Option (Array CapSet) := do
  let functions ← filter (fun entry => s.uses.opaqueSlots[entry.2]?)
    s.program.functions.toList.zipIdx
  (functions.flatMap fun entry => entry.1.blocks.map (·, s.program.enumeration.all)).foldlM write
    (Array.replicate s.program.blocks.size ∅)

/-- The tables at the start. -/
def initialTables (s : Setting) : Option Tables := do
  let liveIn ← initialBlocks s
  let liveOut ← initialBlocks s
  some { Tables.empty s.graph.slotCount s.program.blocks.size with
    liveIn := liveIn, liveOut := liveOut }

/-- The worklist at the start. -/
def initialPending (s : Setting) (source : Source σ) (order : Order) (choices : σ) :
    Option (Worklist Nat σ) := do
  let entities ← initialEntities s
  let pending := (Worklist.start order choices).pushAll
    (entities.map (Entity.number s.graph.slotCount))
  if order = .random then shuffle source pending else some pending

/-- Solves the equations. -/
def solve (s : Setting) (source : Source σ) (order : Order) (choices : σ) :
    Option (State σ) := do
  let tables ← initialTables s
  let pending ← initialPending s source order choices
  run s source ⟨tables, pending, 0, 0, #[]⟩

theorem initialEntities_eq_some (fits : Fits s) : initialEntities s = some s.initialEntities := by
  have blocks : filter (fun b => (isOpaqueBlock s b).map (!·))
      (List.range s.program.blocks.size).reverse =
        some ((List.range s.program.blocks.size).reverse.filter (!s.isOpaqueBlock ·)) := by
    refine filter_eq_some ?_
    intro b member
    rw [List.mem_reverse, List.mem_range] at member
    rw [fits.isOpaqueBlock member, Option.map_some]
  rw [initialEntities, blocks]
  rfl

theorem initialBlocks_eq_some (fits : Fits s) :
    initialBlocks s = some (s.program.blocks.map fun b =>
      if s.uses.isOpaque b.function.toNat then s.program.enumeration.all else ∅) := by
  have functions : filter (fun entry => s.uses.opaqueSlots[entry.2]?)
      s.program.functions.toList.zipIdx =
        some (s.program.functions.toList.zipIdx.filter fun entry => s.uses.isOpaque entry.2) := by
    refine filter_eq_some ?_
    rintro ⟨function, i⟩ member
    refine fits.isOpaqueSlot ?_
    have bound := Program.lt_of_function? (Program.mem_zipIdx_toList_iff.mp member)
    rw [fits.slotCount]
    exact Nat.lt_add_right 2 bound
  rw [initialBlocks, functions, Option.bind_eq_bind, Option.bind_some]
  refine writes_blocks _ ?_ ?_
  · intro entry member
    obtain ⟨⟨function, i⟩, kept, blocks⟩ := List.mem_flatMap.mp member
    obtain ⟨b, listed, rfl⟩ := List.mem_map.mp blocks
    obtain ⟨inside, givenUp⟩ := List.mem_filter.mp kept
    obtain ⟨block, found, owner⟩ := fits.wellFormed.exists_listed (f := Int.ofNat i)
      (Program.mem_zipIdx_toList_iff.mp inside) listed
    refine ⟨block, found, if_pos ?_⟩
    rw [owner]
    exact givenUp
  · intro b block found differs
    obtain ⟨i, function, owner, _, foundOwner⟩ := fits.exists_owner found
    have givenUp : s.uses.isOpaque block.function.toNat = true := by
      by_contra isOpen
      exact differs (if_neg isOpen)
    have listed := (fits.wellFormed.listed_iff (f := Int.ofNat i) foundOwner found).mpr owner
    rw [owner] at givenUp
    exact ⟨_, List.mem_flatMap.mpr ⟨(function, i), List.mem_filter.mpr
      ⟨Program.mem_zipIdx_toList_iff.mpr foundOwner, givenUp⟩, List.mem_map_of_mem listed⟩, rfl⟩

theorem initialTables_eq_some (fits : Fits s) : initialTables s = some s.initialTables := by
  rw [initialTables, initialBlocks_eq_some fits]
  rfl

theorem exists_initialPending (fits : Fits s) {source : Source σ} (bounded : source.IsBounded)
    (order : Order) (choices : σ) :
    ∃ pending, initialPending s source order choices = some pending ∧
      pending.Codes (Entity.number s.graph.slotCount) (s.initialPending source order choices) := by
  have pushed : ((Worklist.start order choices).pushAll
      (s.initialEntities.map (Entity.number s.graph.slotCount))).Codes
        (Entity.number s.graph.slotCount)
        ((Worklist.start order choices).pushAll s.initialEntities) :=
    (Worklist.Codes.start order choices).pushAll number_inj_initialEntities
      (fun _ member => absurd member List.not_mem_nil) (fun _ member => member)
  rw [initialPending, Setting.initialPending, initialEntities_eq_some fits, Option.bind_eq_bind,
    Option.bind_some]
  split
  case isTrue random =>
    have drawn : ((Worklist.start order choices).pushAll
        (s.initialEntities.map (Entity.number s.graph.slotCount))).schedule = .drawn choices := by
      rw [Worklist.schedule_pushAll, random]
      rfl
    exact ⟨_, shuffle_eq_some bounded drawn, pushed.shuffle source⟩
  case isFalse => exact ⟨_, rfl, pushed⟩

/-- **The equations of a well-formed program are solved without a failing lookup.** -/
theorem exists_solve (wf : p.WellFormed) {source : Source σ} (bounded : source.IsBounded)
    (order : Order) (choices : σ) :
    ∃ solved, solve p.setting source order choices = some solved ∧
      Stands p.setting solved (p.setting.solve source order choices) := by
  have fits := fits_setting wf
  obtain ⟨pending, found, codes⟩ := exists_initialPending fits bounded order choices
  rw [solve, initialTables_eq_some fits, found]
  exact exists_run wf bounded ⟨rfl, codes, rfl, rfl, rfl⟩
    (p.setting.invariant_initial source order choices)

end Checked

end CapLiveness
