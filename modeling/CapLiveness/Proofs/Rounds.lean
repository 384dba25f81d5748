import CapLiveness.Proofs.Solved
import Mathlib.Algebra.Order.BigOperators.Group.List
import Mathlib.Algebra.Order.Ring.Nat
import Mathlib.Data.List.Perm.Subperm

/-!
# The solver stops

The loop of the solver takes a pending entity and visits it, as long as there is one. A
round is one turn of that loop, in which any pending entity may be taken (`Round`), and
a run is a number of rounds (`Rounds`). The solver makes one of these runs, whatever its
order and its source of choices (`exists_rounds_solve`).

A visit lets cells grow, one after the other, and says once what growing does (`Grows`).
So an invariant of runs needs to be checked where an entity is taken and where a cell
grows (`WellFormed.rounds_induction`).

The worklist alone gives no measure, since a cell that grows makes its readers pending
again. But every growth adds a kind to a cell, and no cell ever holds more than the kinds
of the enumeration, so there are only so many growths. Between two of them, every round
leaves one pending entity less. With at most as many pending entities as there are slots
and blocks, this bounds the rounds as well (`solver_terminates`).
-/

set_option autoImplicit false

namespace CapLiveness

/-! ## Counting kinds -/

namespace CapSet

theorem count_le_count {s t : CapSet} (subset : s ⊆ t) : s.count ≤ t.count := by
  rw [count_eq_countP, count_eq_countP]
  exact List.countP_mono_left fun k _ member => subset k member

end CapSet

theorem Enumeration.count_all_le (caps : Enumeration) : caps.all.count ≤ caps.size := by
  have nodup : caps.all.kinds.Nodup := List.nodup_range.filter _
  have subset : caps.all.kinds ⊆ List.range caps.size := by
    intro k member
    rw [CapSet.mem_kinds, Enumeration.all, CapSet.mem_below] at member
    exact List.mem_range.mpr member.1
  rw [CapSet.count_eq_length_kinds]
  simpa using (nodup.subperm subset).length_le

namespace Setting

variable {σ : Type} {s : Setting}

/-! ## Growing -/

/-- **What growing a cell does.** The cell gains members and no other cell changes; the
growth is counted and recorded, and the readers of the cell become pending. -/
structure Grows (s : Setting) (cell : Cell) (before after : Progress σ) : Prop where
  subset : before.tables.get cell ⊆ after.tables.get cell
  new : ¬ after.tables.get cell ⊆ before.tables.get cell
  elsewhere : ∀ other, other ≠ cell → after.tables.get other = before.tables.get other
  pending : after.pending = before.pending.pushAll (s.dependents cell)
  visits : after.visits = before.visits
  updates : after.updates = before.updates + 1
  trace : after.trace = before.trace.push (s.update cell before.tables after.tables)

theorem absorb_eq_or_grows (s : Setting) (progress : Progress σ) (demand : Cell × CapSet) :
    s.absorb progress demand = progress ∨ s.Grows demand.1 progress (s.absorb progress demand) := by
  unfold absorb
  rcases progress.tables.grow?_cases demand.1 demand.2 with
    ⟨unchanged, _⟩ | ⟨grown, changed, atCell, elsewhere, _⟩
  · rw [unchanged]
    exact .inl rfl
  · rw [changed]
    have notContained : ¬ demand.2 ⊆ progress.tables.get demand.1 := by
      intro contained
      rw [Tables.grow?_eq, if_neg (fun grows => grows.2 contained)] at changed
      cases changed
    refine .inr ⟨?_, ?_, elsewhere, rfl, rfl, rfl, rfl⟩
    · rw [atCell]
      exact CapSet.subset_union_left _ _
    · rw [atCell]
      intro contained
      exact notContained fun k member => contained k (CapSet.mem_union.mpr (.inr member))

theorem entity_of_mem_transfer {t : Tables} {entity : Entity} {demand : Cell × CapSet}
    (member : demand ∈ s.transfer t entity) : demand.1.entity = entity := by
  cases entity with
  | function slot =>
    simp only [transfer, List.mem_cons, List.not_mem_nil, or_false] at member
    rcases member with rfl | rfl | rfl <;> rfl
  | block b =>
    simp only [transfer] at member
    split at member
    case h_1 =>
      simp only [List.mem_cons, List.not_mem_nil, or_false] at member
      rcases member with rfl | rfl <;> rfl
    case h_2 => cases member

theorem absorbAll_induction (holds : Progress σ → Prop) (demands : List (Cell × CapSet))
    (growing : ∀ demand ∈ demands, ∀ before after, s.Grows demand.1 before after →
      holds before → holds after)
    {progress : Progress σ} (start : holds progress) :
    holds (demands.foldl s.absorb progress) := by
  induction demands generalizing progress with
  | nil => exact start
  | cons first rest ih =>
    rw [List.foldl_cons]
    refine ih (fun demand later => growing demand (List.mem_cons_of_mem _ later)) ?_
    rcases absorb_eq_or_grows s progress first with same | grows
    · rw [same]
      exact start
    · exact growing first List.mem_cons_self _ _ grows start

/-- **Visits.** What growing the cells of an entity preserves holds after a visit. -/
theorem visit_induction (holds : Progress σ → Prop) {entity : Entity}
    (growing : ∀ cell before after, cell.entity = entity → s.Grows cell before after →
      holds before → holds after)
    {progress : Progress σ} (start : holds { progress with visits := progress.visits + 1 }) :
    holds (s.visit progress entity) := by
  refine absorbAll_induction holds _ ?_ start
  intro demand member before after grows
  exact growing demand.1 before after (entity_of_mem_transfer member) grows

/-! ## Rounds -/

/-- **One turn of the loop**, in which any pending entity may be taken. -/
inductive Round (s : Setting) : Progress σ → Progress σ → Prop where
  | take {progress : Progress σ} {entity : Entity} {rest : Worklist Entity σ}
      (taken : progress.pending.items.Perm (entity :: rest.items)) :
      Round s progress (s.visit { progress with pending := rest } entity)

/-- A number of turns of the loop. -/
inductive Rounds (s : Setting) (start : Progress σ) : Nat → Progress σ → Prop where
  | none : Rounds s start 0 start
  | more {n : Nat} {now next : Progress σ} (rounds : Rounds s start n now)
      (round : Round s now next) : Rounds s start (n + 1) next

/-- Where the loop starts. -/
def start (s : Setting) (source : Source σ) (order : Order) (choices : σ) : Progress σ :=
  ⟨s.initialTables, s.initialPending source order choices, 0, 0, #[]⟩

/-- There is a next round exactly when something is pending. -/
theorem exists_round_iff {progress : Progress σ} :
    (∃ next, s.Round progress next) ↔ progress.pending.items ≠ [] := by
  constructor
  · rintro ⟨next, ⟨taken⟩⟩ empty
    rw [empty] at taken
    exact absurd taken.nil_eq (List.cons_ne_nil _ _).symm
  · intro nonempty
    obtain ⟨first, others, items⟩ := List.exists_cons_of_ne_nil nonempty
    obtain ⟨rest, stays⟩ := progress.pending.exists_rest (List.Perm.of_eq items)
    have taken : progress.pending.items.Perm (first :: rest.items) := by
      rw [items, stays]
    exact ⟨_, .take taken⟩

/-- The loop of the solver goes on from a run to a run. -/
theorem exists_rounds_run {source : Source σ} {start progress : Progress σ} {n : Nat}
    (rounds : s.Rounds start n progress) : ∃ m, s.Rounds start m (s.run source progress) := by
  fun_induction run s source progress generalizing n with
  | case1 progress taken => exact ⟨n, rounds⟩
  | case2 progress entity rest taken shorter ih =>
    exact ih (rounds.more (.take (Worklist.perm_of_pop taken)))

theorem exists_rounds_solve (s : Setting) (source : Source σ) (order : Order) (choices : σ) :
    ∃ n, s.Rounds (s.start source order choices) n (s.solve source order choices) :=
  exists_rounds_run .none

end Setting

namespace Program.WellFormed

variable {σ : Type} {p : Program} (wf : p.WellFormed)
include wf

/-- **Runs.** What taking an entity and growing a cell preserve holds after any number of
rounds, and only entities with equations are pending. -/
theorem rounds_induction {holds : Progress σ → Prop}
    (taking : ∀ progress entity (rest : Worklist Entity σ),
      progress.pending.items.Perm (entity :: rest.items) → holds progress →
      holds { progress with pending := rest, visits := progress.visits + 1 })
    (growing : ∀ cell before after, cell.entity ∈ p.setting.initialEntities →
      p.setting.Grows cell before after →
      (∀ entity ∈ after.pending.items, entity ∈ p.setting.initialEntities) →
      holds before → holds after)
    {start now : Progress σ} {n : Nat} (rounds : p.setting.Rounds start n now)
    (solved : ∀ entity ∈ start.pending.items, entity ∈ p.setting.initialEntities)
    (atStart : holds start) :
    (∀ entity ∈ now.pending.items, entity ∈ p.setting.initialEntities) ∧ holds now := by
  induction rounds with
  | none => exact ⟨solved, atStart⟩
  | @more _ now _ _ round ih =>
    obtain ⟨pending, before⟩ := ih
    cases round with
    | @take entity rest taken =>
      have entitySolved := pending entity (taken.mem_iff.mpr List.mem_cons_self)
      refine Setting.visit_induction (fun progress => (∀ entity ∈ progress.pending.items,
        entity ∈ p.setting.initialEntities) ∧ holds progress) ?_ ⟨?_, ?_⟩
      · rintro cell before after rfl grows ⟨pending, holds⟩
        have pendingAfter : ∀ entity ∈ after.pending.items,
            entity ∈ p.setting.initialEntities := by
          intro other member
          rw [grows.pending, Worklist.mem_pushAll] at member
          rcases member with earlier | reader
          · exact pending other earlier
          · exact wf.dependents_subset_initialEntities entitySolved reader
        exact ⟨pendingAfter, growing cell before after entitySolved grows pendingAfter holds⟩
      · intro other member
        exact pending other (taken.mem_iff.mpr (List.mem_cons_of_mem _ member))
      · exact taking now entity rest taken before

theorem invariant_rounds {start now : Progress σ} {n : Nat}
    (rounds : p.setting.Rounds start n now) (invariant : p.setting.Invariant start) :
    p.setting.Invariant now := by
  induction rounds with
  | none => exact invariant
  | more _ round ih =>
    cases round with
    | take taken => exact wf.invariant_take ih taken

end Program.WellFormed

/-! ## How often sets grow -/

namespace Setting

variable {σ : Type} {s : Setting}

/-- The cells with equations. -/
def solvedCells (s : Setting) : List Cell := s.initialEntities.flatMap Entity.cells

/-- How many members the cells with equations have. -/
def gained (s : Setting) (t : Tables) : Nat :=
  (s.solvedCells.map fun cell => (t.get cell).count).sum

theorem mem_solvedCells {cell : Cell} :
    cell ∈ s.solvedCells ↔ cell.entity ∈ s.initialEntities := by
  simp [solvedCells, Entity.mem_cells]

theorem Grows.gained_lt {cell : Cell} {before after : Progress σ}
    (solved : cell.entity ∈ s.initialEntities) (grows : s.Grows cell before after) :
    s.gained before.tables < s.gained after.tables := by
  have more : (before.tables.get cell).count < (after.tables.get cell).count := by
    have union : before.tables.get cell ∪ after.tables.get cell = after.tables.get cell := by
      apply CapSet.ext_mem
      intro k
      rw [CapSet.mem_union]
      exact ⟨fun member => member.elim (grows.subset k) id, .inr⟩
    rw [← union]
    exact CapSet.count_lt_count_union grows.new
  refine List.sum_lt_sum _ _ ?_ ⟨cell, mem_solvedCells.mpr solved, more⟩
  intro other _
  by_cases same : other = cell
  · rw [same]
    exact Nat.le_of_lt more
  · rw [grows.elsewhere other same]

theorem gained_le {t : Tables} {caps : Enumeration} (contained : ∀ cell, t.get cell ⊆ caps.all) :
    s.gained t ≤ caps.size * s.solvedCells.length := by
  have each : ∀ count ∈ s.solvedCells.map fun cell => (t.get cell).count, count ≤ caps.size := by
    intro count member
    obtain ⟨cell, _, rfl⟩ := List.mem_map.mp member
    exact Nat.le_trans (CapSet.count_le_count (contained cell)) caps.count_all_le
  have bound := List.sum_le_card_nsmul _ _ each
  rwa [List.length_map, Nat.nsmul_eq_mul, Nat.mul_comm] at bound

end Setting

namespace Program

variable {p : Program}

theorem length_initialEntities_le :
    p.setting.initialEntities.length ≤ p.functions.size + 2 + p.blocks.size := by
  have blocks := List.length_filter_le (!p.setting.isOpaqueBlock ·)
    (List.range p.setting.program.blocks.size).reverse
  have slots : p.setting.graph.slotCount = p.functions.size + 2 := rfl
  have program : p.setting.program = p := rfl
  simp only [Setting.initialEntities, List.length_append, List.length_map, List.length_reverse,
    List.length_range, slots, program] at blocks ⊢
  omega

theorem length_solvedCells_le :
    p.setting.solvedCells.length ≤ 3 * (p.functions.size + 2) + 2 * p.blocks.size := by
  have blocks := List.length_filter_le (!p.setting.isOpaqueBlock ·)
    (List.range p.setting.program.blocks.size).reverse
  have slots : p.setting.graph.slotCount = p.functions.size + 2 := rfl
  have program : p.setting.program = p := rfl
  simp only [Setting.solvedCells, Setting.initialEntities, List.flatMap_append,
    List.length_append, List.length_flatMap, List.map_map, Function.comp_def, Entity.cells,
    List.length_cons, List.length_nil, List.map_const', List.sum_replicate, List.length_reverse,
    List.length_range, slots, program, Nat.nsmul_eq_mul] at blocks ⊢
  omega

end Program

/-! ## How many rounds there are -/

namespace Setting

variable {σ : Type} {s : Setting}

theorem visits_visit (s : Setting) (progress : Progress σ) (entity : Entity) :
    (s.visit progress entity).visits = progress.visits + 1 := by
  refine visit_induction (fun now => now.visits = progress.visits + 1) ?_ rfl
  intro cell before after _ grows counted
  rw [grows.visits, counted]

theorem Rounds.visits_eq {start now : Progress σ} {n : Nat} (rounds : s.Rounds start n now) :
    now.visits = start.visits + n := by
  induction rounds with
  | none => rfl
  | more _ round ih =>
    cases round with
    | take => rw [visits_visit, ih, Nat.add_assoc]

/-- The bounds that hold during a run: an update needs a new member of some cell, and the
rounds between two updates use up the worklist. -/
structure Bounded (s : Setting) (progress : Progress σ) : Prop where
  updates_le : progress.updates ≤ s.gained progress.tables
  visits_le : progress.visits + progress.pending.items.length ≤
    s.initialEntities.length * (progress.updates + 1)

theorem length_pending_le {w : Worklist Entity σ}
    (solved : ∀ entity ∈ w.items, entity ∈ s.initialEntities) :
    w.items.length ≤ s.initialEntities.length :=
  (w.consistent.nodup.subperm solved).length_le

theorem bounded_start (s : Setting) (source : Source σ) (order : Order) (choices : σ) :
    s.Bounded (s.start source order choices) := by
  have most : (s.initialPending source order choices).items.length ≤ s.initialEntities.length :=
    length_pending_le fun _ member => mem_initialPending.mp member
  refine ⟨Nat.zero_le _, ?_⟩
  simpa [start] using most

theorem Bounded.take {progress : Progress σ} (bounded : s.Bounded progress) {entity : Entity}
    {rest : Worklist Entity σ} (taken : progress.pending.items.Perm (entity :: rest.items)) :
    s.Bounded { progress with pending := rest, visits := progress.visits + 1 } := by
  refine ⟨bounded.updates_le, ?_⟩
  have shorter := taken.length_eq
  rw [List.length_cons] at shorter
  have before := bounded.visits_le
  dsimp only
  omega

theorem Bounded.grow {cell : Cell} {before after : Progress σ} (bounded : s.Bounded before)
    (solved : cell.entity ∈ s.initialEntities) (grows : s.Grows cell before after)
    (pending : ∀ entity ∈ after.pending.items, entity ∈ s.initialEntities) : s.Bounded after := by
  refine ⟨?_, ?_⟩
  · rw [grows.updates]
    exact Nat.succ_le_of_lt (Nat.lt_of_le_of_lt bounded.updates_le (grows.gained_lt solved))
  · have most := length_pending_le pending
    have earlier := bounded.visits_le
    rw [grows.visits, grows.updates, Nat.mul_succ]
    omega

end Setting

namespace Program.WellFormed

variable {σ : Type} {p : Program} (wf : p.WellFormed)
include wf

theorem bounded_rounds {source : Source σ} {order : Order} {choices : σ} {n : Nat}
    {now : Progress σ} (rounds : p.setting.Rounds (p.setting.start source order choices) n now) :
    p.setting.Bounded now := by
  refine (wf.rounds_induction ?_ ?_ rounds ?_ (p.setting.bounded_start source order choices)).2
  · intro progress entity rest taken bounded
    exact bounded.take taken
  · intro cell before after solved grows pending bounded
    exact bounded.grow solved grows pending
  · intro entity member
    exact Setting.mem_initialPending.mp member

/-- No cell ever holds more than the kinds of the enumeration. -/
theorem get_subset_all {source : Source σ} {order : Order} {choices : σ} {n : Nat}
    {now : Progress σ} (rounds : p.setting.Rounds (p.setting.start source order choices) n now)
    (cell : Cell) : now.tables.get cell ⊆ p.enumeration.all := by
  have invariant := wf.invariant_rounds rounds (p.setting.invariant_initial source order choices)
  intro k member
  exact mem_all_of_flows (invariant.flows cell k member)

theorem updates_le {source : Source σ} {order : Order} {choices : σ} {n : Nat}
    {now : Progress σ} (rounds : p.setting.Rounds (p.setting.start source order choices) n now) :
    now.updates ≤ p.enumeration.size * (3 * (p.functions.size + 2) + 2 * p.blocks.size) :=
  calc now.updates
    _ ≤ p.setting.gained now.tables := (wf.bounded_rounds rounds).updates_le
    _ ≤ p.enumeration.size * p.setting.solvedCells.length :=
      Setting.gained_le (wf.get_subset_all rounds)
    _ ≤ p.enumeration.size * (3 * (p.functions.size + 2) + 2 * p.blocks.size) :=
      Nat.mul_le_mul_left _ length_solvedCells_le

theorem rounds_le {source : Source σ} {order : Order} {choices : σ} {n : Nat}
    {now : Progress σ} (rounds : p.setting.Rounds (p.setting.start source order choices) n now) :
    n ≤ (p.functions.size + 2 + p.blocks.size) *
      (p.enumeration.size * (3 * (p.functions.size + 2) + 2 * p.blocks.size) + 1) :=
  calc n
    _ = now.visits := by simp [rounds.visits_eq, Setting.start]
    _ ≤ now.visits + now.pending.items.length := Nat.le_add_right _ _
    _ ≤ p.setting.initialEntities.length * (now.updates + 1) := (wf.bounded_rounds rounds).visits_le
    _ ≤ _ := Nat.mul_le_mul length_initialEntities_le (Nat.succ_le_succ (wf.updates_le rounds))

end Program.WellFormed

/-- **The solver stops.** Take a program that passes validation, any strictness under which
its uses can be extracted, and any order and source of choices for the start. Whichever
pending entity is taken in each round, there are at most so many rounds, they go on until
nothing is pending, and sets grow at most as often as there are kinds that cells could
hold: three cells for each function and for the two slots of outside code, and two for each
block. The solver itself makes such a run, and finds its worklist empty. -/
theorem solver_terminates {σ : Type} {p : Program} (valid : p.validate = none)
    {strictness : Strictness} {uses : Uses} (extracted : Uses.extract strictness p = .ok uses)
    (source : Source σ) (order : Order) (choices : σ) :
    let s : Setting := { p.bareSetting with uses := uses }
    let start := s.start source order choices
    let most := p.enumeration.size * (3 * (p.functions.size + 2) + 2 * p.blocks.size)
    (∀ n now, s.Rounds start n now →
      n ≤ (p.functions.size + 2 + p.blocks.size) * (most + 1) ∧ now.visits = n ∧
        now.updates ≤ most ∧ ((∃ next, s.Round now next) ↔ now.pending.items ≠ [])) ∧
    (∃ n, s.Rounds start n (s.solve source order choices)) ∧
    (s.solve source order choices).pending.pop source = none ∧
    ∀ (config : Config) (r : Result), config.strictness = strictness →
      (p.analyzeWith source choices config).outcome = .ok r → r.stats.updates ≤ most := by
  have wf := Program.wellFormed_of_validate valid
  obtain rfl := Uses.eq_ofProgram_of_extract extracted
  refine ⟨?_, p.setting.exists_rounds_solve source order choices, ?_, ?_⟩
  · intro n now rounds
    have visits : now.visits = n := rounds.visits_eq.trans (Nat.zero_add n)
    exact ⟨wf.rounds_le rounds, visits, wf.updates_le rounds, Setting.exists_round_iff⟩
  · exact Worklist.pop_eq_none_iff.mpr (wf.invariant_solve source order choices).2
  · intro config r _ analyzed
    obtain ⟨_, ⟨_, rfl⟩ | ⟨_, rfl⟩⟩ := Program.outcome_cases analyzed
    · exact Nat.zero_le _
    · obtain ⟨n, rounds⟩ := p.setting.exists_rounds_solve source config.order choices
      exact wf.updates_le rounds

/-- In the sample program there are three kinds, four functions and ten blocks, so its sets
grow at most 114 times, whichever pending entity is taken next. -/
theorem solver_terminates_sample :
    sampleProgram.validate = none ∧
      Uses.extract .function sampleProgram = .ok (Uses.ofProgram sampleProgram) ∧
      ∀ (σ : Type) (source : Source σ) (choices : σ) (n : Nat) (now : Progress σ),
        sampleProgram.setting.Rounds (sampleProgram.setting.start source .random choices) n now →
        n ≤ 1840 ∧ now.updates ≤ 114 := by
  have valid : sampleProgram.validate = none := rfl
  have extracted : Uses.extract .function sampleProgram = .ok (Uses.ofProgram sampleProgram) := rfl
  refine ⟨valid, extracted, ?_⟩
  intro σ source choices n now rounds
  obtain ⟨few, _, updates, _⟩ :=
    (solver_terminates valid extracted source .random choices).1 n now rounds
  exact ⟨few, updates⟩

end CapLiveness
