import CapLiveness.Analysis.Fixpoint
import CapLiveness.Proofs.Indexing
import Mathlib.Logic.Basic

/-!
# The equations as flows

Every equation of the analysis is a union: a cell has to contain the kinds that
its function or block uses itself (`Setting.own`), and everything that is in the
cells that its equation reads (`Setting.sources`). So the two halves of the
analysis are one system in which kinds flow from cell to cell, and the transfer
functions are that system (`transfer_eq_map_demand`). Which cells an equation reads is
said in terms of the program (`slotCallees_cases`, `mem_sources_returnLive`,
`mem_sources_liveOut`, `mem_sources_liveIn`).

A kind flows into a cell when it is used there, or flows into one of the sources
of the cell; everything flows into the blocks of opaque functions
(`Setting.Flows`). Tables that contain what their equations demand contain
everything that flows (`IsClosed.mem_of_flows`).

The dependents of a cell are the entities to visit again after it has grown. In a
well-formed program no reader is forgotten: whoever reads a cell is among its
dependents (`WellFormed.entity_mem_dependents`), and the dependents of a cell
that is solved for are themselves solved for
(`WellFormed.dependents_subset_initialEntities`).
-/

set_option autoImplicit false

namespace CapLiveness

/-- The function or block whose equations determine a cell. -/
def Cell.entity (cell : Cell) : Entity :=
  match cell.field with
  | .requiredIn | .requiredOut | .returnLive => .function cell.index
  | .liveIn | .liveOut => .block cell.index

/-- The cells that the equations of an entity determine, in the order in which
they grow. -/
def Entity.cells : Entity → List Cell
  | .function slot => [⟨.requiredOut, slot⟩, ⟨.requiredIn, slot⟩, ⟨.returnLive, slot⟩]
  | .block b => [⟨.liveOut, b⟩, ⟨.liveIn, b⟩]

theorem Entity.mem_cells {entity : Entity} {cell : Cell} :
    cell ∈ entity.cells ↔ cell.entity = entity := by
  obtain ⟨field, index⟩ := cell
  cases entity <;> cases field <;> simp [Entity.cells, Cell.entity, eq_comm]

/-- Tables are ordered by inclusion, cell by cell. -/
instance : LE Tables := ⟨fun t u => ∀ cell, t.get cell ⊆ u.get cell⟩

namespace Setting

/-! ## Demands as unions -/

/-- The slots that the function in a slot may enter. -/
def slotCallees (s : Setting) (slot : Nat) : List Nat :=
  if slot = s.graph.callingExternal then s.graph.external
  else if slot = s.graph.callsExternal then [s.graph.callingExternal]
  else ((s.graph.sitesOf slot).filterMap s.block?).flatMap s.callees

/-- The cells that determine what is live on exit from a block. -/
def exitSources (s : Setting) (b : Nat) (block : Block) : List Cell :=
  ((block.successors.filter (0 ≤ ·)).map fun successor => ⟨.liveIn, successor.toNat⟩) ++
    if s.isExitBlock b block then [⟨.returnLive, block.function.toNat⟩] else []

/-- The cells that the equation of a cell reads. -/
def sources (s : Setting) (cell : Cell) : List Cell :=
  match cell.field with
  | .requiredIn | .requiredOut => (s.slotCallees cell.index).map (⟨.requiredIn, ·⟩)
  | .returnLive =>
    (s.graph.callersOf cell.index).map (⟨.liveOut, ·⟩) ++
      if s.graph.isExternal cell.index then [⟨.returnLive, s.graph.callsExternal⟩] else []
  | .liveOut => (s.block? cell.index).toList.flatMap (s.exitSources cell.index)
  | .liveIn =>
    (s.block? cell.index).toList.flatMap fun block =>
      s.exitSources cell.index block ++
        if block.kind = .call then (s.callees block).map (⟨.requiredIn, ·⟩) else []

/-- The kinds that a cell has to contain by itself: what its function or block uses. -/
def own (s : Setting) (cell : Cell) : CapSet :=
  match cell.field with
  | .requiredIn => s.uses.ofSlot.getD cell.index ∅
  | .liveIn => s.uses.ofBlock.getD cell.index ∅
  | .requiredOut | .returnLive | .liveOut => ∅

/-- What a cell has to contain, given the tables. -/
def demand (s : Setting) (t : Tables) (cell : Cell) : CapSet :=
  s.own cell ∪ unionOf (s.sources cell) t.get

theorem mem_demand {s : Setting} {t : Tables} {cell : Cell} {k : Nat} :
    k ∈ s.demand t cell ↔ k ∈ s.own cell ∨ ∃ source ∈ s.sources cell, k ∈ t.get source := by
  simp [demand]

theorem requiredOut_eq_demand (s : Setting) (t : Tables) (slot : Nat) :
    s.requiredOut t slot = s.demand t ⟨.requiredOut, slot⟩ := by
  apply CapSet.ext_mem
  intro k
  unfold requiredOut demand own sources slotCallees
  split
  · simp
  · split
    · simp
    · simp only [calleeRequired, mem_unionOf, CapSet.mem_union, CapSet.not_mem_empty, false_or,
        List.mem_map, List.mem_flatMap]
      constructor
      · rintro ⟨block, site, callee, entered, required⟩
        exact ⟨_, ⟨callee, ⟨block, site, entered⟩, rfl⟩, required⟩
      · rintro ⟨_, ⟨callee, ⟨block, site, entered⟩, rfl⟩, required⟩
        exact ⟨block, site, callee, entered, required⟩

theorem requiredIn_eq_demand (s : Setting) (t : Tables) (slot : Nat) :
    s.requiredIn t slot = s.demand t ⟨.requiredIn, slot⟩ := by
  apply CapSet.ext_mem
  intro k
  rw [requiredIn, requiredOut_eq_demand, CapSet.mem_union, mem_demand, mem_demand]
  simp [own, sources, or_comm]

theorem returnLive_eq_demand (s : Setting) (t : Tables) (slot : Nat) :
    s.returnLive t slot = s.demand t ⟨.returnLive, slot⟩ := by
  apply CapSet.ext_mem
  intro k
  unfold returnLive demand own sources
  by_cases external : s.graph.isExternal slot = true <;>
    simp [external, or_and_right, exists_or]

theorem mem_liveOut {s : Setting} {t : Tables} {b : Nat} {block : Block} {k : Nat} :
    k ∈ s.liveOut t b block ↔ ∃ source ∈ s.exitSources b block, k ∈ t.get source := by
  unfold liveOut exitSources
  by_cases exit : s.isExitBlock b block = true <;>
    simp [exit, or_and_right, exists_or]

theorem liveOut_eq_demand (s : Setting) (t : Tables) {b : Nat} {block : Block}
    (found : s.block? b = some block) :
    s.liveOut t b block = s.demand t ⟨.liveOut, b⟩ := by
  apply CapSet.ext_mem
  intro k
  rw [mem_liveOut, mem_demand]
  simp [own, sources, found]

theorem liveIn_eq_demand (s : Setting) (t : Tables) {b : Nat} {block : Block}
    (found : s.block? b = some block) :
    s.liveIn t b block = s.demand t ⟨.liveIn, b⟩ := by
  apply CapSet.ext_mem
  intro k
  unfold liveIn
  rw [mem_demand]
  by_cases call : block.kind = .call <;>
    simp [call, own, sources, found, mem_liveOut, calleeRequired, or_and_right, exists_or] <;>
    grind

/-- **The transfer functions are the demands of the cells.** -/
theorem transfer_eq_map_demand (s : Setting) (t : Tables) {entity : Entity}
    (visited : entity ∈ s.initialEntities) :
    s.transfer t entity = entity.cells.map fun cell => (cell, s.demand t cell) := by
  cases entity with
  | function slot =>
    simp only [transfer, Entity.cells, List.map_cons, List.map_nil, requiredOut_eq_demand,
      requiredIn_eq_demand, returnLive_eq_demand]
  | block b =>
    have bound : b < s.program.blocks.size := by
      simp [initialEntities] at visited
      exact visited.1
    have found : s.block? b = some s.program.blocks[b] := Array.getElem?_eq_getElem bound
    simp only [transfer, found, Entity.cells, List.map_cons, List.map_nil,
      liveOut_eq_demand s t found, liveIn_eq_demand s t found]

/-! ## Flows -/

theorem function_mem_initialEntities {s : Setting} {slot : Nat} :
    .function slot ∈ s.initialEntities ↔ slot < s.graph.slotCount := by
  simp [initialEntities]

theorem block_mem_initialEntities {s : Setting} {b : Nat} :
    .block b ∈ s.initialEntities ↔ b < s.program.blocks.size ∧ s.isOpaqueBlock b = false := by
  simp [initialEntities]

/-- Whether an entity is a block of an opaque function. -/
def isOpaqueEntity (s : Setting) : Entity → Bool
  | .function _ => false
  | .block b => s.isOpaqueBlock b

/-- **Flows.** A kind flows into a cell that uses it and into a cell that reads one
into which it flows; every kind flows into the blocks of opaque functions. -/
inductive Flows (s : Setting) (k : Nat) : Cell → Prop where
  | all {cell : Cell} (givenUp : s.isOpaqueEntity cell.entity = true)
      (member : k ∈ s.program.enumeration.all) : Flows s k cell
  | own {cell : Cell} (solved : cell.entity ∈ s.initialEntities) (member : k ∈ s.own cell) :
      Flows s k cell
  | source {cell source : Cell} (solved : cell.entity ∈ s.initialEntities)
      (reads : source ∈ s.sources cell) (flows : Flows s k source) : Flows s k cell

/-- Tables that contain what the equations demand of them. -/
structure IsClosed (s : Setting) (t : Tables) : Prop where
  demand_subset : ∀ cell : Cell, cell.entity ∈ s.initialEntities → s.demand t cell ⊆ t.get cell
  all_subset : ∀ cell : Cell, s.isOpaqueEntity cell.entity = true →
    s.program.enumeration.all ⊆ t.get cell

/-- Closed tables contain everything that flows. -/
theorem IsClosed.mem_of_flows {s : Setting} {t : Tables} (closed : s.IsClosed t) {k : Nat}
    {cell : Cell} (flows : s.Flows k cell) : k ∈ t.get cell := by
  induction flows with
  | all givenUp member => exact closed.all_subset _ givenUp k member
  | own solved member => exact closed.demand_subset _ solved k (mem_demand.mpr (.inl member))
  | source solved reads _ ih =>
    exact closed.demand_subset _ solved k (mem_demand.mpr (.inr ⟨_, reads, ih⟩))

/-- A kind flows into none of a list of cells that read only each other, if none of them uses
it or belongs to an opaque function. -/
theorem not_flows_of_closed {s : Setting} {k : Nat} (cells : List Cell)
    (closed : ∀ cell ∈ cells, s.isOpaqueEntity cell.entity = false ∧ k ∉ s.own cell ∧
      ∀ source ∈ s.sources cell, source ∈ cells) {cell : Cell} (member : cell ∈ cells) :
    ¬ s.Flows k cell := by
  intro flows
  induction flows with
  | all givenUp _ =>
    rw [(closed _ member).1] at givenUp
    cases givenUp
  | own _ used => exact (closed _ member).2.1 used
  | source _ reads _ ih => exact ih ((closed _ member).2.2 _ reads)

/-- A kind that flows into a cell with an equation is demanded there by tables that
contain what flows. -/
theorem Flows.mem_demand {s : Setting} {t : Tables} {k : Nat} {cell : Cell}
    (contains : ∀ source, s.Flows k source → k ∈ t.get source)
    (solved : s.isOpaqueEntity cell.entity = false) (flows : s.Flows k cell) :
    k ∈ s.demand t cell := by
  cases flows with
  | all givenUp _ =>
    rw [givenUp] at solved
    cases solved
  | own _ member => exact Setting.mem_demand.mpr (.inl member)
  | source _ reads flows => exact Setting.mem_demand.mpr (.inr ⟨_, reads, contains _ flows⟩)

end Setting

namespace Program

/-- The setting in which a program is analyzed. -/
def setting (p : Program) : Setting := ⟨p, Graph.ofProgram p, Uses.ofProgram p⟩

theorem setting_block? (p : Program) (b : Nat) : p.setting.block? b = p.block? (Int.ofNat b) := rfl

variable {p : Program}

/-! The slots of the setting: one for each function, and two for outside code. -/

theorem callsExternal_lt : p.setting.graph.callsExternal < p.functions.size + 2 :=
  Nat.lt_add_of_pos_right (by decide)

theorem callingExternal_lt : p.setting.graph.callingExternal < p.functions.size + 2 :=
  Nat.lt_succ_self _

theorem standsFor_callsExternal {f : FunctionId} :
    p.StandsFor p.setting.graph.callsExternal f ↔ p.IsExternal f :=
  standsFor_outside (Nat.le_refl _)

theorem standsFor_callingExternal {f : FunctionId} :
    p.StandsFor p.setting.graph.callingExternal f ↔ p.IsExternal f :=
  standsFor_outside (Nat.le_succ _)

theorem slotCallees_callingExternal :
    p.setting.slotCallees p.setting.graph.callingExternal = p.setting.graph.external :=
  if_pos rfl

theorem slotCallees_callsExternal :
    p.setting.slotCallees p.setting.graph.callsExternal = [p.setting.graph.callingExternal] :=
  (if_neg (Nat.ne_of_lt (Nat.lt_succ_self _))).trans (if_pos rfl)

theorem slotCallees_function {slot : Nat} (bound : slot < p.functions.size) :
    p.setting.slotCallees slot =
      ((p.setting.graph.sitesOf slot).filterMap p.setting.block?).flatMap p.setting.callees :=
  (if_neg (Nat.ne_of_lt (Nat.lt_add_right 1 bound))).trans (if_neg (Nat.ne_of_lt bound))

/-- A block that is solved for is a block of a function that is not opaque. -/
theorem exists_block_of_solved {b : Nat} (solved : .block b ∈ p.setting.initialEntities) :
    ∃ block, p.block? (Int.ofNat b) = some block ∧ p.setting.isOpaqueBlock b = false := by
  obtain ⟨inside, notOpaque⟩ := Setting.block_mem_initialEntities.mp solved
  exact ⟨_, Array.getElem?_eq_getElem inside, notOpaque⟩

/-! ## What the equations read -/

/-- The slots that a slot may enter: from outside, the functions that can be entered from
there; from a function, those of its call sites. -/
theorem slotCallees_cases {slot callee : Nat} (entered : callee ∈ p.setting.slotCallees slot) :
    (slot = p.setting.graph.callingExternal ∧ callee ∈ p.setting.graph.external) ∨
      (slot = p.setting.graph.callsExternal ∧ callee = p.setting.graph.callingExternal) ∨
      ∃ (b : Nat) (site : Block), p.block? (Int.ofNat b) = some site ∧ site.kind = .call ∧
        site.function = Int.ofNat slot ∧ callee ∈ p.setting.callees site := by
  unfold Setting.slotCallees at entered
  split at entered
  case isTrue calling => exact .inl ⟨calling, entered⟩
  case isFalse =>
    split at entered
    case isTrue calls => exact .inr (.inl ⟨calls, List.mem_singleton.mp entered⟩)
    case isFalse =>
      obtain ⟨site, isSite, callee⟩ := List.mem_flatMap.mp entered
      obtain ⟨b, atSite, found⟩ := List.mem_filterMap.mp isSite
      obtain ⟨_, other, foundOther, call, owner⟩ := mem_sitesOf.mp atSite
      obtain rfl : site = other := Option.some.inj (found.symm.trans foundOther)
      exact .inr (.inr ⟨b, site, found, call, owner, callee⟩)

theorem exists_site_of_mem_slotCallees {slot callee : Nat} (bound : slot < p.functions.size)
    (entered : callee ∈ p.setting.slotCallees slot) :
    ∃ (b : Nat) (site : Block), p.block? (Int.ofNat b) = some site ∧ site.kind = .call ∧
      site.function = Int.ofNat slot ∧ callee ∈ p.setting.callees site := by
  rcases slotCallees_cases entered with ⟨rfl, _⟩ | ⟨rfl, _⟩ | site
  · exact absurd bound (Nat.not_lt.mpr (Nat.le_succ _))
  · exact absurd bound (Nat.lt_irrefl _)
  · exact site

/-- What the callers of a slot need after it returns is what is live at the end of the
calls that may enter it and, for functions that can be entered from outside, what is live
after calls of outside code. -/
theorem mem_sources_returnLive {slot : Nat} {source : Cell} :
    source ∈ p.setting.sources ⟨.returnLive, slot⟩ ↔
      (∃ c ∈ p.setting.graph.callersOf slot, source = ⟨.liveOut, c⟩) ∨
        (p.setting.graph.isExternal slot = true ∧
          source = ⟨.returnLive, p.setting.graph.callsExternal⟩) := by
  cases external : p.setting.graph.isExternal slot <;>
    simp [Setting.sources, external, eq_comm]

/-- What is live on exit from a block is what is live on entry to its successors and,
where its function returns, what the callers still need. -/
theorem mem_exitSources {b : Nat} {block : Block} {source : Cell} :
    source ∈ p.setting.exitSources b block ↔
      (∃ next : Nat, Int.ofNat next ∈ block.successors ∧ source = ⟨.liveIn, next⟩) ∨
        ((∃ function, p.function? block.function = some function ∧
            function.exit = Int.ofNat b) ∧
          source = ⟨.returnLive, block.function.toNat⟩) := by
  have program : p.setting.program = p := rfl
  unfold Setting.exitSources Setting.isExitBlock
  rw [program, List.mem_append, List.mem_map]
  refine or_congr ⟨?_, ?_⟩ ?_
  · rintro ⟨next, member, rfl⟩
    obtain ⟨listed, positive⟩ := List.mem_filter.mp member
    rw [← Int.toNat_of_nonneg (of_decide_eq_true positive)] at listed
    exact ⟨next.toNat, listed, rfl⟩
  · rintro ⟨next, listed, rfl⟩
    exact ⟨_, List.mem_filter.mpr ⟨listed, decide_eq_true (Int.natCast_nonneg next)⟩, rfl⟩
  · cases p.function? block.function <;> simp

theorem mem_sources_liveOut {b : Nat} {block : Block} (found : p.block? (Int.ofNat b) = some block)
    {source : Cell} :
    source ∈ p.setting.sources ⟨.liveOut, b⟩ ↔ source ∈ p.setting.exitSources b block := by
  simp only [Setting.sources, setting_block?, found]
  simp

theorem mem_sources_liveIn {b : Nat} {block : Block} (found : p.block? (Int.ofNat b) = some block)
    {source : Cell} :
    source ∈ p.setting.sources ⟨.liveIn, b⟩ ↔
      source ∈ p.setting.exitSources b block ∨
        (block.kind = .call ∧
          ∃ slot ∈ p.setting.callees block, source = ⟨.requiredIn, slot⟩) := by
  simp only [Setting.sources, setting_block?, found]
  by_cases call : block.kind = .call
  · simp [call, eq_comm (a := source)]
  · simp [call]

/-! ## Readers and dependents -/

/-- A call site is visited again with its function, unless the function is opaque. -/
theorem mem_siteEntities {b : Nat} {block : Block} (found : p.block? (Int.ofNat b) = some block)
    {entity : Entity} :
    entity ∈ p.setting.siteEntities b ↔
      entity = .function block.function.toNat ∨
        (entity = .block b ∧ p.setting.isOpaqueBlock b = false) := by
  simp only [Setting.siteEntities, setting_block?, found]
  cases p.setting.isOpaqueBlock b <;> simp [or_comm]

theorem exists_block_of_isOpaqueBlock {b : Nat} (givenUp : p.setting.isOpaqueBlock b = true) :
    ∃ block, p.block? (Int.ofNat b) = some block := by
  unfold Setting.isOpaqueBlock at givenUp
  split at givenUp
  case h_1 block found => exact ⟨block, found⟩
  case h_2 => cases givenUp

theorem isOpaqueBlock_eq {b : Nat} {block : Block} (found : p.block? (Int.ofNat b) = some block) :
    p.setting.isOpaqueBlock b = p.setting.uses.isOpaque block.function.toNat := by
  simp only [Setting.isOpaqueBlock, setting_block?, found]

namespace WellFormed

variable (wf : p.WellFormed)
include wf

/-- The slots that a call enters have a place in the tables. -/
theorem lt_of_mem_callees {b : Nat} {block : Block} (found : p.block? (Int.ofNat b) = some block)
    (call : block.kind = .call) {slot : Nat} (callee : slot ∈ p.setting.callees block) :
    slot < p.functions.size + 2 := by
  rcases (wf.mem_calleeSlots_iff found call).mp callee with target | ⟨_, rfl⟩
  · obtain ⟨function, foundFunction⟩ :=
      exists_of_hasFunction (wf.hasFunction_of_mem_targets found call target)
    exact Nat.lt_of_lt_of_le (lt_of_function? foundFunction) (Nat.le_add_right _ 2)
  · exact callsExternal_lt

/-- A call site is among the callers of the slots that it enters. -/
theorem mem_callersOf_of_mem_callees {b : Nat} {block : Block}
    (found : p.block? (Int.ofNat b) = some block) (call : block.kind = .call) {slot : Nat}
    (callee : slot ∈ p.setting.callees block) : b ∈ p.setting.graph.callersOf slot :=
  mem_callersOf.mpr ⟨wf.lt_of_mem_callees found call callee, block, found, call, callee⟩

theorem isExternal_iff {slot : Nat} :
    p.setting.graph.isExternal slot = true ↔ p.IsExternal (Int.ofNat slot) :=
  (Graph.isExternal_ofProgram p).trans wf.mem_externalFunctions

/-- The slots of outside code are not those of functions. -/
theorem not_isExternal_callingExternal :
    p.setting.graph.isExternal p.setting.graph.callingExternal = false := by
  rw [Bool.eq_false_iff, ne_eq, wf.isExternal_iff]
  rintro ⟨_, function, found, _⟩
  have bound := lt_of_function? found
  exact absurd bound (Nat.not_lt.mpr (Nat.le_succ _))

/-- The readers of a requirement among the functions are its dependents. -/
theorem function_mem_dependents_of_mem_slotCallees {slot callee : Nat}
    (entered : callee ∈ p.setting.slotCallees slot) :
    .function slot ∈ p.setting.dependents ⟨.requiredIn, callee⟩ := by
  refine List.mem_append.mpr ?_
  rcases slotCallees_cases entered with
    ⟨rfl, external⟩ | ⟨rfl, rfl⟩ | ⟨b, site, found, call, owner, callee⟩
  · right
    have isExternal : p.setting.graph.isExternal callee = true :=
      (Graph.isExternal_ofProgram p).mpr external
    rw [if_pos isExternal]
    exact List.mem_singleton.mpr rfl
  · right
    rw [if_neg (by rw [wf.not_isExternal_callingExternal]; simp), if_pos rfl]
    exact List.mem_singleton.mpr rfl
  · left
    refine List.mem_flatMap.mpr ⟨b, wf.mem_callersOf_of_mem_callees found call callee, ?_⟩
    exact (mem_siteEntities found).mpr (.inl (by rw [owner]; rfl))

/-- The function that a block names is a slot. -/
theorem exists_owner {b : BlockId} {block : Block} (found : p.block? b = some block) :
    ∃ (owner : Nat) (function : Function), block.function = Int.ofNat owner ∧
      owner < p.functions.size ∧ p.functions[owner]? = some function ∧
      p.function? (Int.ofNat owner) = some function := by
  obtain ⟨function, foundFunction⟩ := wf.owner found
  obtain ⟨owner, same, inside⟩ := entryAt?_eq_some_iff.mp foundFunction
  exact ⟨owner, function, same, lt_of_function? inside, inside, inside⟩

/-- A function enters the slots that its call sites enter. -/
theorem mem_slotCallees_of_mem_callees {b slot callee : Nat} {site : Block}
    (found : p.block? (Int.ofNat b) = some site) (call : site.kind = .call)
    (owner : site.function = Int.ofNat slot) (isCallee : callee ∈ p.setting.callees site) :
    callee ∈ p.setting.slotCallees slot := by
  obtain ⟨_, _, names, bound, _⟩ := wf.exists_owner found
  obtain rfl := Int.ofNat.inj (owner.symm.trans names)
  rw [slotCallees_function bound]
  refine List.mem_flatMap.mpr ⟨site, List.mem_filterMap.mpr ⟨b, ?_, found⟩, isCallee⟩
  exact mem_sitesOf.mpr ⟨Nat.lt_add_right 2 bound, site, found, call, owner⟩

/-- A block of a function that is not opaque is a dependent of whatever determines
what is live on exit from it. -/
theorem block_mem_dependents_of_mem_exitSources {b : Nat} {block : Block} {source : Cell}
    (found : p.block? (Int.ofNat b) = some block) (solved : p.setting.isOpaqueBlock b = false)
    (reads : source ∈ p.setting.exitSources b block) :
    .block b ∈ p.setting.dependents source := by
  rcases mem_exitSources.mp reads with
    ⟨next, listed, rfl⟩ | ⟨⟨function, foundFunction, exits⟩, rfl⟩
  · obtain ⟨other, foundNext, _⟩ := (wf.block found).successors _ listed
    refine List.mem_map.mpr ⟨b, mem_predecessorsOf.mpr ?_, rfl⟩
    exact ⟨lt_of_block? foundNext, block, found, listed⟩
  · obtain ⟨owner, _, names, _, _, _⟩ := wf.exists_owner found
    rw [isOpaqueBlock_eq found, names] at solved
    rw [names] at foundFunction ⊢
    refine List.mem_append.mpr (.inl ?_)
    have atOwner : p.setting.program.functions[(Int.ofNat owner).toNat]? = some function :=
      foundFunction
    simp only [Setting.exitEntities, atOwner, exits, solved]
    simp

/-- **No reader is forgotten.** Whoever reads a cell is among its dependents. -/
theorem entity_mem_dependents {cell source : Cell}
    (solved : cell.entity ∈ p.setting.initialEntities) (reads : source ∈ p.setting.sources cell) :
    cell.entity ∈ p.setting.dependents source := by
  obtain ⟨field, index⟩ := cell
  cases field with
  | requiredIn =>
    obtain ⟨callee, entered, rfl⟩ := List.mem_map.mp reads
    exact wf.function_mem_dependents_of_mem_slotCallees entered
  | requiredOut =>
    obtain ⟨callee, entered, rfl⟩ := List.mem_map.mp reads
    exact wf.function_mem_dependents_of_mem_slotCallees entered
  | returnLive =>
    rcases mem_sources_returnLive.mp reads with ⟨c, caller, rfl⟩ | ⟨external, rfl⟩
    · obtain ⟨_, block, found, call, callee⟩ := mem_callersOf.mp caller
      simp only [Setting.dependents, setting_block?, found, call, if_true]
      exact List.mem_map.mpr ⟨index, callee, rfl⟩
    · refine List.mem_append.mpr (.inr ?_)
      rw [if_pos rfl]
      exact List.mem_map.mpr ⟨index, (Graph.isExternal_ofProgram p).mp external, rfl⟩
  | liveOut =>
    obtain ⟨block, found, notOpaque⟩ := exists_block_of_solved solved
    have exit := (mem_sources_liveOut found).mp reads
    exact wf.block_mem_dependents_of_mem_exitSources found notOpaque exit
  | liveIn =>
    obtain ⟨block, found, notOpaque⟩ := exists_block_of_solved solved
    rcases (mem_sources_liveIn found).mp reads with exit | ⟨call, callee, entered, rfl⟩
    · exact wf.block_mem_dependents_of_mem_exitSources found notOpaque exit
    · refine List.mem_append.mpr (.inl (List.mem_flatMap.mpr ⟨index, ?_, ?_⟩))
      · exact wf.mem_callersOf_of_mem_callees found call entered
      · exact (mem_siteEntities found).mpr (.inr ⟨rfl, notOpaque⟩)

/-- The owner of a call site is a slot, and the site is solved for unless the
function is opaque. -/
theorem siteEntities_subset_initialEntities {b : Nat} {block : Block}
    (found : p.block? (Int.ofNat b) = some block) {entity : Entity}
    (member : entity ∈ p.setting.siteEntities b) : entity ∈ p.setting.initialEntities := by
  rcases (mem_siteEntities found).mp member with rfl | ⟨rfl, notOpaque⟩
  · obtain ⟨owner, _, names, bound, _, _⟩ := wf.exists_owner found
    rw [names]
    exact Setting.function_mem_initialEntities.mpr (Nat.lt_add_right 2 bound)
  · exact Setting.block_mem_initialEntities.mpr
      ⟨lt_of_block? found, notOpaque⟩

/-- The exit block of a function that is not opaque is solved for. -/
theorem exitEntities_subset_initialEntities {slot : Nat} {entity : Entity}
    (member : entity ∈ p.setting.exitEntities slot) : entity ∈ p.setting.initialEntities := by
  unfold Setting.exitEntities at member
  split at member
  case h_2 => cases member
  case h_1 function found =>
    split at member
    case isFalse => cases member
    case isTrue exits =>
      have foundFunction : p.function? (Int.ofNat slot) = some function := found
      rcases (wf.function foundFunction).exit with absent | listed
      · rw [absent] at exits
        exact absurd exits.1 (by decide)
      · obtain ⟨block, foundBlock, names⟩ := wf.exists_listed foundFunction listed
        obtain ⟨b, same, inside⟩ := entryAt?_eq_some_iff.mp foundBlock
        rw [same] at foundBlock
        rw [List.mem_singleton.mp member, same]
        refine Setting.block_mem_initialEntities.mpr
          ⟨lt_of_block? inside, ?_⟩
        show p.setting.isOpaqueBlock b = false
        rw [isOpaqueBlock_eq foundBlock, names]
        simpa using exits.2

/-- The dependents of a cell that is solved for are solved for. -/
theorem dependents_subset_initialEntities {cell : Cell} {entity : Entity}
    (solved : cell.entity ∈ p.setting.initialEntities)
    (dependent : entity ∈ p.setting.dependents cell) : entity ∈ p.setting.initialEntities := by
  have slotBound : ∀ slot, slot < p.functions.size + 2 →
      Entity.function slot ∈ p.setting.initialEntities := fun slot bound =>
    Setting.function_mem_initialEntities.mpr bound
  obtain ⟨field, index⟩ := cell
  cases field with
  | requiredOut => cases dependent
  | requiredIn =>
    rcases List.mem_append.mp dependent with site | outside
    · obtain ⟨b, caller, member⟩ := List.mem_flatMap.mp site
      obtain ⟨_, block, found, _, _⟩ := mem_callersOf.mp caller
      exact wf.siteEntities_subset_initialEntities found member
    · split at outside
      · rw [List.mem_singleton.mp outside]
        exact slotBound _ callingExternal_lt
      · split at outside
        · rw [List.mem_singleton.mp outside]
          exact slotBound _ callsExternal_lt
        · cases outside
  | returnLive =>
    rcases List.mem_append.mp dependent with exit | outside
    · exact wf.exitEntities_subset_initialEntities exit
    · split at outside
      case isFalse => cases outside
      case isTrue =>
        obtain ⟨slot, external, rfl⟩ := List.mem_map.mp outside
        obtain ⟨_, function, found, _⟩ := wf.mem_externalFunctions.mp external
        exact slotBound slot (Nat.lt_add_right 2 (lt_of_function? found))
  | liveOut =>
    simp only [Setting.dependents, setting_block?] at dependent
    split at dependent
    case h_2 => cases dependent
    case h_1 block found =>
      split at dependent
      case isFalse => cases dependent
      case isTrue call =>
        obtain ⟨slot, callee, rfl⟩ := List.mem_map.mp dependent
        exact slotBound slot (wf.lt_of_mem_callees found call callee)
  | liveIn =>
    obtain ⟨b, predecessor, rfl⟩ := List.mem_map.mp dependent
    obtain ⟨_, block, found, successor⟩ := mem_predecessorsOf.mp predecessor
    obtain ⟨next, foundNext, sameFunction⟩ := (wf.block found).successors _ successor
    refine Setting.block_mem_initialEntities.mpr ⟨lt_of_block? found, ?_⟩
    have notOpaque := (Setting.block_mem_initialEntities.mp solved).2
    rwa [isOpaqueBlock_eq foundNext, sameFunction, ← isOpaqueBlock_eq found] at notOpaque

end WellFormed

end Program

end CapLiveness
