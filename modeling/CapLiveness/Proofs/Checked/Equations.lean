import CapLiveness.Proofs.Checked.Setting

/-!
# The equations, with checked lookups

The equations of an entity and the readers of a cell, where every table is read by a
lookup that may fail: at the slots of callees and call sites, at successors and
predecessors, at the function of a block and its exit block.

What the lookups need to succeed is that the setting fits its program (`Fits`), that the
tables have a set for each slot and block (`Sized`), and that the entity is one of the
program (`HasEntity`). Then the equations and the readers are the ones that run
(`transfer_eq_some`, `dependents_eq_some`).
-/

set_option autoImplicit false

namespace CapLiveness.Checked

/-! ## Equations -/

/-- The set in a cell, if there is such a cell. -/
def read (t : Tables) (cell : Cell) : Option CapSet := (t.column cell.field)[cell.index]?

/-- The union of the sets that are found for a list of things, if all of them are. -/
def unionOf {α : Type} (items : List α) (set : α → Option CapSet) : Option CapSet :=
  (items.mapM set).map fun sets => CapLiveness.unionOf sets id

/-- What the callees of a block may need. -/
def calleeRequired (s : Setting) (t : Tables) (block : Block) : Option CapSet := do
  let callees ← calleeSlots s.graph.functionCount block.target
  unionOf callees fun slot => read t ⟨.requiredIn, slot⟩

/-- What the callees of the function in a slot may need. -/
def requiredOut (s : Setting) (t : Tables) (slot : Nat) : Option CapSet :=
  if slot = s.graph.callingExternal then
    unionOf s.graph.external fun f => read t ⟨.requiredIn, f⟩
  else if slot = s.graph.callsExternal then read t ⟨.requiredIn, s.graph.callingExternal⟩
  else do
    let sites ← s.graph.sites[slot]?
    let blocks ← sites.mapM s.block?
    unionOf blocks (calleeRequired s t)

/-- What the function in a slot may need from its entry on. -/
def requiredIn (s : Setting) (t : Tables) (slot : Nat) : Option CapSet := do
  let out ← requiredOut s t slot
  let own ← s.uses.ofSlot[slot]?
  some (out ∪ own)

/-- Whether the function in a slot can be entered from outside the program. -/
def isExternal (s : Setting) (slot : Nat) : Option Bool := s.graph.externalSlots[slot]?

/-- What the callers of the function in a slot may need after it returns. -/
def returnLive (s : Setting) (t : Tables) (slot : Nat) : Option CapSet := do
  let callers ← s.graph.callers[slot]?
  let known ← unionOf callers fun b => read t ⟨.liveOut, b⟩
  let external ← isExternal s slot
  if external then (read t ⟨.returnLive, s.graph.callsExternal⟩).map (known ∪ ·) else some known

/-- What is live on exit from a block. -/
def liveOut (s : Setting) (t : Tables) (b : Nat) (block : Block) : Option CapSet := do
  let next ← unionOf block.successors (entryAt? t.liveIn)
  let function ← s.program.function? block.function
  if function.exit = Int.ofNat b then (entryAt? t.returnLive block.function).map (next ∪ ·)
  else some next

/-- What is live on entry to a block. -/
def liveIn (s : Setting) (t : Tables) (b : Nat) (block : Block) : Option CapSet := do
  let out ← liveOut s t b block
  let own ← s.uses.ofBlock[b]?
  if block.kind = .call then (calleeRequired s t block).map (out ∪ own ∪ ·) else some (out ∪ own)

/-- What the cells of an entity have to contain, in the order in which they grow. -/
def transfer (s : Setting) (t : Tables) : Entity → Option (List (Cell × CapSet))
  | .function slot => do
    let out ← requiredOut s t slot
    let all ← requiredIn s t slot
    let later ← returnLive s t slot
    some [(⟨.requiredOut, slot⟩, out), (⟨.requiredIn, slot⟩, all), (⟨.returnLive, slot⟩, later)]
  | .block b => do
    let block ← s.block? b
    let after ← liveOut s t b block
    let before ← liveIn s t b block
    some [(⟨.liveOut, b⟩, after), (⟨.liveIn, b⟩, before)]

/-! ## Readers -/

/-- Whether a block belongs to an opaque function. -/
def isOpaqueBlock (s : Setting) (b : Nat) : Option Bool := do
  let block ← s.block? b
  entryAt? s.uses.opaqueSlots block.function

/-- A call site and the function it belongs to; the site only when its function
is not opaque. -/
def siteEntities (s : Setting) (b : Nat) : Option (List Entity) := do
  let block ← s.block? b
  let isOpaque ← isOpaqueBlock s b
  let owner ← slotOf? s.graph.functionCount block.function
  some (if isOpaque then [.function owner] else [.block b, .function owner])

/-- The exit block of the function in a slot, unless the function is opaque. -/
def exitEntities (s : Setting) (slot : Nat) : Option (List Entity) :=
  if slot < s.graph.functionCount then do
    let function ← s.program.functions[slot]?
    let isOpaque ← s.uses.opaqueSlots[slot]?
    if function.exit = BlockId.absent then some []
    else
      (s.program.block? function.exit).map fun _ =>
        if isOpaque then [] else [.block function.exit.toNat]
  else some []

/-- The entities to visit again after a cell has grown. -/
def dependents (s : Setting) (cell : Cell) : Option (List Entity) :=
  match cell.field with
  | .requiredOut => some []
  | .requiredIn => do
    let callers ← s.graph.callers[cell.index]?
    let sites ← callers.mapM (siteEntities s)
    let external ← isExternal s cell.index
    some (sites.flatten ++
      if external then [.function s.graph.callingExternal]
      else if cell.index = s.graph.callingExternal then [.function s.graph.callsExternal]
      else [])
  | .returnLive => do
    let exits ← exitEntities s cell.index
    some (exits ++
      if cell.index = s.graph.callsExternal then s.graph.external.map .function else [])
  | .liveOut => do
    let block ← s.block? cell.index
    if block.kind = .call then
      (calleeSlots s.graph.functionCount block.target).map (·.map .function)
    else some []
  | .liveIn => (s.graph.predecessors[cell.index]?).map (·.map .block)

/-! ## Settings that fit -/

/-- A setting with the graph of its well-formed program, a mark for each slot, and an entry
for each slot and block in the tables of uses. -/
structure Fits (s : Setting) : Prop where
  wellFormed : s.program.WellFormed
  graph : s.graph = Graph.ofProgram s.program
  externalSlots : s.graph.externalSlots.size = s.graph.slotCount
  ofSlot : s.uses.ofSlot.size = s.graph.slotCount
  ofBlock : s.uses.ofBlock.size = s.program.blocks.size
  opaqueSlots : s.uses.opaqueSlots.size = s.graph.slotCount

/-- Tables with a set for each slot and block. -/
def Sized (s : Setting) (t : Tables) : Prop :=
  ∀ field, (t.column field).size = (s.initialTables.column field).size

/-- Whether an entity is a slot or a block of the program. -/
def HasEntity (s : Setting) : Entity → Prop
  | .function slot => slot < s.graph.slotCount
  | .block b => b < s.program.blocks.size

theorem getElem?_eq_getD {α : Type} {entries : Array α} {i : Nat} (bound : i < entries.size)
    (default : α) : entries[i]? = some (entries.getD i default) := by
  simp [Array.getD_eq_getD_getElem?, bound]

theorem unionOf_eq_some {α : Type} {items : List α} {set : α → Option CapSet} {total : α → CapSet}
    (found : ∀ item ∈ items, set item = some (total item)) :
    unionOf items set = some (CapLiveness.unionOf items total) := by
  rw [unionOf, mapM_eq_some found, Option.map_some, CapLiveness.unionOf, CapLiveness.unionOf,
    List.foldl_map]
  rfl

variable {s : Setting} {t : Tables}

theorem read_eq_some (sized : Sized s t) (cell : Cell) (has : HasEntity s cell.entity) :
    read t cell = some (t.get cell) := by
  refine getElem?_eq_getD ?_ ∅
  rw [sized cell.field]
  obtain ⟨field, index⟩ := cell
  cases field <;>
    simpa [Setting.initialTables, Tables.column, Tables.empty, HasEntity, Cell.entity] using has

namespace Fits

variable (fits : Fits s)
include fits

theorem functionCount : s.graph.functionCount = s.program.functions.size := by
  rw [fits.graph]
  rfl

theorem slotCount : s.graph.slotCount = s.program.functions.size + 2 := by
  rw [Graph.slotCount, fits.functionCount]

theorem sites {slot : Nat} (bound : slot < s.graph.slotCount) :
    s.graph.sites[slot]? = some (s.graph.sitesOf slot) := by
  refine getElem?_eq_getD ?_ []
  rw [fits.slotCount] at bound
  rwa [fits.graph, Graph.sites_ofProgram, size_rowsOf]

theorem callers {slot : Nat} (bound : slot < s.graph.slotCount) :
    s.graph.callers[slot]? = some (s.graph.callersOf slot) := by
  refine getElem?_eq_getD ?_ []
  rw [fits.slotCount] at bound
  rwa [fits.graph, Graph.callers_ofProgram, size_rowsOf]

theorem predecessors {b : Nat} (bound : b < s.program.blocks.size) :
    s.graph.predecessors[b]? = some (s.graph.predecessorsOf b) := by
  refine getElem?_eq_getD ?_ []
  rwa [fits.graph, Graph.predecessors_ofProgram, size_rowsOf]

theorem isExternal {slot : Nat} (bound : slot < s.graph.slotCount) :
    Checked.isExternal s slot = some (s.graph.isExternal slot) :=
  getElem?_eq_getD (by rwa [fits.externalSlots]) false

theorem exists_site {slot b : Nat} (site : b ∈ s.graph.sitesOf slot) :
    ∃ block, s.block? b = some block ∧ block.kind = .call := by
  rw [fits.graph] at site
  obtain ⟨_, block, found, call, _⟩ := Program.mem_sitesOf.mp site
  exact ⟨block, found, call⟩

theorem exists_caller {slot b : Nat} (caller : b ∈ s.graph.callersOf slot) :
    ∃ block, s.block? b = some block ∧ block.kind = .call := by
  rw [fits.graph] at caller
  obtain ⟨_, block, found, call, _⟩ := Program.mem_callersOf.mp caller
  exact ⟨block, found, call⟩

theorem lt_of_mem_external {slot : Nat} (external : slot ∈ s.graph.external) :
    slot < s.graph.functionCount := by
  rw [fits.graph] at external
  obtain ⟨_, function, found, _⟩ := fits.wellFormed.mem_externalFunctions.mp external
  rw [fits.functionCount]
  exact Program.lt_of_function? found

theorem calleeSlots {b : Nat} {block : Block} (found : s.block? b = some block)
    (call : block.kind = .call) :
    Checked.calleeSlots s.graph.functionCount block.target = some (s.callees block) := by
  rw [Setting.callees, fits.functionCount]
  exact calleeSlots_eq_some (b := Int.ofNat b) fits.wellFormed found call

theorem lt_of_mem_callees {b : Nat} {block : Block} (found : s.block? b = some block)
    (call : block.kind = .call) {slot : Nat} (callee : slot ∈ s.callees block) :
    slot < s.graph.slotCount := by
  rw [Setting.callees, fits.functionCount] at callee
  rw [fits.slotCount]
  exact fits.wellFormed.lt_of_mem_callees found call callee

/-- The function of a block has the slot of its position. -/
theorem exists_owner {b : Nat} {block : Block} (found : s.block? b = some block) :
    ∃ (i : Nat) (function : Function), block.function = Int.ofNat i ∧
      i < s.graph.functionCount ∧ s.program.functions[i]? = some function := by
  obtain ⟨function, foundOwner⟩ := fits.wellFormed.owner (b := Int.ofNat b) found
  obtain ⟨i, same, inside⟩ := entryAt?_eq_some_iff.mp foundOwner
  refine ⟨i, function, same, ?_, inside⟩
  rw [fits.functionCount]
  exact Program.lt_of_function? inside

theorem exists_successor {b : Nat} {block : Block} (found : s.block? b = some block)
    {successor : BlockId} (follows : successor ∈ block.successors) :
    ∃ next : Nat, successor = Int.ofNat next ∧ next < s.program.blocks.size := by
  obtain ⟨_, foundNext, _⟩ :=
    (fits.wellFormed.block (b := Int.ofNat b) found).successors successor follows
  obtain ⟨next, same, inside⟩ := entryAt?_eq_some_iff.mp foundNext
  exact ⟨next, same, Program.lt_of_block? inside⟩

theorem isOpaqueSlot {slot : Nat} (bound : slot < s.graph.slotCount) :
    s.uses.opaqueSlots[slot]? = some (s.uses.isOpaque slot) :=
  getElem?_eq_getD (by rwa [fits.opaqueSlots]) false

theorem isOpaqueOwner {b : Nat} {block : Block} (found : s.block? b = some block) :
    entryAt? s.uses.opaqueSlots block.function = some (s.uses.isOpaque block.function.toNat) := by
  obtain ⟨i, _, same, bound, _⟩ := fits.exists_owner found
  rw [same]
  exact fits.isOpaqueSlot (Nat.lt_add_right 2 bound)

theorem isOpaqueBlock {b : Nat} (bound : b < s.program.blocks.size) :
    Checked.isOpaqueBlock s b = some (s.isOpaqueBlock b) := by
  have found : s.block? b = some s.program.blocks[b] := Array.getElem?_eq_getElem bound
  rw [Checked.isOpaqueBlock, Setting.isOpaqueBlock, found]
  exact fits.isOpaqueOwner found

/-! ## Equations of entities that are there -/

theorem calleeRequired (sized : Sized s t) {b : Nat} {block : Block}
    (found : s.block? b = some block) (call : block.kind = .call) :
    Checked.calleeRequired s t block = some (s.calleeRequired t block) := by
  rw [Checked.calleeRequired, fits.calleeSlots found call, Option.bind_eq_bind, Option.bind_some]
  refine unionOf_eq_some ?_
  intro slot callee
  exact read_eq_some sized _ (fits.lt_of_mem_callees found call callee)

theorem requiredOut (sized : Sized s t) {slot : Nat} (bound : slot < s.graph.slotCount) :
    Checked.requiredOut s t slot = some (s.requiredOut t slot) := by
  rw [Checked.requiredOut, Setting.requiredOut]
  split
  · refine unionOf_eq_some ?_
    intro f external
    exact read_eq_some sized _ (Nat.lt_add_right 2 (fits.lt_of_mem_external external))
  · split
    · exact read_eq_some sized _ (Nat.lt_succ_self _)
    · have blocks : ∀ b ∈ s.graph.sitesOf slot, (s.block? b).isSome = true := by
        intro b site
        obtain ⟨block, found, _⟩ := fits.exists_site site
        rw [found]
        rfl
      rw [fits.sites bound, Option.bind_eq_bind, Option.bind_some, mapM_eq_filterMap blocks,
        Option.bind_eq_bind, Option.bind_some]
      refine unionOf_eq_some ?_
      intro block member
      obtain ⟨b, site, found⟩ := List.mem_filterMap.mp member
      obtain ⟨_, same, call⟩ := fits.exists_site site
      rw [found, Option.some.injEq] at same
      exact fits.calleeRequired sized found (same ▸ call)

theorem requiredIn (sized : Sized s t) {slot : Nat} (bound : slot < s.graph.slotCount) :
    Checked.requiredIn s t slot = some (s.requiredIn t slot) := by
  rw [Checked.requiredIn, fits.requiredOut sized bound,
    getElem?_eq_getD (by rwa [fits.ofSlot]) ∅]
  rfl

theorem returnLive (sized : Sized s t) {slot : Nat} (bound : slot < s.graph.slotCount) :
    Checked.returnLive s t slot = some (s.returnLive t slot) := by
  have known : unionOf (s.graph.callersOf slot) (fun b => read t ⟨.liveOut, b⟩) =
      some (CapLiveness.unionOf (s.graph.callersOf slot) fun b => t.get ⟨.liveOut, b⟩) := by
    refine unionOf_eq_some ?_
    intro b caller
    obtain ⟨block, found, _⟩ := fits.exists_caller caller
    exact read_eq_some sized _ (Program.lt_of_block? found)
  have outside : read t ⟨.returnLive, s.graph.callsExternal⟩ =
      some (t.get ⟨.returnLive, s.graph.callsExternal⟩) :=
    read_eq_some sized _ (Nat.lt_add_of_pos_right Nat.two_pos)
  simp only [Checked.returnLive, Setting.returnLive, fits.callers bound, known,
    fits.isExternal bound, outside, Option.bind_eq_bind, Option.bind_some, Option.map_some]
  split <;> rfl

theorem liveOut (sized : Sized s t) {b : Nat} {block : Block} (found : s.block? b = some block) :
    Checked.liveOut s t b block = some (s.liveOut t b block) := by
  obtain ⟨i, function, same, bound, foundOwner⟩ := fits.exists_owner found
  have allBlocks : block.successors.filter (0 ≤ ·) = block.successors := by
    refine List.filter_eq_self.mpr ?_
    intro successor follows
    obtain ⟨next, rfl, _⟩ := fits.exists_successor found follows
    exact decide_eq_true (Int.natCast_nonneg next)
  have next : unionOf block.successors (entryAt? t.liveIn) =
      some (CapLiveness.unionOf block.successors fun successor =>
        t.get ⟨.liveIn, successor.toNat⟩) := by
    refine unionOf_eq_some ?_
    intro successor follows
    obtain ⟨next, rfl, inside⟩ := fits.exists_successor found follows
    exact read_eq_some sized ⟨.liveIn, next⟩ inside
  have owner : s.program.function? block.function = some function := by
    rw [same]
    exact foundOwner
  have later : entryAt? t.returnLive block.function =
      some (t.get ⟨.returnLive, block.function.toNat⟩) := by
    rw [same]
    exact read_eq_some sized ⟨.returnLive, i⟩ (Nat.lt_add_right 2 bound)
  simp only [Checked.liveOut, Setting.liveOut, Setting.isExitBlock, allBlocks, next, owner, later,
    Option.bind_eq_bind, Option.bind_some, Option.map_some, beq_iff_eq]
  split <;> rfl

theorem liveIn (sized : Sized s t) {b : Nat} {block : Block} (found : s.block? b = some block) :
    Checked.liveIn s t b block = some (s.liveIn t b block) := by
  have own : s.uses.ofBlock[b]? = some (s.uses.ofBlock.getD b ∅) :=
    getElem?_eq_getD (by rw [fits.ofBlock]; exact Program.lt_of_block? found) ∅
  simp only [Checked.liveIn, Setting.liveIn, fits.liveOut sized found, own, Option.bind_eq_bind,
    Option.bind_some]
  split
  case isTrue call => rw [fits.calleeRequired sized found call, Option.map_some]
  case isFalse => rfl

/-- **The equations of an entity are evaluated without a failing lookup.** -/
theorem transfer_eq_some (sized : Sized s t) {entity : Entity} (has : HasEntity s entity) :
    transfer s t entity = some (s.transfer t entity) := by
  cases entity with
  | function slot =>
    simp only [transfer, fits.requiredOut sized has, fits.requiredIn sized has,
      fits.returnLive sized has, Option.bind_eq_bind, Option.bind_some]
    rfl
  | block b =>
    have found : s.block? b = some s.program.blocks[b] := Array.getElem?_eq_getElem has
    simp only [transfer, Setting.transfer, found, fits.liveOut sized found,
      fits.liveIn sized found, Option.bind_eq_bind, Option.bind_some]

/-! ## Readers of cells that are there -/

theorem siteEntities {b : Nat} {block : Block} (found : s.block? b = some block) :
    Checked.siteEntities s b = some (s.siteEntities b) := by
  obtain ⟨i, _, same, bound, _⟩ := fits.exists_owner found
  have slot : slotOf? s.graph.functionCount block.function = some block.function.toNat := by
    rw [same]
    exact slotOf?_ofNat bound
  simp only [Checked.siteEntities, Setting.siteEntities, found,
    fits.isOpaqueBlock (Program.lt_of_block? found), slot, Option.bind_eq_bind, Option.bind_some]

theorem exitEntities {slot : Nat} (bound : slot < s.graph.slotCount) :
    Checked.exitEntities s slot = some (s.exitEntities slot) := by
  rw [Checked.exitEntities]
  split
  case isFalse outside =>
    have none : s.program.functions[slot]? = none := by
      rw [Array.getElem?_eq_none_iff, ← fits.functionCount]
      exact Nat.not_lt.mp outside
    simp only [Setting.exitEntities, none]
  case isTrue inside =>
    rw [fits.functionCount] at inside
    have found := Array.getElem?_eq_getElem inside
    simp only [Setting.exitEntities, found, fits.isOpaqueSlot bound, Option.bind_eq_bind,
      Option.bind_some]
    rcases (fits.wellFormed.function (f := Int.ofNat slot) found).exit with absent | listed
    · rw [if_pos absent, absent]
      rfl
    · obtain ⟨block, foundExit, _⟩ :=
        fits.wellFormed.exists_listed (f := Int.ofNat slot) found listed
      obtain ⟨b, same, _⟩ := entryAt?_eq_some_iff.mp foundExit
      rw [foundExit, same]
      cases s.uses.isOpaque slot <;> simp [BlockId.absent]

/-- **The readers of a cell are found without a failing lookup.** -/
theorem dependents_eq_some {cell : Cell} (has : HasEntity s cell.entity) :
    dependents s cell = some (s.dependents cell) := by
  obtain ⟨field, index⟩ := cell
  cases field with
  | requiredOut => rfl
  | requiredIn =>
    have sites : (s.graph.callersOf index).mapM (Checked.siteEntities s) =
        some ((s.graph.callersOf index).map s.siteEntities) := by
      refine mapM_eq_some ?_
      intro b caller
      obtain ⟨block, found, _⟩ := fits.exists_caller caller
      exact fits.siteEntities found
    simp only [dependents, Setting.dependents, fits.callers has, sites, fits.isExternal has,
      Option.bind_eq_bind, Option.bind_some, List.flatMap_def]
  | returnLive =>
    simp only [dependents, Setting.dependents, fits.exitEntities has, Option.bind_eq_bind,
      Option.bind_some]
  | liveOut =>
    have found : s.block? index = some s.program.blocks[index] := Array.getElem?_eq_getElem has
    simp only [dependents, Setting.dependents, found, Option.bind_eq_bind, Option.bind_some]
    split
    case isTrue call => rw [fits.calleeSlots found call, Option.map_some]
    case isFalse => rfl
  | liveIn =>
    simp only [dependents, Setting.dependents, fits.predecessors has, Option.map_some]

end Fits

end CapLiveness.Checked
