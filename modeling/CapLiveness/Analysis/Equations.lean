import CapLiveness.Analysis.Graph
import CapLiveness.Analysis.Tables
import CapLiveness.Analysis.Uses

/-!
# The equations of the analysis

The analysis solves two coupled problems. Over the call graph it computes what
each function and its callees may need. Over each control-flow graph it computes
what is live at the ends of each block: a call site needs what its callees need,
and the exit block of a function needs what the callers still need after the call
returns. Calls whose targets are not fully known go through the slot of outside
code, which may call back any function that can be entered from outside.

The equations of an entity (`transfer`) give, for each of its cells, the set that
the cell has to contain. The dependents of a cell (`dependents`) are the entities
whose equations read it.
-/

set_option autoImplicit false

namespace CapLiveness

/-- What the analysis visits: the function in a slot, or a block. -/
inductive Entity where
  | function (slot : Nat)
  | block (index : Nat)
deriving DecidableEq

/-- The program with what is known of it before the equations are solved. -/
structure Setting where
  program : Program
  graph : Graph
  uses : Uses

/-- The union of the sets that a list of things stands for. -/
def unionOf {α : Type} (items : List α) (set : α → CapSet) : CapSet :=
  items.foldl (fun union item => union ∪ set item) ∅

theorem mem_foldl_union {α : Type} {items : List α} {set : α → CapSet} {start : CapSet} {k : Nat} :
    k ∈ items.foldl (fun union item => union ∪ set item) start ↔
      k ∈ start ∨ ∃ item ∈ items, k ∈ set item := by
  induction items generalizing start with
  | nil => simp
  | cons first rest ih => simp [ih, CapSet.mem_union, or_assoc]

/-- A kind is in the union exactly when it is in one of the sets. -/
@[simp] theorem mem_unionOf {α : Type} {items : List α} {set : α → CapSet} {k : Nat} :
    k ∈ unionOf items set ↔ ∃ item ∈ items, k ∈ set item := by
  simp [unionOf, mem_foldl_union, CapSet.not_mem_empty]

namespace Setting

/-! ## Parts of the program by position -/

/-- The block at a position. -/
def block? (s : Setting) (b : Nat) : Option Block := s.program.blocks[b]?

/-- Whether a block belongs to an opaque function. -/
def isOpaqueBlock (s : Setting) (b : Nat) : Bool :=
  match s.block? b with
  | some block => s.uses.isOpaque block.function.toNat
  | none => false

/-- The slots of functions that are not opaque. -/
def openSlots (s : Setting) : List Nat :=
  (List.range s.graph.slotCount).filter (!s.uses.isOpaque ·)

/-- The blocks of functions that are not opaque, with their positions. -/
def openBlocks (s : Setting) : List (Block × Nat) :=
  s.program.blockEntries.filter fun entry => !s.uses.isOpaque entry.1.function.toNat

/-- The slots that a block may enter by its call. -/
def callees (s : Setting) (block : Block) : List Nat :=
  calleeSlots s.graph.functionCount block.target

/-! ## Transfer functions -/

/-- What the callees of a block may need. -/
def calleeRequired (s : Setting) (t : Tables) (block : Block) : CapSet :=
  unionOf (s.callees block) fun slot => t.get ⟨.requiredIn, slot⟩

/-- What the callees of the function in a slot may need. Callers outside the
program may enter any function that can be entered from outside, and an unknown
callee may call back. -/
def requiredOut (s : Setting) (t : Tables) (slot : Nat) : CapSet :=
  if slot = s.graph.callingExternal then
    unionOf s.graph.external fun f => t.get ⟨.requiredIn, f⟩
  else if slot = s.graph.callsExternal then t.get ⟨.requiredIn, s.graph.callingExternal⟩
  else unionOf ((s.graph.sitesOf slot).filterMap s.block?) (s.calleeRequired t)

/-- What the function in a slot may need from its entry on. -/
def requiredIn (s : Setting) (t : Tables) (slot : Nat) : CapSet :=
  s.requiredOut t slot ∪ s.uses.ofSlot.getD slot ∅

/-- What the callers of the function in a slot may need after it returns. -/
def returnLive (s : Setting) (t : Tables) (slot : Nat) : CapSet :=
  let known := unionOf (s.graph.callersOf slot) fun b => t.get ⟨.liveOut, b⟩
  if s.graph.isExternal slot then known ∪ t.get ⟨.returnLive, s.graph.callsExternal⟩ else known

/-- Whether a block is the exit block of its function. -/
def isExitBlock (s : Setting) (b : Nat) (block : Block) : Bool :=
  match s.program.function? block.function with
  | some f => f.exit == Int.ofNat b
  | none => false

/-- What is live on exit from a block. -/
def liveOut (s : Setting) (t : Tables) (b : Nat) (block : Block) : CapSet :=
  let next := unionOf (block.successors.filter (0 ≤ ·)) fun successor =>
    t.get ⟨.liveIn, successor.toNat⟩
  if s.isExitBlock b block then next ∪ t.get ⟨.returnLive, block.function.toNat⟩ else next

/-- What is live on entry to a block. -/
def liveIn (s : Setting) (t : Tables) (b : Nat) (block : Block) : CapSet :=
  let own := s.liveOut t b block ∪ s.uses.ofBlock.getD b ∅
  if block.kind = .call then own ∪ s.calleeRequired t block else own

/-- What the cells of an entity have to contain, in the order in which they grow. -/
def transfer (s : Setting) (t : Tables) : Entity → List (Cell × CapSet)
  | .function slot =>
    [(⟨.requiredOut, slot⟩, s.requiredOut t slot), (⟨.requiredIn, slot⟩, s.requiredIn t slot),
      (⟨.returnLive, slot⟩, s.returnLive t slot)]
  | .block b =>
    match s.block? b with
    | some block =>
      [(⟨.liveOut, b⟩, s.liveOut t b block), (⟨.liveIn, b⟩, s.liveIn t b block)]
    | none => []

/-! ## Dependents -/

/-- A call site and the function it belongs to; the site only when its function
is not opaque. -/
def siteEntities (s : Setting) (b : Nat) : List Entity :=
  match s.block? b with
  | some block =>
    let owner := Entity.function block.function.toNat
    if s.isOpaqueBlock b then [owner] else [.block b, owner]
  | none => []

/-- The exit block of the function in a slot, unless the function is opaque. -/
def exitEntities (s : Setting) (slot : Nat) : List Entity :=
  match s.program.functions[slot]? with
  | some f => if 0 ≤ f.exit ∧ !s.uses.isOpaque slot then [.block f.exit.toNat] else []
  | none => []

/-- The entities to visit again after a cell has grown. -/
def dependents (s : Setting) (cell : Cell) : List Entity :=
  match cell.field with
  | .requiredOut => []
  | .requiredIn =>
    (s.graph.callersOf cell.index).flatMap s.siteEntities ++
      if s.graph.isExternal cell.index then [.function s.graph.callingExternal]
      else if cell.index = s.graph.callingExternal then [.function s.graph.callsExternal]
      else []
  | .returnLive =>
    s.exitEntities cell.index ++
      if cell.index = s.graph.callsExternal then s.graph.external.map .function else []
  | .liveOut =>
    match s.block? cell.index with
    | some block => if block.kind = .call then (s.callees block).map .function else []
    | none => []
  | .liveIn => (s.graph.predecessorsOf cell.index).map .block

end Setting

end CapLiveness
