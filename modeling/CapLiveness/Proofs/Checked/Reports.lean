import CapLiveness.Analysis.Exposure
import CapLiveness.Plan
import CapLiveness.Proofs.Checked.Analysis

/-!
# Reports on results, with checked lookups

Verification, the count of live sets and the plan of revocation calls, where every set,
block and function is found by a lookup that may fail. About a result of the analysis they
say what is reported (`verify_eq_some`, `uniqueSets_eq_some`, `plan_eq_some`).
-/

set_option autoImplicit false

namespace CapLiveness.Checked

/-! ## Verification -/

/-- Whether visiting an entity would change nothing. -/
def isStable (s : Setting) (t : Tables) (entity : Entity) : Option Bool := do
  let demands ← transfer s t entity
  let held ← demands.mapM fun demand => (read t demand.1).map demand.2.subsetOf
  some (held.all id)

/-- The entities that would change if they were visited, opaque ones left out. -/
def unstable (s : Setting) (t : Tables) : Option (List Violation) := do
  let slots ← filter (fun slot => (s.uses.opaqueSlots[slot]?).map (!·))
    (List.range s.graph.slotCount)
  let unstableSlots ← filter (fun slot => (isStable s t (.function slot)).map (!·)) slots
  let blocks ← openBlocks s
  let unstableBlocks ← filter (fun b => (isStable s t (.block b)).map (!·)) (blocks.map (·.2))
  some (unstableSlots.map .unstableFunction ++ unstableBlocks.map .unstableBlock)

/-- What is wrong about the drop sets at the end of a block and on its edges. -/
def blockViolations (r : Result) (entry : Block × Nat) : Option (List Violation) := do
  let after ← read r.tables ⟨.liveOut, entry.2⟩
  let dropped := r.dropEnd.get (Int.ofNat entry.2) ∩ after
  let lost ← entry.1.successors.mapM fun successor =>
    (entryAt? r.tables.liveIn successor).map fun before =>
      let kinds := after \ (before ∪ r.dropStart.get successor)
      if kinds.isEmpty then [] else [.lostOnEdge entry.2 successor kinds]
  some ((if dropped.isEmpty then [] else [.dropsLive entry.2 dropped]) ++ lost.flatten)

/-- The entry drop, if it meets what the entry function needs. -/
def entryViolations (r : Result) : Option (List Violation) :=
  (requirement r.setting r.tables r.program.entry).map fun required =>
    if (r.entryDrop ∩ required).isEmpty then [] else [.entryDrop]

/-- The violations as one problem, if there are any. -/
def verify (r : Result) : Option (Option Problem) := do
  let unstable ← unstable r.setting r.tables
  let blocks ← openBlocks r.setting
  let violations ← blocks.mapM (blockViolations r)
  let entry ← entryViolations r
  some (Problem.ofCauses ((unstable ++ violations.flatten ++ entry).map fun violation =>
    .plain (violation.message r.program)))

variable {s : Setting} {t : Tables} {r : Result}

theorem isStable_eq_some (fits : Fits s) (sized : Sized s t) (entity : Entity)
    (has : HasEntity s entity) : isStable s t entity = some (s.isStable t entity) := by
  have held : (s.transfer t entity).mapM (fun demand => (read t demand.1).map demand.2.subsetOf) =
      some ((s.transfer t entity).map fun demand => demand.2.subsetOf (t.get demand.1)) := by
    refine mapM_eq_some ?_
    intro demand member
    rw [read_eq_some sized _ (by rwa [Setting.entity_of_mem_transfer member]), Option.map_some]
  rw [isStable, fits.transfer_eq_some sized has, Option.bind_eq_bind, Option.bind_some, held]
  simp [Setting.isStable, List.all_map]

theorem unstable_eq_some (fits : Fits s) (sized : Sized s t) :
    unstable s t = some (s.unstable t) := by
  have slots : filter (fun slot => (s.uses.opaqueSlots[slot]?).map (!·))
      (List.range s.graph.slotCount) = some s.openSlots := by
    refine filter_eq_some ?_
    intro slot member
    rw [fits.isOpaqueSlot (List.mem_range.mp member), Option.map_some]
  have unstableSlots : filter (fun slot => (isStable s t (.function slot)).map (!·)) s.openSlots =
      some (s.openSlots.filter fun slot => !s.isStable t (.function slot)) := by
    refine filter_eq_some ?_
    intro slot member
    rw [isStable_eq_some fits sized (.function slot) (Setting.mem_openSlots.mp member).1,
      Option.map_some]
  have unstableBlocks : filter (fun b => (isStable s t (.block b)).map (!·))
      (s.openBlocks.map (·.2)) =
        some ((s.openBlocks.map (·.2)).filter fun b => !s.isStable t (.block b)) := by
    refine filter_eq_some ?_
    intro b member
    obtain ⟨⟨block, b⟩, isOpen, rfl⟩ := List.mem_map.mp member
    rw [isStable_eq_some fits sized (.block b) (Setting.mem_openBlocks.mp isOpen).2.1,
      Option.map_some]
  simp only [unstable, slots, unstableSlots, openBlocks_eq_some fits, unstableBlocks,
    Option.bind_eq_bind, Option.bind_some]
  rfl

theorem blockViolations_eq_some (fits : Fits r.setting) (sized : Sized r.setting r.tables)
    {block : Block} {b : Nat} (found : r.setting.block? b = some block) :
    blockViolations r (block, b) =
      some (r.dropViolations b ++ block.successors.flatMap (r.edgeViolations b)) := by
  have after := read_eq_some sized ⟨.liveOut, b⟩ (Program.lt_of_block? found)
  have edges : block.successors.mapM (fun successor =>
      (entryAt? r.tables.liveIn successor).map fun before =>
        let kinds := r.tables.get ⟨.liveOut, b⟩ \ (before ∪ r.dropStart.get successor)
        if kinds.isEmpty then [] else [.lostOnEdge b successor kinds]) =
      some (block.successors.map (r.edgeViolations b)) := by
    refine mapM_eq_some ?_
    intro successor follows
    obtain ⟨next, rfl, inside⟩ := fits.exists_successor found follows
    have before : entryAt? r.tables.liveIn (Int.ofNat next) = some (r.tables.get ⟨.liveIn, next⟩) :=
      read_eq_some sized ⟨.liveIn, next⟩ inside
    rw [before]
    rfl
  simp only [blockViolations, after, edges, Option.bind_eq_bind, Option.bind_some,
    List.flatMap_def]
  rfl

theorem verify_eq_some (fits : ResultFits r) : verify r = some r.verify := by
  have violations : r.setting.openBlocks.mapM (blockViolations r) =
      some (r.setting.openBlocks.map fun entry =>
        r.dropViolations entry.2 ++ entry.1.successors.flatMap (r.edgeViolations entry.2)) := by
    refine mapM_eq_some ?_
    rintro ⟨block, b⟩ member
    exact blockViolations_eq_some fits.fits fits.sized (Setting.mem_openBlocks.mp member).1
  have entry : entryViolations r = some r.entryViolations :=
    congrArg (Option.map _) (requirement_entry fits.fits fits.sized)
  simp only [verify, unstable_eq_some fits.fits fits.sized, openBlocks_eq_some fits.fits,
    violations, entry, Option.bind_eq_bind, Option.bind_some, ← List.flatMap_def]
  rfl

/-! ## Live sets -/

/-- The distinct sets live on entry to the blocks of functions that are not
opaque, the most frequent first. -/
def uniqueSets (r : Result) : Option (List SetCount) := do
  let blocks ← openBlocks r.setting
  let sets ← blocks.mapM fun entry => read r.tables ⟨.liveIn, entry.2⟩
  let counts := sets.eraseDups.map fun s => SetCount.mk s (sets.filter (· == s)).length
  some (counts.mergeSort fun a b => a.compare b != .gt)

theorem uniqueSets_eq_some (fits : ResultFits r) : uniqueSets r = some r.uniqueSets := by
  have sets : r.setting.openBlocks.mapM (fun entry => read r.tables ⟨.liveIn, entry.2⟩) =
      some (r.openPositions.map r.liveAt) := by
    rw [Result.openPositions, List.map_map]
    refine mapM_eq_some ?_
    rintro ⟨block, b⟩ member
    exact read_eq_some fits.sized _ (Setting.mem_openBlocks.mp member).2.1
  simp only [uniqueSets, openBlocks_eq_some fits.fits, sets, Option.bind_eq_bind,
    Option.bind_some, List.filter_map, List.length_map]
  rfl

/-! ## Plans -/

/-- A call that revokes the wanted part of a set, if there is any. -/
def insertion (p : Program) (options : PlanOptions) (position : Position)
    (entry : BlockId × CapSet) : Option (Option Insertion) :=
  let kinds := match options.only with
    | some wanted => entry.2 ∩ wanted
    | none => entry.2
  if kinds.isEmpty then some none
  else (p.block? entry.1).map fun block => some ⟨position, block.function, entry.1, kinds⟩

/-- The first block of the entry function with the entry drop. -/
def entryDrops (r : Result) : Option (List (BlockId × CapSet)) :=
  (r.program.function? r.program.entry).map fun f =>
    if f.entryBlock = BlockId.absent then [] else [(f.entryBlock, r.entryDrop)]

/-- The plan for a result. -/
def plan (r : Result) (options : PlanOptions) : Option Plan := do
  let entry ← entryDrops r
  let first ← entry.mapM (insertion r.program options .processStart)
  let starts ← r.dropStart.entries.mapM (insertion r.program options .blockStart)
  let ends ← r.dropEnd.entries.mapM (insertion r.program options .blockEnd)
  some
    { program := r.program
      primitive := options.primitive
      insertions := ((first ++ starts ++ ends).filterMap id).mergeSort fun a b =>
        a.compare b != .gt }

theorem insertion_eq_some {p : Program} (options : PlanOptions) (position : Position)
    {entry : BlockId × CapSet} {block : Block} (found : p.block? entry.1 = some block) :
    insertion p options position entry = some (Plan.insertion? p options position entry) := by
  cases only : options.only with
  | none =>
    simp only [insertion, Plan.insertion?, only, found, Option.map_some]
    split <;> rfl
  | some wanted =>
    simp only [insertion, Plan.insertion?, only, found, Option.map_some]
    split <;> rfl

/-- The entry function has a first block. -/
theorem exists_first (wf : r.program.WellFormed) :
    ∃ (function : Function) (b : Nat) (block : Block),
      r.program.function? r.program.entry = some function ∧
        function.blocks.head? = some (Int.ofNat b) ∧
        r.program.block? (Int.ofNat b) = some block := by
  obtain ⟨function, found, nonempty⟩ := wf.entry
  obtain ⟨first, rest, blocks⟩ := List.exists_cons_of_ne_nil nonempty
  have listed : first ∈ function.blocks := blocks ▸ List.mem_cons_self
  obtain ⟨block, foundBlock, _⟩ := wf.exists_listed found listed
  obtain ⟨b, rfl, inside⟩ := entryAt?_eq_some_iff.mp foundBlock
  exact ⟨function, b, block, found, by rw [blocks, List.head?_cons], inside⟩

theorem plan_eq_some (fits : ResultFits r) (options : PlanOptions) :
    plan r options = some (Plan.ofResult r options) := by
  have calls : ∀ (position : Position) (entries : List (BlockId × CapSet)),
      (∀ entry ∈ entries, ∃ block, r.program.block? entry.1 = some block) →
      entries.mapM (insertion r.program options position) =
        some (entries.map (Plan.insertion? r.program options position)) := by
    intro position entries found
    refine mapM_eq_some ?_
    intro entry member
    obtain ⟨block, foundBlock⟩ := found entry member
    exact insertion_eq_some options position foundBlock
  obtain ⟨function, b, block, found, first, foundBlock⟩ := exists_first fits.fits.wellFormed
  have entry : entryDrops r = some [(Int.ofNat b, r.entryDrop)] := by
    simp [entryDrops, found, Function.entryBlock, List.headD_eq_head?_getD, first, BlockId.absent]
  have sameEntry : Plan.entryDrops r = [(Int.ofNat b, r.entryDrop)] := by
    simp [Plan.entryDrops, found, first]
  have atFirst : ∀ entry ∈ [(Int.ofNat b, r.entryDrop)],
      ∃ block, r.program.block? entry.1 = some block := by
    intro entry member
    rw [List.mem_singleton.mp member]
    exact ⟨block, foundBlock⟩
  simp only [plan, Plan.ofResult, entry, sameEntry, calls _ _ atFirst, calls _ _ fits.dropStart,
    calls _ _ fits.dropEnd, Option.bind_eq_bind, Option.bind_some, List.filterMap_append,
    List.filterMap_map, Function.id_comp]

end CapLiveness.Checked
