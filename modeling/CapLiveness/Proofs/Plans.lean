import CapLiveness.Plan
import CapLiveness.Proofs.Drops

/-!
# What plans revoke

A plan revokes, at the start and at the end of blocks, the wanted part of the drop
sets of a result (`Plan.mem_insertions_iff`). In solved results a drop set at the
start of a block holds nothing that is live on entry to the block, a drop set at its
end nothing that is live on exit from it, and the entry drop nothing that the entry
function requires. So a plan for a solved result never revokes what is live and
required from the start of the process on (`Result.IsSolved.not_mem_revoked_start`,
`Result.IsSolved.not_mem_revoked_end`). A plan without a restriction revokes whatever is
in a drop set (`Plan.mem_revoked_of_dropEnd`, `Plan.mem_revoked_of_dropStart`,
`Plan.mem_revoked_of_entryDrop`).
-/

set_option autoImplicit false

namespace CapLiveness

namespace Plan

/-- Everything that a plan revokes at some positions of a block. -/
def revoked (plan : Plan) (positions : List Position) (b : BlockId) : CapSet :=
  unionOf (plan.insertions.filter fun i => i.block == b && positions.contains i.position)
    Insertion.kinds

theorem mem_revoked {plan : Plan} {positions : List Position} {b : BlockId} {k : Nat} :
    k ∈ plan.revoked positions b ↔
      ∃ i ∈ plan.insertions, i.block = b ∧ i.position ∈ positions ∧ k ∈ i.kinds := by
  simp [revoked, and_assoc]

/-- A call revokes a part of its set. -/
theorem insertion?_eq_some {p : Program} {options : PlanOptions} {position : Position}
    {entry : BlockId × CapSet} {i : Insertion}
    (inserted : insertion? p options position entry = some i) :
    i.position = position ∧ i.block = entry.1 ∧ i.kinds ⊆ entry.2 := by
  simp only [insertion?, Option.ite_none_left_eq_some, Option.map_eq_some_iff] at inserted
  obtain ⟨_, block, _, rfl⟩ := inserted
  refine ⟨rfl, rfl, ?_⟩
  intro k member
  dsimp only at member
  split at member
  · exact (CapSet.mem_inter.mp member).1
  · exact member

/-- The calls of a plan are those for the entry drop and the drop sets. -/
theorem mem_insertions_iff {r : Result} {options : PlanOptions} {i : Insertion} :
    i ∈ (ofResult r options).insertions ↔
      (∃ entry ∈ entryDrops r, insertion? r.program options .processStart entry = some i) ∨
        (∃ entry ∈ r.dropStart.entries,
          insertion? r.program options .blockStart entry = some i) ∨
        ∃ entry ∈ r.dropEnd.entries, insertion? r.program options .blockEnd entry = some i := by
  unfold ofResult
  dsimp only
  rw [(List.mergeSort_perm _ _).mem_iff, List.mem_append, List.mem_append, List.mem_filterMap,
    List.mem_filterMap, List.mem_filterMap, or_assoc]

/-- The entry drop is revoked in the first block of the entry function. -/
theorem mem_entryDrops_iff {r : Result} {entry : BlockId × CapSet} :
    entry ∈ entryDrops r ↔
      ∃ function, r.program.function? r.program.entry = some function ∧
        function.blocks.head? = some entry.1 ∧ entry.2 = r.entryDrop := by
  unfold entryDrops
  cases r.program.function? r.program.entry with
  | none => simp
  | some function =>
    cases first : function.blocks.head? <;> simp [first, Prod.ext_iff, eq_comm]

/-! Unrestricted plans revoke everything in the drop sets. -/

section Unrestricted

variable {r : Result} {options : PlanOptions} (unrestricted : options.only = none) {b : BlockId}
  {block : Block} (found : r.program.block? b = some block) {k : Nat}
include unrestricted found

theorem insertion?_of_unrestricted (position : Position) {kinds : CapSet} (member : k ∈ kinds) :
    insertion? r.program options position (b, kinds) =
      some ⟨position, block.function, b, kinds⟩ := by
  have nonempty : ¬ kinds.isEmpty = true := fun empty =>
    CapSet.isEmpty_iff_forall.mp empty k member
  simp only [insertion?, unrestricted, found, if_neg nonempty, Option.map_some]

theorem mem_revoked_of_dropEnd (member : k ∈ r.dropEnd.get b) :
    k ∈ (ofResult r options).revoked [.blockEnd] b := by
  obtain ⟨kinds, entered, inKinds⟩ := Drops.exists_entry_of_mem_get member
  have call := insertion?_of_unrestricted unrestricted found .blockEnd inKinds
  have inserted := mem_insertions_iff.mpr (.inr (.inr ⟨_, entered, call⟩))
  exact mem_revoked.mpr ⟨_, inserted, rfl, List.mem_singleton.mpr rfl, inKinds⟩

theorem mem_revoked_of_dropStart (member : k ∈ r.dropStart.get b) :
    k ∈ (ofResult r options).revoked [.processStart, .blockStart] b := by
  obtain ⟨kinds, entered, inKinds⟩ := Drops.exists_entry_of_mem_get member
  have call := insertion?_of_unrestricted unrestricted found .blockStart inKinds
  have inserted := mem_insertions_iff.mpr (.inr (.inl ⟨_, entered, call⟩))
  exact mem_revoked.mpr ⟨_, inserted, rfl, by simp, inKinds⟩

theorem mem_revoked_of_entryDrop {function : Function}
    (isEntry : r.program.function? r.program.entry = some function)
    (isFirst : function.blocks.head? = some b) (member : k ∈ r.entryDrop) :
    k ∈ (ofResult r options).revoked [.processStart, .blockStart] b := by
  have entered : (b, r.entryDrop) ∈ entryDrops r :=
    mem_entryDrops_iff.mpr ⟨function, isEntry, isFirst, rfl⟩
  have call := insertion?_of_unrestricted unrestricted found .processStart member
  have inserted := mem_insertions_iff.mpr (.inl ⟨_, entered, call⟩)
  exact mem_revoked.mpr ⟨_, inserted, rfl, by simp, member⟩

end Unrestricted

end Plan

namespace Result.IsSolved

variable {r : Result} {p : Program} (solved : r.IsSolved p) {options : PlanOptions} {k b : Nat}
include solved

/-- **What is live on entry to a block and required by the entry function is not revoked
there.** -/
theorem not_mem_revoked_start (live : p.setting.Flows k ⟨.liveIn, b⟩) {entry : Nat}
    (isEntry : p.entry = Int.ofNat entry) (bound : entry < p.functions.size)
    (required : p.setting.Flows k ⟨.requiredIn, entry⟩) :
    k ∉ (Plan.ofResult r options).revoked [.processStart, .blockStart] (Int.ofNat b) := by
  intro revoked
  obtain ⟨i, inserted, atBlock, atStart, member⟩ := Plan.mem_revoked.mp revoked
  rcases Plan.mem_insertions_iff.mp inserted with
    ⟨drop, isDrop, call⟩ | ⟨drop, isDrop, call⟩ | ⟨drop, _, call⟩
  · obtain ⟨_, _, part⟩ := Plan.insertion?_eq_some call
    obtain ⟨_, _, _, isEntryDrop⟩ := Plan.mem_entryDrops_iff.mp isDrop
    have dropped := part k member
    rw [isEntryDrop, solved.entryDrop_eq isEntry bound, CapSet.mem_sdiff] at dropped
    exact dropped.2 (solved.mem_get.mpr required)
  · obtain ⟨_, block, part⟩ := Plan.insertion?_eq_some call
    rw [solved.dropStart, Setting.dropsAtStart, Drops.mem_entries_ofBlocks] at isDrop
    obtain ⟨b', _, _, rfl⟩ := isDrop
    obtain rfl : b' = b := Int.ofNat.inj (block.symm.trans atBlock)
    obtain ⟨_, _, dropped⟩ := mem_unionOf.mp (part k member)
    exact (CapSet.mem_sdiff.mp dropped).2 (solved.mem_get.mpr live)
  · rw [(Plan.insertion?_eq_some call).1] at atStart
    exact absurd atStart (by decide)

/-- **What is live on exit from a block is not revoked there.** -/
theorem not_mem_revoked_end (live : p.setting.Flows k ⟨.liveOut, b⟩) :
    k ∉ (Plan.ofResult r options).revoked [.blockEnd] (Int.ofNat b) := by
  intro revoked
  obtain ⟨i, inserted, atBlock, atEnd, member⟩ := Plan.mem_revoked.mp revoked
  rcases Plan.mem_insertions_iff.mp inserted with
    ⟨drop, _, call⟩ | ⟨drop, _, call⟩ | ⟨drop, isDrop, call⟩
  · rw [(Plan.insertion?_eq_some call).1] at atEnd
    exact absurd atEnd (by decide)
  · rw [(Plan.insertion?_eq_some call).1] at atEnd
    exact absurd atEnd (by decide)
  · obtain ⟨_, block, part⟩ := Plan.insertion?_eq_some call
    rw [solved.dropEnd, Setting.dropsAtEnd, Drops.mem_entries_ofBlocks] at isDrop
    obtain ⟨b', _, _, rfl⟩ := isDrop
    obtain rfl : b' = b := Int.ofNat.inj (block.symm.trans atBlock)
    have dropped := part k member
    dsimp only [Setting.dropAtEnd] at dropped
    split at dropped
    · exact CapSet.not_mem_empty k dropped
    · exact (CapSet.mem_sdiff.mp dropped).2 (solved.mem_get.mpr live)

end Result.IsSolved

/-- A skipped analysis revokes nothing. -/
theorem Plan.not_mem_revoked_of_skipped {s : Setting} {options : PlanOptions}
    {positions : List Position} {b : BlockId} {k : Nat} :
    k ∉ (Plan.ofResult s.skippedResult options).revoked positions b := by
  intro revoked
  obtain ⟨i, inserted, _, _, member⟩ := Plan.mem_revoked.mp revoked
  rcases Plan.mem_insertions_iff.mp inserted with
    ⟨drop, isDrop, call⟩ | ⟨drop, isDrop, _⟩ | ⟨drop, isDrop, _⟩
  · obtain ⟨_, _, part⟩ := Plan.insertion?_eq_some call
    obtain ⟨_, _, _, isEntryDrop⟩ := Plan.mem_entryDrops_iff.mp isDrop
    have dropped := part k member
    rw [isEntryDrop] at dropped
    exact CapSet.not_mem_empty k dropped
  · cases isDrop
  · cases isDrop

end CapLiveness
