import CapLiveness.Proofs.Solved

/-!
# What drop sets hold

Drop sets are kept for the blocks where there is something to drop. Looking up a block
gives its set in any case (`Drops.get_ofBlocks`), and whatever is found was entered
(`Drops.exists_entry_of_mem_get`).

In a solved result, what is live on entry to a block is live on exit from it or dropped
at its end (`IsSolved.liveOut_or_dropEnd`), and what is live on exit from a block is live
on entry to each successor or dropped at its start (`IsSolved.liveIn_or_dropStart`). What
is dropped is not live there any more.
-/

set_option autoImplicit false

namespace CapLiveness

namespace Drops

/-- The entries of drop sets that were made block by block. -/
theorem mem_entries_ofBlocks {count : Nat} {set : Nat → CapSet} {entry : BlockId × CapSet} :
    entry ∈ (Drops.ofBlocks count set).entries ↔
      ∃ b < count, (set b).isEmpty = false ∧ entry = (Int.ofNat b, set b) := by
  simp only [ofBlocks, List.mem_filterMap, List.mem_range]
  refine exists_congr fun b => and_congr_right fun _ => ?_
  cases (set b).isEmpty <;> simp [eq_comm]

theorem exists_entry_of_mem_get {d : Drops} {b : BlockId} {k : Nat} (member : k ∈ d.get b) :
    ∃ kinds, (b, kinds) ∈ d.entries ∧ k ∈ kinds := by
  unfold get at member
  split at member
  case h_1 entry found =>
    obtain rfl : entry.1 = b := by simpa using List.find?_some found
    exact ⟨entry.2, List.mem_of_find?_eq_some found, member⟩
  case h_2 => exact absurd member (CapSet.not_mem_empty k)

theorem get_ofBlocks {count : Nat} (set : Nat → CapSet) {b : Nat} (bound : b < count) :
    (ofBlocks count set).get (Int.ofNat b) = set b := by
  unfold get
  split
  case h_1 entry found =>
    obtain ⟨other, _, _, rfl⟩ := mem_entries_ofBlocks.mp (List.mem_of_find?_eq_some found)
    have same : Int.ofNat other = Int.ofNat b := by simpa using List.find?_some found
    rw [Int.ofNat.inj same]
  case h_2 missing =>
    -- A block without an entry has nothing to drop.
    cases empty : (set b).isEmpty with
    | true => exact (CapSet.isEmpty_iff.mp empty).symm
    | false =>
      have entered := mem_entries_ofBlocks.mpr ⟨b, bound, empty, rfl⟩
      exact absurd (List.find?_eq_none.mp missing _ entered) (by simp)

end Drops

namespace Result.IsSolved

variable {r : Result} {p : Program} (solved : r.IsSolved p) {k : Nat}
include solved

theorem mem_dropEnd_iff {b : Nat} {block : Block} (found : p.block? (Int.ofNat b) = some block) :
    k ∈ r.dropEnd.get (Int.ofNat b) ↔
      p.setting.isOpaqueBlock b = false ∧ p.setting.Flows k ⟨.liveIn, b⟩ ∧
        ¬ p.setting.Flows k ⟨.liveOut, b⟩ := by
  have bound : b < p.setting.program.blocks.size := Program.lt_of_block? found
  rw [solved.dropEnd, Setting.dropsAtEnd, Drops.get_ofBlocks _ bound, Setting.dropAtEnd]
  cases p.setting.isOpaqueBlock b <;> simp [solved.mem_get]

theorem mem_dropStart_iff {b : Nat} {block : Block}
    (found : p.block? (Int.ofNat b) = some block) :
    k ∈ r.dropStart.get (Int.ofNat b) ↔
      ¬ p.setting.Flows k ⟨.liveIn, b⟩ ∧ ∃ (c : Nat) (before : Block),
        p.block? (Int.ofNat c) = some before ∧ Int.ofNat b ∈ before.successors ∧
          p.setting.isOpaqueBlock c = false ∧ p.setting.Flows k ⟨.liveOut, c⟩ := by
  have bound : b < p.setting.program.blocks.size := Program.lt_of_block? found
  rw [solved.dropStart, Setting.dropsAtStart, Drops.get_ofBlocks _ bound, Setting.dropAtStart,
    mem_unionOf]
  simp only [List.mem_filter, CapSet.mem_sdiff, solved.mem_get, Bool.not_eq_true']
  constructor
  · rintro ⟨c, ⟨predecessor, isOpen⟩, live, dead⟩
    obtain ⟨_, before, foundBefore, successor⟩ := Program.mem_predecessorsOf.mp predecessor
    exact ⟨dead, c, before, foundBefore, successor, isOpen, live⟩
  · rintro ⟨dead, c, before, foundBefore, successor, isOpen, live⟩
    have predecessor := Program.mem_predecessorsOf.mpr ⟨bound, before, foundBefore, successor⟩
    exact ⟨c, ⟨predecessor, isOpen⟩, live, dead⟩

/-- What is live on entry to a block is live on exit from it, or dropped at its end. -/
theorem liveOut_or_dropEnd {b : Nat} {block : Block}
    (found : p.block? (Int.ofNat b) = some block) (live : p.setting.Flows k ⟨.liveIn, b⟩) :
    p.setting.Flows k ⟨.liveOut, b⟩ ∨ k ∈ r.dropEnd.get (Int.ofNat b) := by
  rw [solved.mem_dropEnd_iff found]
  cases givenUp : p.setting.isOpaqueBlock b with
  | true => exact .inl (.all givenUp (Program.mem_all_of_flows live))
  | false =>
    by_cases after : p.setting.Flows k ⟨.liveOut, b⟩
    · exact .inl after
    · exact .inr ⟨rfl, live, after⟩

/-- What is live on exit from a block is live on entry to a successor, or dropped at its
start. -/
theorem liveIn_or_dropStart {b next : Nat} {block : Block}
    (found : p.block? (Int.ofNat b) = some block) (successor : Int.ofNat next ∈ block.successors)
    (live : p.setting.Flows k ⟨.liveOut, b⟩) :
    p.setting.Flows k ⟨.liveIn, next⟩ ∨ k ∈ r.dropStart.get (Int.ofNat next) := by
  obtain ⟨after, foundNext, sameFunction⟩ := (solved.wellFormed.block found).successors _ successor
  rw [solved.mem_dropStart_iff foundNext]
  cases givenUp : p.setting.isOpaqueBlock b with
  | true =>
    -- An edge stays inside one function, so the successor is opaque as well.
    refine .inl (.all ?_ (Program.mem_all_of_flows live))
    show p.setting.isOpaqueBlock next = true
    rw [Program.isOpaqueBlock_eq foundNext, sameFunction, ← Program.isOpaqueBlock_eq found]
    exact givenUp
  | false =>
    by_cases needed : p.setting.Flows k ⟨.liveIn, next⟩
    · exact .inl needed
    · exact .inr ⟨needed, b, block, found, successor, givenUp, live⟩

end Result.IsSolved

end CapLiveness
