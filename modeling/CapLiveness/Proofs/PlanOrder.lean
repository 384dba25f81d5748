import CapLiveness.Command.Report
import CapLiveness.Proofs.Plans
import Mathlib.Data.List.Sort
import Mathlib.Data.Prod.Lex

/-!
# The canonical order of plans

The calls of a plan are collected from tables that may be visited in any order, and then
sorted by a comparison that treats the start of the process apart. That comparison is not
transitive on all calls: a position with a negative number comes before the start of the
process, which comes before everything else, whatever the blocks are. On the positions
that plans use it is the order of a rank (`Insertion.compare_ne_gt_iff`), and two calls
that a plan for an analysed program can hold are never equal in it (`Plan.IsDue.eq_of_eq`).

So every way to collect the calls and every way to sort them give the same list
(`Result.HasDrops.eq_insertions`): the only strictly increasing list of the calls that are
due. Without a restriction it reads, after the start of the process, like the rows of drop
sets in reports (`Result.HasDrops.sites_insertions`).
-/

set_option autoImplicit false

namespace CapLiveness

theorem CapSet.exists_mem_of_isEmpty {set : CapSet} (nonempty : set.isEmpty = false) :
    ∃ k, k ∈ set := by
  by_contra nothing
  have empty : set.isEmpty = true :=
    CapSet.isEmpty_iff_forall.mpr fun k member => nothing ⟨k, member⟩
  rw [empty] at nonempty
  cases nonempty

/-! ## The order of calls -/

/-- Whether a position is one of the three that plans use. -/
def Position.IsUsual : Position → Prop
  | .unknown _ => False
  | _ => True

theorem Position.IsUsual.ofCode_code {position : Position} (usual : position.IsUsual) :
    ofCode position.code = position := by
  cases position with
  | processStart | blockStart | blockEnd => rfl
  | unknown code => exact usual.elim

theorem Position.IsUsual.eq_of_code {a b : Position} (usualA : a.IsUsual) (usualB : b.IsUsual)
    (same : a.code = b.code) : a = b := by
  rw [← usualA.ofCode_code, same, usualB.ofCode_code]

namespace Insertion

variable {a b : Insertion}

theorem compare_swap (a b : Insertion) : (a.compare b).swap = b.compare a := by
  simp only [compare, or_comm (a := b.position = .processStart)]
  split <;> simp [Ordering.swap_then, Int.compare_swap]

theorem eq_of_compare_eq (same : a.compare b = .eq) :
    a.position.code = b.position.code ∧ a.block = b.block := by
  unfold compare at same
  dsimp only at same
  split at same
  · obtain ⟨position, rest⟩ := Ordering.then_eq_eq.mp same
    exact ⟨Int.compare_eq_eq.mp position, Int.compare_eq_eq.mp (Ordering.then_eq_eq.mp rest).1⟩
  · obtain ⟨block, position⟩ := Ordering.then_eq_eq.mp same
    exact ⟨Int.compare_eq_eq.mp position, Int.compare_eq_eq.mp block⟩

theorem compare_self (a : Insertion) : a.compare a = .eq := by
  simp [compare]

/-- One call stands before another. -/
def Precedes (a b : Insertion) : Prop := a.compare b = .lt

instance : Std.Irrefl Precedes where
  irrefl a before := by
    rw [Precedes, compare_self] at before
    cases before

instance : Std.Antisymm Precedes where
  antisymm a b before after := by
    rw [Precedes, ← compare_swap, before] at after
    cases after

/-- The rank of a call: the start of the process, then by block and position. -/
def rank (i : Insertion) : Int ×ₗ Int ×ₗ Int :=
  toLex (if i.position = .processStart then 0 else 1, toLex (i.block, i.position.code))

/-- **At the usual positions calls are compared by rank.** -/
theorem compare_ne_gt_iff (usualA : a.position.IsUsual) (usualB : b.position.IsUsual) :
    a.compare b ≠ .gt ↔ a.rank ≤ b.rank := by
  obtain ⟨position, _, block, _⟩ := a
  obtain ⟨other, _, otherBlock, _⟩ := b
  cases position <;> cases other
  case unknown.processStart | unknown.blockStart | unknown.blockEnd | unknown.unknown =>
    exact usualA.elim
  case processStart.unknown | blockStart.unknown | blockEnd.unknown => exact usualB.elim
  all_goals simp [compare, rank, Position.code, Prod.Lex.toLex_le_toLex, Ordering.then_eq_gt,
    Int.compare_eq_gt]
  case blockEnd.blockStart => exact Int.lt_iff_le_and_ne.symm
  all_goals exact Int.le_iff_lt_or_eq

-- At other positions there are cycles.
example :
    let before : Insertion := ⟨.unknown (-1), 0, 5, ∅⟩
    let start : Insertion := ⟨.processStart, 0, 0, ∅⟩
    let inside : Insertion := ⟨.blockStart, 0, 3, ∅⟩
    before.compare start = .lt ∧ start.compare inside = .lt ∧ inside.compare before = .lt := by
  decide

/-- A call after the start of the process stands before another by block and position. -/
theorem Precedes.by_block (before : a.Precedes b) (notA : a.position ≠ .processStart)
    (notB : b.position ≠ .processStart) :
    a.block < b.block ∨ a.block = b.block ∧ a.position.code < b.position.code := by
  unfold Precedes compare at before
  dsimp only at before
  rw [if_neg (not_or.mpr ⟨notA, notB⟩), Ordering.then_eq_lt, Int.compare_eq_lt,
    Int.compare_eq_eq, Int.compare_eq_lt] at before
  exact before

/-- Sorting calls at usual positions puts none before a smaller one. -/
theorem pairwise_mergeSort_compare {calls : List Insertion}
    (usual : ∀ i ∈ calls, i.position.IsUsual) :
    (calls.mergeSort fun a b => a.compare b != .gt).Pairwise fun a b => a.compare b ≠ .gt := by
  have agree : ∀ a ∈ calls, ∀ b ∈ calls,
      (a.compare b != .gt) = decide (a.rank ≤ b.rank) := by
    intro a memberA b memberB
    rw [Bool.eq_iff_iff, bne_iff_ne, decide_eq_true_iff]
    exact compare_ne_gt_iff (usual a memberA) (usual b memberB)
  have byRank : calls.mergeSort (fun a b => a.compare b != .gt) =
      calls.mergeSort fun a b => decide (a.rank ≤ b.rank) := by
    have mapped := List.map_mergeSort (s := fun a b : Insertion => decide (a.rank ≤ b.rank))
      (f := id) agree
    rwa [List.map_id, List.map_id] at mapped
  have sorted : (calls.mergeSort fun a b => decide (a.rank ≤ b.rank)).Pairwise
      fun a b => decide (a.rank ≤ b.rank) = true := by
    refine List.pairwise_mergeSort ?_ ?_ calls
    · intro a b c ab bc
      exact decide_eq_true ((of_decide_eq_true ab).trans (of_decide_eq_true bc))
    · intro a b
      rw [Bool.or_eq_true, decide_eq_true_iff, decide_eq_true_iff]
      exact le_total a.rank b.rank
  rw [byRank]
  refine sorted.imp_of_mem ?_
  intro a b memberA memberB le
  have isCall : ∀ i ∈ calls.mergeSort fun a b => decide (a.rank ≤ b.rank), i ∈ calls :=
    fun i => (List.mergeSort_perm _ _).mem_iff.mp
  exact (compare_ne_gt_iff (usual a (isCall a memberA)) (usual b (isCall b memberB))).mpr
    (of_decide_eq_true le)

end Insertion

/-! ## Drop sets in order -/

/-- Drop sets of blocks that exist, in increasing order. -/
structure Drops.InOrder (d : Drops) (count : Nat) : Prop where
  increasing : d.entries.Pairwise fun a b => a.1 < b.1
  inside : ∀ entry ∈ d.entries, ∃ b < count, entry.1 = Int.ofNat b

namespace Drops

theorem inOrder_empty (count : Nat) : (∅ : Drops).InOrder count :=
  ⟨List.Pairwise.nil, fun _ member => absurd member List.not_mem_nil⟩

theorem inOrder_ofBlocks (count : Nat) (set : Nat → CapSet) :
    (ofBlocks count set).InOrder count := by
  refine ⟨?_, ?_⟩
  · refine List.Pairwise.filterMap _ ?_ List.pairwise_lt_range
    intro a b before entryA isA entryB isB
    obtain rfl := Option.some.inj (Option.ite_none_left_eq_some.mp isA).2
    obtain rfl := Option.some.inj (Option.ite_none_left_eq_some.mp isB).2
    exact Int.ofNat_lt.mpr before
  · intro entry member
    obtain ⟨b, bound, _, rfl⟩ := mem_entries_ofBlocks.mp member
    exact ⟨b, bound, rfl⟩

namespace InOrder

variable {d : Drops} {count : Nat} (ordered : d.InOrder count)
include ordered

theorem nodup_ids : (d.entries.map Prod.fst).Nodup :=
  List.pairwise_map.mpr (ordered.increasing.imp Int.ne_of_lt)

theorem get_eq {b : BlockId} {kinds : CapSet} (entered : (b, kinds) ∈ d.entries) :
    d.get b = kinds := by
  unfold get
  split
  case h_1 entry found =>
    have sameId : entry.1 = b := by simpa using List.find?_some found
    have same : entry = (b, kinds) :=
      List.inj_on_of_nodup_map ordered.nodup_ids (List.mem_of_find?_eq_some found) entered sameId
    rw [same]
  case h_2 missing => exact absurd (List.find?_eq_none.mp missing _ entered) (by simp)

end InOrder

end Drops

/-! ## Calls that are due -/

/-- The wanted part of a set. -/
def PlanOptions.part (options : PlanOptions) (set : CapSet) : CapSet :=
  match options.only with
  | some wanted => set ∩ wanted
  | none => set

theorem PlanOptions.subset_part (options : PlanOptions) (set : CapSet) :
    options.part set ⊆ set := by
  unfold part
  intro k member
  split at member
  · exact (CapSet.mem_inter.mp member).1
  · exact member

/-- What a result says can be revoked at a position of a block. -/
def Result.dropAt (r : Result) : Position → BlockId → CapSet
  | .processStart, b =>
    if (r.program.function? r.program.entry).bind (·.blocks.head?) = some b then r.entryDrop else ∅
  | .blockStart, b => r.dropStart.get b
  | .blockEnd, b => r.dropEnd.get b
  | .unknown _, _ => ∅

namespace Plan

/-- A call that revokes the wanted part of a set, in the function of its block. -/
structure Revokes (p : Program) (options : PlanOptions) (set : CapSet) (i : Insertion) :
    Prop where
  kinds : i.kinds = options.part set
  nonempty : i.kinds.isEmpty = false
  function : (p.block? i.block).map (·.function) = some i.function

/-- A call revokes something. -/
theorem Revokes.exists_mem {p : Program} {options : PlanOptions} {set : CapSet} {i : Insertion}
    (revokes : Revokes p options set i) : ∃ k, k ∈ set := by
  obtain ⟨k, member⟩ := CapSet.exists_mem_of_isEmpty revokes.nonempty
  exact ⟨k, options.subset_part set k (revokes.kinds ▸ member)⟩

/-- A call that is due: it revokes the wanted part of what the result says can be revoked
at its place. -/
def IsDue (r : Result) (options : PlanOptions) (i : Insertion) : Prop :=
  Revokes r.program options (r.dropAt i.position i.block) i

/-- The calls for drop sets that are visited in some order. -/
def calls (r : Result) (options : PlanOptions) (starts ends : List (BlockId × CapSet)) :
    List Insertion :=
  (entryDrops r).filterMap (insertion? r.program options .processStart) ++
    starts.filterMap (insertion? r.program options .blockStart) ++
    ends.filterMap (insertion? r.program options .blockEnd)

theorem insertion?_eq_some_iff {p : Program} {options : PlanOptions} {position : Position}
    {entry : BlockId × CapSet} {i : Insertion} :
    insertion? p options position entry = some i ↔
      i.position = position ∧ i.block = entry.1 ∧ Revokes p options entry.2 i := by
  have opened : insertion? p options position entry =
      if (options.part entry.2).isEmpty then none
      else (p.block? entry.1).map fun block =>
        ⟨position, block.function, entry.1, options.part entry.2⟩ := rfl
  rw [opened, Option.ite_none_left_eq_some, Option.map_eq_some_iff, Bool.not_eq_true]
  constructor
  · rintro ⟨nonempty, block, found, rfl⟩
    exact ⟨rfl, rfl, rfl, nonempty, by rw [found]; rfl⟩
  · obtain ⟨_, function, _, kinds⟩ := i
    rintro ⟨rfl, rfl, isPart, nonempty, owner⟩
    obtain ⟨block, found, rfl⟩ := Option.map_eq_some_iff.mp owner
    dsimp only at isPart nonempty found
    subst isPart
    exact ⟨nonempty, block, found, rfl⟩

namespace IsDue

variable {r : Result} {options : PlanOptions} {a b i : Insertion}

theorem isUsual (due : IsDue r options i) : i.position.IsUsual := by
  obtain ⟨position, _, _, _⟩ := i
  cases position with
  | unknown code =>
    obtain ⟨k, member⟩ := due.exists_mem
    exact absurd member (CapSet.not_mem_empty k)
  | processStart | blockStart | blockEnd => trivial

/-- **Two calls that are due differ in position or block.** -/
theorem eq_of_eq (dueA : IsDue r options a) (dueB : IsDue r options b)
    (position : a.position = b.position) (block : a.block = b.block) : a = b := by
  have kinds : a.kinds = b.kinds := by rw [dueA.kinds, dueB.kinds, position, block]
  have function : a.function = b.function := by
    apply Option.some.inj
    rw [← dueA.function, ← dueB.function, block]
  obtain ⟨_, _, _, _⟩ := a
  obtain ⟨_, _, _, _⟩ := b
  cases position
  cases block
  cases kinds
  cases function
  rfl

theorem precedes (dueA : IsDue r options a) (dueB : IsDue r options b) (different : a ≠ b)
    (notAfter : a.compare b ≠ .gt) : a.Precedes b := by
  cases compared : a.compare b with
  | lt => exact compared
  | gt => exact absurd compared notAfter
  | eq =>
    obtain ⟨code, block⟩ := Insertion.eq_of_compare_eq compared
    exact absurd (dueA.eq_of_eq dueB (dueA.isUsual.eq_of_code dueB.isUsual code) block) different

end IsDue

/-- The calls that are due, in strictly increasing order. -/
structure IsCanonical (r : Result) (options : PlanOptions) (insertions : List Insertion) :
    Prop where
  increasing : insertions.Pairwise Insertion.Precedes
  mem_iff : ∀ i, i ∈ insertions ↔ IsDue r options i

/-- **There is at most one such list.** -/
theorem IsCanonical.eq {r : Result} {options : PlanOptions} {insertions others : List Insertion}
    (canonical : IsCanonical r options insertions) (same : IsCanonical r options others) :
    insertions = others :=
  canonical.increasing.eq_of_mem_iff same.increasing fun i =>
    (canonical.mem_iff i).trans (same.mem_iff i).symm

/-- Entries in order give a call for a block exactly when it revokes the set of the block. -/
theorem exists_call_iff {p : Program} {options : PlanOptions} {position : Position} {d : Drops}
    {count : Nat} (ordered : d.InOrder count) {i : Insertion} :
    (∃ entry ∈ d.entries, insertion? p options position entry = some i) ↔
      i.position = position ∧ Revokes p options (d.get i.block) i := by
  constructor
  · rintro ⟨⟨b, kinds⟩, entered, call⟩
    obtain ⟨atPosition, rfl, revokes⟩ := insertion?_eq_some_iff.mp call
    exact ⟨atPosition, (ordered.get_eq entered).symm ▸ revokes⟩
  · rintro ⟨atPosition, revokes⟩
    obtain ⟨k, member⟩ := revokes.exists_mem
    obtain ⟨kinds, entered, _⟩ := Drops.exists_entry_of_mem_get member
    refine ⟨(i.block, kinds), entered, insertion?_eq_some_iff.mpr ⟨atPosition, rfl, ?_⟩⟩
    exact ordered.get_eq entered ▸ revokes

theorem exists_entry_call_iff {r : Result} {options : PlanOptions} {i : Insertion} :
    (∃ entry ∈ entryDrops r, insertion? r.program options .processStart entry = some i) ↔
      i.position = .processStart ∧
        Revokes r.program options (r.dropAt .processStart i.block) i := by
  rw [Result.dropAt]
  constructor
  · rintro ⟨⟨b, kinds⟩, isDrop, call⟩
    obtain ⟨function, isEntry, isFirst, rfl⟩ := mem_entryDrops_iff.mp isDrop
    obtain ⟨position, rfl, revokes⟩ := insertion?_eq_some_iff.mp call
    have first : (r.program.function? r.program.entry).bind (·.blocks.head?) = some i.block := by
      rw [isEntry]
      exact isFirst
    exact ⟨position, (if_pos first).symm ▸ revokes⟩
  · rintro ⟨position, revokes⟩
    split at revokes
    case isTrue first =>
      obtain ⟨function, isEntry, isFirst⟩ := Option.bind_eq_some_iff.mp first
      exact ⟨(i.block, r.entryDrop), mem_entryDrops_iff.mpr ⟨function, isEntry, isFirst, rfl⟩,
        insertion?_eq_some_iff.mpr ⟨position, rfl, revokes⟩⟩
    case isFalse =>
      obtain ⟨k, member⟩ := revokes.exists_mem
      exact absurd member (CapSet.not_mem_empty k)

theorem nodup_calls_at {p : Program} (options : PlanOptions) (position : Position)
    {entries : List (BlockId × CapSet)} (nodup : (entries.map Prod.fst).Nodup) :
    (entries.filterMap (insertion? p options position)).Nodup := by
  refine List.Pairwise.filterMap _ ?_ (List.pairwise_map.mp nodup)
  intro entryA entryB different a callA b callB same
  obtain ⟨_, blockA, _⟩ := insertion?_eq_some_iff.mp callA
  obtain ⟨_, blockB, _⟩ := insertion?_eq_some_iff.mp callB
  exact different (blockA.symm.trans (same ▸ blockB))

theorem position_of_mem_calls_at {p : Program} {options : PlanOptions} {position : Position}
    {entries : List (BlockId × CapSet)} {i : Insertion}
    (member : i ∈ entries.filterMap (insertion? p options position)) : i.position = position := by
  obtain ⟨entry, _, call⟩ := List.mem_filterMap.mp member
  exact (insertion?_eq_some_iff.mp call).1

theorem nodup_ids_entryDrops (r : Result) : ((entryDrops r).map Prod.fst).Nodup := by
  unfold entryDrops
  cases r.program.function? r.program.entry with
  | none => exact List.nodup_nil
  | some function => cases first : function.blocks.head? <;> simp [first]

end Plan

/-! ## Places of drop sets -/

/-- A set that is revoked somewhere. -/
structure Site where
  position : Position
  block : BlockId
  kinds : CapSet

/-- Where a call goes and what it revokes. -/
def Insertion.site (i : Insertion) : Site := ⟨i.position, i.block, i.kinds⟩

/-- The sets of a row of a report, the start of the block before its end. -/
def Command.DropRow.sites (row : DropRow) : List Site :=
  [⟨.blockStart, row.block, row.start⟩, ⟨.blockEnd, row.block, row.finish⟩].filter
    (!·.kinds.isEmpty)

/-- By block, and in a block by position. -/
def Site.Precedes (a b : Site) : Prop :=
  a.block < b.block ∨ a.block = b.block ∧ a.position.code < b.position.code

instance : Std.Irrefl Site.Precedes where
  irrefl a before := by
    rcases before with block | ⟨_, position⟩
    · exact Int.lt_irrefl _ block
    · exact Int.lt_irrefl _ position

instance : Std.Antisymm Site.Precedes where
  antisymm a b before after := by
    rcases before with block | ⟨block, position⟩ <;>
      rcases after with blockAfter | ⟨blockAfter, positionAfter⟩
    · exact absurd block (Int.lt_asymm blockAfter)
    · exact absurd blockAfter (Int.ne_of_gt block)
    · exact absurd block (Int.ne_of_gt blockAfter)
    · exact absurd position (Int.lt_asymm positionAfter)

namespace Command

theorem DropRow.mem_sites_iff {row : DropRow} {site : Site} :
    site ∈ row.sites ↔
      (site = ⟨.blockStart, row.block, row.start⟩ ∨ site = ⟨.blockEnd, row.block, row.finish⟩) ∧
        site.kinds.isEmpty = false := by
  rw [sites, List.mem_filter, List.mem_cons, List.mem_singleton, Bool.not_eq_true']

theorem mem_dropRows_iff {r : Result} {row : DropRow} :
    row ∈ dropRows r ↔
      ∃ b < r.program.blocks.size,
        row = ⟨Int.ofNat b, r.dropStart.get (Int.ofNat b), r.dropEnd.get (Int.ofNat b)⟩ ∧
          (row.start.isEmpty && row.finish.isEmpty) = false := by
  simp only [dropRows, List.mem_filterMap, List.mem_range, Option.ite_none_left_eq_some,
    Option.some.injEq, Bool.not_eq_true]
  refine exists_congr fun b => and_congr_right fun _ => ?_
  constructor
  · rintro ⟨nonempty, rfl⟩
    exact ⟨rfl, nonempty⟩
  · rintro ⟨rfl, nonempty⟩
    exact ⟨nonempty, rfl⟩

/-- Rows list their sets by block and position. -/
theorem pairwise_sites (r : Result) :
    ((dropRows r).flatMap DropRow.sites).Pairwise Site.Precedes := by
  refine List.pairwise_flatMap.mpr ⟨?_, ?_⟩
  · intro row _
    refine List.Pairwise.filter _ (List.pairwise_pair.mpr ?_)
    exact .inr ⟨rfl, show (1 : Int) < 2 by decide⟩
  · refine List.Pairwise.filterMap _ ?_ List.pairwise_lt_range
    intro a b before rowA isA rowB isB siteA memberA siteB memberB
    obtain rfl := Option.some.inj (Option.ite_none_left_eq_some.mp isA).2
    obtain rfl := Option.some.inj (Option.ite_none_left_eq_some.mp isB).2
    have blockA : siteA.block = Int.ofNat a := by
      rcases (DropRow.mem_sites_iff.mp memberA).1 with rfl | rfl <;> rfl
    have blockB : siteB.block = Int.ofNat b := by
      rcases (DropRow.mem_sites_iff.mp memberB).1 with rfl | rfl <;> rfl
    refine .inl ?_
    rw [blockA, blockB]
    exact Int.ofNat_lt.mpr before

end Command

/-! ## Plans for analysed programs -/

/-- A result whose drop sets are in order and hold kinds of the program. -/
structure Result.HasDrops (r : Result) (p : Program) : Prop where
  program : r.program = p
  starts : r.dropStart.InOrder p.blocks.size
  ends : r.dropEnd.InOrder p.blocks.size
  subset_all : ∀ position b, r.dropAt position b ⊆ p.enumeration.all

namespace Result

theorem IsSolved.entryDrop_subset_all {r : Result} {p : Program} (solved : r.IsSolved p) :
    r.entryDrop ⊆ p.enumeration.all := by
  obtain ⟨_, found, _⟩ := solved.wellFormed.entry
  obtain ⟨i, isEntry, inside⟩ := entryAt?_eq_some_iff.mp found
  have bound : i < p.functions.size := (Array.getElem?_eq_some_iff.mp inside).1
  rw [solved.entryDrop_eq isEntry bound]
  intro k member
  exact (CapSet.mem_sdiff.mp member).1

theorem IsSolved.hasDrops {r : Result} {p : Program} (solved : r.IsSolved p) : r.HasDrops p := by
  have starts : r.dropStart.InOrder p.blocks.size :=
    solved.dropStart ▸ Drops.inOrder_ofBlocks _ _
  have ends : r.dropEnd.InOrder p.blocks.size := solved.dropEnd ▸ Drops.inOrder_ofBlocks _ _
  refine ⟨solved.program_eq, starts, ends, ?_⟩
  intro position b k member
  cases position with
  | processStart =>
    rw [dropAt] at member
    split at member
    · exact solved.entryDrop_subset_all k member
    · exact absurd member (CapSet.not_mem_empty k)
  | blockStart =>
    obtain ⟨kinds, entered, _⟩ := Drops.exists_entry_of_mem_get member
    obtain ⟨i, bound, rfl⟩ := starts.inside _ entered
    obtain ⟨_, _, _, _, _, _, live⟩ :=
      (solved.mem_dropStart_iff (Array.getElem?_eq_getElem bound)).mp member
    exact Program.mem_all_of_flows live
  | blockEnd =>
    obtain ⟨kinds, entered, _⟩ := Drops.exists_entry_of_mem_get member
    obtain ⟨i, bound, rfl⟩ := ends.inside _ entered
    obtain ⟨_, live, _⟩ := (solved.mem_dropEnd_iff (Array.getElem?_eq_getElem bound)).mp member
    exact Program.mem_all_of_flows live
  | unknown code => exact absurd member (CapSet.not_mem_empty k)

theorem hasDrops_skipped (p : Program) : p.bareSetting.skippedResult.HasDrops p := by
  refine ⟨rfl, Drops.inOrder_empty _, Drops.inOrder_empty _, ?_⟩
  intro position b k member
  have nothing : p.bareSetting.skippedResult.dropAt position b = ∅ := by
    cases position with
    | processStart => exact ite_self _
    | blockStart | blockEnd | unknown => rfl
  exact absurd (nothing ▸ member) (CapSet.not_mem_empty k)

namespace HasDrops

variable {r : Result} {p : Program} (drops : r.HasDrops p) {options : PlanOptions}
  {starts ends : List (BlockId × CapSet)}
include drops

/-- Every call has a place. -/
theorem isPlaceable : Plan.isPlaceable r options = true := by
  have hasPlace : ∀ d : Drops, d.InOrder p.blocks.size →
      ∀ entry ∈ d.entries, Plan.hasPlace r.program options entry = true := by
    intro d ordered entry member
    obtain ⟨b, bound, isB⟩ := ordered.inside entry member
    have has : p.hasBlock entry.1 = true := by
      rw [isB, ← p.isSome_block?]
      exact Option.isSome_iff_exists.mpr ⟨_, Array.getElem?_eq_getElem bound⟩
    rw [Plan.hasPlace, drops.program, has, Bool.true_or]
  refine List.all_eq_true.mpr fun entry member => ?_
  rcases List.mem_append.mp member with atStart | atEnd
  · exact hasPlace _ drops.starts entry atStart
  · exact hasPlace _ drops.ends entry atEnd

section Collected

variable (sameStarts : starts.Perm r.dropStart.entries) (sameEnds : ends.Perm r.dropEnd.entries)
include sameStarts sameEnds

/-- **The calls that are collected are those that are due**, whatever the order. -/
theorem mem_calls_iff {i : Insertion} :
    i ∈ Plan.calls r options starts ends ↔ Plan.IsDue r options i := by
  simp only [Plan.calls, List.mem_append, List.mem_filterMap, sameStarts.mem_iff,
    sameEnds.mem_iff, Plan.exists_call_iff drops.starts, Plan.exists_call_iff drops.ends,
    Plan.exists_entry_call_iff, Plan.IsDue]
  constructor
  · rintro ((⟨position, revokes⟩ | ⟨position, revokes⟩) | ⟨position, revokes⟩)
    all_goals
      rw [position]
      exact revokes
  · intro due
    have usual : i.position.IsUsual := Plan.IsDue.isUsual due
    cases position : i.position <;> rw [position] at due usual
    case processStart => exact .inl (.inl ⟨rfl, due⟩)
    case blockStart => exact .inl (.inr ⟨rfl, due⟩)
    case blockEnd => exact .inr ⟨rfl, due⟩
    case unknown => exact usual.elim

theorem nodup_calls : (Plan.calls r options starts ends).Nodup := by
  have startIds := (sameStarts.map Prod.fst).nodup_iff.mpr drops.starts.nodup_ids
  have endIds := (sameEnds.map Prod.fst).nodup_iff.mpr drops.ends.nodup_ids
  have entryCalls := Plan.nodup_calls_at (p := r.program) options .processStart
    (Plan.nodup_ids_entryDrops r)
  have startCalls := Plan.nodup_calls_at (p := r.program) options .blockStart startIds
  have endCalls := Plan.nodup_calls_at (p := r.program) options .blockEnd endIds
  refine (entryCalls.append startCalls ?_).append endCalls ?_
  · intro i atEntry atStart
    have position := (Plan.position_of_mem_calls_at atEntry).symm.trans
      (Plan.position_of_mem_calls_at atStart)
    cases position
  · intro i before atEnd
    have position := Plan.position_of_mem_calls_at atEnd
    rcases List.mem_append.mp before with atEntry | atStart
    · cases (Plan.position_of_mem_calls_at atEntry).symm.trans position
    · cases (Plan.position_of_mem_calls_at atStart).symm.trans position

/-- **Calls that are collected and sorted in any way are in canonical order.** -/
theorem isCanonical {l : List Insertion} (collected : l.Perm (Plan.calls r options starts ends))
    (sorted : l.Pairwise fun a b => a.compare b ≠ .gt) : Plan.IsCanonical r options l := by
  have mem_iff : ∀ i, i ∈ l ↔ Plan.IsDue r options i := fun i =>
    collected.mem_iff.trans (drops.mem_calls_iff sameStarts sameEnds)
  have nodup : l.Nodup := collected.nodup_iff.mpr (drops.nodup_calls sameStarts sameEnds)
  refine ⟨(sorted.and nodup).imp_of_mem ?_, mem_iff⟩
  rintro a b memberA memberB ⟨notAfter, different⟩
  exact ((mem_iff a).mp memberA).precedes ((mem_iff b).mp memberB) different notAfter

end Collected

theorem isCanonical_insertions (options : PlanOptions) :
    Plan.IsCanonical r options (Plan.ofResult r options).insertions := by
  refine drops.isCanonical (.refl _) (.refl _) (List.mergeSort_perm _ _) ?_
  refine Insertion.pairwise_mergeSort_compare fun i member => ?_
  exact ((drops.mem_calls_iff (.refl _) (.refl _)).mp member).isUsual

/-- **Whatever the order of the tables and the way of sorting, the plan is the same.** -/
theorem eq_insertions (sameStarts : starts.Perm r.dropStart.entries)
    (sameEnds : ends.Perm r.dropEnd.entries) {l : List Insertion}
    (collected : l.Perm (Plan.calls r options starts ends))
    (sorted : l.Pairwise fun a b => a.compare b ≠ .gt) :
    l = (Plan.ofResult r options).insertions :=
  (drops.isCanonical sameStarts sameEnds collected sorted).eq (drops.isCanonical_insertions options)

theorem nodup_places :
    ((Plan.ofResult r options).insertions.map fun i => (i.position, i.block)).Nodup := by
  have canonical := drops.isCanonical_insertions options
  refine List.pairwise_map.mpr (canonical.increasing.imp_of_mem ?_)
  intro a b memberA memberB before same
  obtain ⟨position, block⟩ := Prod.mk.inj same
  obtain rfl := ((canonical.mem_iff a).mp memberA).eq_of_eq ((canonical.mem_iff b).mp memberB)
    position block
  exact Std.Irrefl.irrefl a before

/-- Wanting everything is wanting no restriction. -/
theorem insertions_all (primitive : String) :
    (Plan.ofResult r ⟨primitive, some p.enumeration.all⟩).insertions =
      (Plan.ofResult r ⟨primitive, none⟩).insertions := by
  have sameParts : ∀ position b,
      PlanOptions.part ⟨primitive, some p.enumeration.all⟩ (r.dropAt position b) =
        PlanOptions.part ⟨primitive, none⟩ (r.dropAt position b) := by
    intro position b
    refine CapSet.ext_mem fun k => ?_
    exact CapSet.mem_inter.trans (and_iff_left_of_imp (drops.subset_all position b k))
  have canonical := drops.isCanonical_insertions ⟨primitive, none⟩
  refine (drops.isCanonical_insertions _).eq ⟨canonical.increasing, ?_⟩
  intro i
  refine (canonical.mem_iff i).trans ⟨?_, ?_⟩
  · rintro ⟨kinds, nonempty, function⟩
    exact ⟨kinds.trans (sameParts _ _).symm, nonempty, function⟩
  · rintro ⟨kinds, nonempty, function⟩
    exact ⟨kinds.trans (sameParts _ _), nonempty, function⟩

/-- What is dropped at a block is dropped at a block of the program. -/
theorem exists_block {position : Position} {b : BlockId} {k : Nat}
    (later : position ≠ .processStart) (member : k ∈ r.dropAt position b) :
    ∃ i < p.blocks.size, b = Int.ofNat i := by
  cases position with
  | processStart => exact absurd rfl later
  | blockStart =>
    obtain ⟨_, entered, _⟩ := Drops.exists_entry_of_mem_get member
    exact drops.starts.inside _ entered
  | blockEnd =>
    obtain ⟨_, entered, _⟩ := Drops.exists_entry_of_mem_get member
    exact drops.ends.inside _ entered
  | unknown code => exact absurd member (CapSet.not_mem_empty k)

theorem mem_sites_iff {site : Site} :
    site ∈ (Command.dropRows r).flatMap Command.DropRow.sites ↔
      site.position ≠ .processStart ∧ site.kinds = r.dropAt site.position site.block ∧
        site.kinds.isEmpty = false := by
  rw [List.mem_flatMap]
  constructor
  · rintro ⟨row, isRow, isSite⟩
    obtain ⟨b, _, rfl, _⟩ := Command.mem_dropRows_iff.mp isRow
    obtain ⟨rfl | rfl, nonempty⟩ := Command.DropRow.mem_sites_iff.mp isSite
    · exact ⟨Position.noConfusion, rfl, nonempty⟩
    · exact ⟨Position.noConfusion, rfl, nonempty⟩
  · obtain ⟨position, b, kinds⟩ := site
    rintro ⟨later, isDrop, nonempty⟩
    dsimp only at later isDrop nonempty
    subst isDrop
    obtain ⟨k, member⟩ := CapSet.exists_mem_of_isEmpty nonempty
    obtain ⟨i, bound, rfl⟩ := drops.exists_block later member
    have inRow : ∀ row : Command.DropRow,
        row = ⟨Int.ofNat i, r.dropStart.get (Int.ofNat i), r.dropEnd.get (Int.ofNat i)⟩ →
        (row.start.isEmpty && row.finish.isEmpty) = false → row ∈ Command.dropRows r :=
      fun row isRow notBoth =>
        Command.mem_dropRows_iff.mpr ⟨i, drops.program.symm ▸ bound, isRow, notBoth⟩
    cases position with
    | processStart => exact absurd rfl later
    | blockStart =>
      exact ⟨_, inRow _ rfl (Bool.and_eq_false_iff.mpr (.inl nonempty)),
        Command.DropRow.mem_sites_iff.mpr ⟨.inl rfl, nonempty⟩⟩
    | blockEnd =>
      exact ⟨_, inRow _ rfl (Bool.and_eq_false_iff.mpr (.inr nonempty)),
        Command.DropRow.mem_sites_iff.mpr ⟨.inr rfl, nonempty⟩⟩
    | unknown code => exact absurd member (CapSet.not_mem_empty k)

/-- **Without a restriction a plan revokes, after the start of the process, what the rows of
a report list**, in the same order. -/
theorem sites_insertions (primitive : String) :
    ((Plan.ofResult r ⟨primitive, none⟩).insertions.filter (·.position ≠ .processStart)).map
        Insertion.site =
      (Command.dropRows r).flatMap Command.DropRow.sites := by
  have canonical := drops.isCanonical_insertions ⟨primitive, none⟩
  have increasing : (((Plan.ofResult r ⟨primitive, none⟩).insertions.filter
      (·.position ≠ .processStart)).map Insertion.site).Pairwise Site.Precedes := by
    refine List.pairwise_map.mpr ((canonical.increasing.filter _).imp_of_mem ?_)
    intro a b memberA memberB before
    exact before.by_block (of_decide_eq_true (List.mem_filter.mp memberA).2)
      (of_decide_eq_true (List.mem_filter.mp memberB).2)
  refine increasing.eq_of_mem_iff (Command.pairwise_sites r) fun site => ?_
  rw [drops.mem_sites_iff, List.mem_map]
  constructor
  · rintro ⟨i, member, rfl⟩
    obtain ⟨inserted, later⟩ := List.mem_filter.mp member
    have due := (canonical.mem_iff i).mp inserted
    exact ⟨of_decide_eq_true later, due.kinds, due.nonempty⟩
  · obtain ⟨position, b, kinds⟩ := site
    rintro ⟨later, isDrop, nonempty⟩
    dsimp only at later isDrop nonempty
    obtain ⟨k, member⟩ := CapSet.exists_mem_of_isEmpty nonempty
    obtain ⟨i, bound, rfl⟩ := drops.exists_block later (isDrop ▸ member)
    have found : p.block? (Int.ofNat i) = some p.blocks[i] := Array.getElem?_eq_getElem bound
    refine ⟨⟨position, p.blocks[i].function, Int.ofNat i, kinds⟩, List.mem_filter.mpr
      ⟨(canonical.mem_iff _).mpr ⟨isDrop, nonempty, ?_⟩, decide_eq_true later⟩, rfl⟩
    rw [drops.program, found]
    rfl

end HasDrops

end Result

theorem Program.hasDrops_of_outcome {p : Program} {σ : Type} {source : Source σ} {choices : σ}
    {config : Config} {r : Result}
    (analyzed : (p.analyzeWith source choices config).outcome = .ok r) : r.HasDrops p := by
  rcases solved_or_skipped analyzed with solved | ⟨_, rfl⟩
  · exact solved.hasDrops
  · exact Result.hasDrops_skipped p

end CapLiveness
