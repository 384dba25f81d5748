import CapLiveness.Proofs.SetOrder
import CapLiveness.Proofs.WitnessPaths
import Mathlib.Algebra.BigOperators.Group.Finset.Basic
import Mathlib.Data.Finset.Card
import Mathlib.Data.Int.ModEq

/-!
# Reports by live set

Two reports group blocks by what is live on entry to them: one counts the blocks of functions
that are not opaque, the other measures the code that the search reaches. Both collect their
entries block by block in a table by sets, and list the table in whatever order it has
(`Result.setTable`, `Result.exposureTable`). Collecting makes one entry for each set that
occurs, from the blocks with that set alone (`SetTable.collect_eq`).

So each report partitions its blocks (`Result.Partitions`), and the sizes of the blocks of an
entry are added up modulo `2 ^ 64`. In the first report no two entries are equal in the order
by which it is sorted, so that there is one sorted arrangement, whatever the order of the
table was (`reports_partition`).
-/

set_option autoImplicit false

namespace CapLiveness

/-! ## Distinct sets -/

theorem eraseDups_concat_of_mem {sets : List CapSet} {s : CapSet} (known : s ∈ sets) :
    (sets ++ [s]).eraseDups = sets.eraseDups := by
  have nothing : [s].removeAll sets = [] := by
    rw [List.removeAll, List.filter_eq_nil_iff]
    simpa using known
  rw [List.eraseDups_append, nothing, List.eraseDups_nil, List.append_nil]

theorem eraseDups_concat_of_not_mem {sets : List CapSet} {s : CapSet} (new : s ∉ sets) :
    (sets ++ [s]).eraseDups = sets.eraseDups ++ [s] := by
  have itself : [s].removeAll sets = [s] := by
    rw [List.removeAll, List.filter_eq_self]
    simpa using new
  rw [List.eraseDups_append, itself]
  rfl

theorem nodup_eraseDups (sets : List CapSet) : sets.eraseDups.Nodup := by
  induction sets using List.reverseRecOn with
  | nil => exact List.nodup_nil
  | append_singleton sets s ih =>
    by_cases known : s ∈ sets
    · rwa [eraseDups_concat_of_mem known]
    · rw [eraseDups_concat_of_not_mem known, List.nodup_append]
      refine ⟨ih, List.nodup_singleton s, ?_⟩
      intro t member u isNew same
      obtain rfl := List.mem_singleton.mp isNew
      exact known (List.mem_eraseDups.mp (same ▸ member))

/-! ## Tables by sets -/

/-- A table with an entry for each of some sets. The order of the entries is of no
significance. -/
abbrev SetTable (α : Type) := List (CapSet × α)

namespace SetTable

variable {α : Type}

/-- Changes the entry of a set. A set without an entry first gets one to start with. -/
def update (table : SetTable α) (s : CapSet) (start : α) (change : α → α) : SetTable α :=
  if s ∈ table.map (·.1) then
    table.map fun entry => if entry.1 = s then (s, change entry.2) else entry
  else table ++ [(s, change start)]

/-- Enters blocks one after the other, each into the entry of its set. -/
def collect (key : Nat → CapSet) (start : α) (add : Nat → α → α) (blocks : List Nat) :
    SetTable α :=
  blocks.foldl (fun table b => table.update (key b) start (add b)) []

theorem update_of_mem {sets : List CapSet} {value : CapSet → α} {s : CapSet} (known : s ∈ sets)
    (start : α) (change : α → α) :
    update (sets.map fun t => (t, value t)) s start change =
      sets.map fun t => (t, if t = s then change (value t) else value t) := by
  have listed : s ∈ (sets.map fun t => (t, value t)).map (·.1) := by simpa using known
  rw [update, if_pos listed, List.map_map]
  refine List.map_congr_left fun t _ => ?_
  by_cases same : t = s <;> simp [same]

theorem update_of_not_mem {sets : List CapSet} {value : CapSet → α} {s : CapSet}
    (new : s ∉ sets) (start : α) (change : α → α) :
    update (sets.map fun t => (t, value t)) s start change =
      sets.map (fun t => (t, value t)) ++ [(s, change start)] := by
  have unlisted : s ∉ (sets.map fun t => (t, value t)).map (·.1) := by simpa using new
  rw [update, if_neg unlisted]

/-- **Collecting groups blocks by their sets.** There is one entry for each set that occurs, in
the order of first occurrence, and the blocks with that set alone make up its value. -/
theorem collect_eq (key : Nat → CapSet) (start : α) (add : Nat → α → α) (blocks : List Nat) :
    collect key start add blocks = (blocks.map key).eraseDups.map fun s =>
      (s, (blocks.filter (key · == s)).foldl (fun value b => add b value) start) := by
  induction blocks using List.reverseRecOn with
  | nil => rfl
  | append_singleton blocks b ih =>
    have step : collect key start add (blocks ++ [b]) =
        (collect key start add blocks).update (key b) start (add b) := by
      simp [collect]
    have value : ∀ s, ((blocks ++ [b]).filter (key · == s)).foldl (fun v b => add b v) start =
        if s = key b then add b ((blocks.filter (key · == s)).foldl (fun v b => add b v) start)
        else (blocks.filter (key · == s)).foldl (fun v b => add b v) start := by
      intro s
      by_cases same : s = key b
      · simp [same]
      · simp [same, Ne.symm same]
    rw [step, ih, List.map_append, List.map_singleton]
    simp only [value]
    by_cases known : key b ∈ blocks.map key
    · rw [update_of_mem (List.mem_eraseDups.mpr known), eraseDups_concat_of_mem known]
    · have none : blocks.filter (key · == key b) = [] := by
        rw [List.filter_eq_nil_iff]
        intro c member same
        exact known (List.mem_map.mpr ⟨c, member, eq_of_beq same⟩)
      have others : ∀ s ∈ (blocks.map key).eraseDups, s ≠ key b := by
        rintro s member rfl
        exact known (List.mem_eraseDups.mp member)
      rw [update_of_not_mem fun listed => known (List.mem_eraseDups.mp listed),
        eraseDups_concat_of_not_mem known, List.map_append, List.map_singleton, if_pos rfl, none,
        List.foldl_nil]
      congr 1
      refine List.map_congr_left fun s member => ?_
      rw [if_neg (others s member)]

end SetTable

/-! ## The blocks of a report -/

namespace Result

/-- Whether a block belongs to a function that is not opaque. -/
def isOpenBlock (r : Result) (b : BlockId) : Bool :=
  match r.program.block? b with
  | some block => r.isOpaque? block.function == some false
  | none => false

/-- Whether the search reaches a block. -/
def isReached (r : Result) (b : BlockId) : Bool := (r.pathTo? b).isSome

/-- The blocks with a property. -/
def blocksAmong (r : Result) (among : BlockId → Bool) : Finset Nat :=
  (Finset.range r.program.blocks.size).filter fun b => among b = true

/-- The blocks with a property that are entered with a given set live. -/
def blocksWith (r : Result) (among : BlockId → Bool) (s : CapSet) : Finset Nat :=
  (r.blocksAmong among).filter fun b => r.liveIn? b = some s

/-- **Counts that partition some blocks** by what is live on entry to them: each set that
occurs is counted once, and exactly. -/
structure Partitions (r : Result) (among : BlockId → Bool) (counts : List (CapSet × Nat)) :
    Prop where
  nodup : (counts.map (·.1)).Nodup
  mem_iff : ∀ s, s ∈ counts.map (·.1) ↔ (r.blocksWith among s).Nonempty
  count : ∀ entry ∈ counts, entry.2 = (r.blocksWith among entry.1).card
  total : (counts.map (·.2)).sum = (r.blocksAmong among).card

theorem Partitions.of_perm {r : Result} {among : BlockId → Bool}
    {counts others : List (CapSet × Nat)} (partitions : r.Partitions among counts)
    (same : others.Perm counts) : r.Partitions among others where
  nodup := (same.map _).nodup_iff.mpr partitions.nodup
  mem_iff s := (same.map _).mem_iff.trans (partitions.mem_iff s)
  count entry member := partitions.count entry (same.mem_iff.mp member)
  total := (same.map _).sum_eq.trans partitions.total

/-- A list of the blocks with a property. -/
structure ListsAmong (r : Result) (among : BlockId → Bool) (blocks : List Nat) : Prop where
  nodup : blocks.Nodup
  mem_iff : ∀ b, b ∈ blocks ↔ b ∈ r.blocksAmong among

namespace Covers

variable {r : Result} {p : Program} (covers : r.Covers p)
include covers

theorem liveIn?_eq_liveAt {b : Nat} (bound : b < p.blocks.size) :
    r.liveIn? b = some (r.liveAt b) :=
  covers.liveIn?_ofNat (b := b) (Array.getElem?_eq_getElem bound)

variable {among : BlockId → Bool} {blocks : List Nat} (lists : r.ListsAmong among blocks)
include lists

theorem liveIn?_of_mem {b : Nat} (member : b ∈ blocks) : r.liveIn? b = some (r.liveAt b) := by
  have inside := (Finset.mem_filter.mp ((lists.mem_iff b).mp member)).1
  rw [covers.program] at inside
  exact covers.liveIn?_eq_liveAt (Finset.mem_range.mp inside)

theorem toFinset_enteredWith (s : CapSet) :
    (r.enteredWith blocks s).toFinset = r.blocksWith among s := by
  ext b
  rw [List.mem_toFinset, enteredWith, List.mem_filter, blocksWith, Finset.mem_filter,
    ← lists.mem_iff]
  refine and_congr_right fun member => ?_
  rw [covers.liveIn?_of_mem lists member, beq_iff_eq, Option.some.injEq]

theorem length_enteredWith (s : CapSet) :
    (r.enteredWith blocks s).length = (r.blocksWith among s).card := by
  rw [← covers.toFinset_enteredWith lists, List.toFinset_card_of_nodup]
  exact lists.nodup.filter _

theorem mem_setsOf {s : CapSet} :
    s ∈ r.setsOf blocks ↔ (r.blocksWith among s).Nonempty := by
  rw [← covers.toFinset_enteredWith lists]
  simp [setsOf, enteredWith, Finset.Nonempty]

/-- **Counting by sets partitions the blocks.** -/
theorem partitions : r.Partitions among
    ((r.setsOf blocks).map fun s => (s, (r.enteredWith blocks s).length)) := by
  have keys : ((r.setsOf blocks).map fun s => (s, (r.enteredWith blocks s).length)).map (·.1) =
      r.setsOf blocks := by
    simp [Function.comp_def]
  have nodup : (r.setsOf blocks).Nodup := nodup_eraseDups _
  refine ⟨by rwa [keys], fun s => ?_, ?_, ?_⟩
  · rw [keys, covers.mem_setsOf lists]
  · intro entry member
    obtain ⟨s, _, rfl⟩ := List.mem_map.mp member
    exact covers.length_enteredWith lists s
  · have counts : (((r.setsOf blocks).map fun s => (s, (r.enteredWith blocks s).length)).map
        (·.2)).sum = ∑ s ∈ (r.setsOf blocks).toFinset, (r.blocksWith among s).card := by
      rw [List.sum_toFinset _ nodup, List.map_map]
      simp only [Function.comp_def, covers.length_enteredWith lists]
    rw [counts]
    have fibers := Finset.card_eq_sum_card_fiberwise (f := r.liveAt) (s := r.blocksAmong among)
      (t := (r.setsOf blocks).toFinset) ?_
    · rw [fibers]
      refine Finset.sum_congr rfl fun s _ => congrArg Finset.card ?_
      refine Finset.filter_congr fun b member => ?_
      rw [covers.liveIn?_of_mem lists ((lists.mem_iff b).mpr member), Option.some.injEq]
    · intro b member
      simp only [List.coe_toFinset, Set.mem_ofPred_eq, setsOf, List.mem_eraseDups]
      exact List.mem_map_of_mem ((lists.mem_iff b).mpr member)

omit lists

/-! ### Blocks of functions that are not opaque -/

theorem isOpaque?_of_found {b : BlockId} {block : Block} (found : p.block? b = some block) :
    r.isOpaque? block.function = some (r.setting.uses.isOpaque block.function.toNat) := by
  obtain ⟨function, foundFunction⟩ := covers.wellFormed.owner found
  obtain ⟨i, isOwner, inside⟩ := entryAt?_eq_some_iff.mp foundFunction
  rw [isOpaque?, isOwner, covers.slot?_ofNat (Program.lt_of_function? inside)]
  rfl

theorem lists_openPositions : r.ListsAmong r.isOpenBlock r.openPositions := by
  have positions : (r.program.blockEntries.map (·.2)).Nodup := by
    rw [Program.blockEntries, List.zipIdx_map_snd]
    exact List.nodup_range'
  refine ⟨positions.sublist (List.filter_sublist.map _), fun b => ?_⟩
  have entry : ∀ block, (block, b) ∈ r.program.blockEntries ↔ p.block? b = some block := by
    intro block
    rw [covers.program]
    exact Program.mem_zipIdx_toList_iff
  simp only [openPositions, Setting.openBlocks, List.mem_map, List.mem_filter, Prod.exists,
    exists_eq_right, blocksAmong, Finset.mem_filter, Finset.mem_range, isOpenBlock,
    covers.program]
  constructor
  · rintro ⟨block, member, isOpen⟩
    have found := (entry block).mp member
    refine ⟨Program.lt_of_block? found, ?_⟩
    rw [found]
    simpa [covers.isOpaque?_of_found found] using isOpen
  · rintro ⟨inside, isOpen⟩
    have found : p.block? b = some p.blocks[b] := Array.getElem?_eq_getElem inside
    refine ⟨_, (entry _).mpr found, ?_⟩
    rw [found] at isOpen
    simpa [covers.isOpaque?_of_found found] using isOpen

/-! ### Blocks that the search reaches -/

theorem lt_of_reached {b : Nat} (reached : b ∈ r.setting.reachable.order) : b < p.blocks.size := by
  have wf := covers.wellFormed
  obtain ⟨_, ways, _⟩ := wf.reachable_exact covers.program covers.graph
  obtain ⟨start, ⟨f, isFirst⟩, steps⟩ : ∃ start, (∃ f, p.IsFirstBlock f start) ∧
      Relation.ReflTransGen p.StepsTo start (Int.ofNat b) := by
    rcases ways b reached with early | ⟨_, late⟩
    · obtain ⟨start, isEntry, steps⟩ := early.route.reachable
      exact ⟨start, ⟨_, isEntry⟩, steps⟩
    · obtain ⟨start, ⟨f, _, isFirst⟩, steps⟩ := late.route.reachable
      exact ⟨start, ⟨f, isFirst⟩, steps⟩
  obtain ⟨i, same, bound⟩ : ∃ i : Nat, Int.ofNat b = Int.ofNat i ∧ i < p.blocks.size := by
    rcases steps.cases_tail with isStart | ⟨_, _, last⟩
    · rw [isStart]
      exact wf.exists_position_of_first isFirst
    · exact wf.exists_position_of_step last
  rw [Int.ofNat.inj same]
  exact bound

theorem lists_order : r.ListsAmong r.isReached r.setting.reachable.order := by
  refine ⟨(covers.wellFormed.reachable_exact covers.program covers.graph).1, fun b => ?_⟩
  have path := r.pathTo?_ofNat b
  rw [blocksAmong, Finset.mem_filter, Finset.mem_range, covers.program, isReached,
    ← Int.ofNat_eq_natCast, path]
  by_cases reached : b ∈ r.setting.reachable.order
  · simp [reached, covers.lt_of_reached reached]
  · simp [reached]

end Covers

/-! ## The tables of the reports -/

/-- The number of blocks entered with each set, counted block by block. -/
def setTable (r : Result) : SetTable Nat :=
  SetTable.collect r.liveAt 0 (fun _ count => count + 1) r.openPositions

/-- Adds the size of a block to an amount. -/
def addSize (r : Result) (b : Nat) (amount : Int) : Int :=
  match r.setting.block? b with
  | some block => wrap64 (amount + block.instructions)
  | none => amount

/-- The number and the amount of the reachable blocks entered with each set, block by block in
the order in which the search reaches them. -/
def exposureTable (r : Result) : SetTable (Nat × Int) :=
  SetTable.collect r.liveAt (0, 0) (fun b value => (value.1 + 1, r.addSize b value.2))
    r.setting.reachable.order

theorem foldl_count (blocks : List Nat) (n : Nat) :
    blocks.foldl (fun count _ => count + 1) n = n + blocks.length := by
  induction blocks generalizing n with
  | nil => rfl
  | cons b rest ih =>
    rw [List.foldl_cons, ih, List.length_cons]
    omega

theorem foldl_addSize (r : Result) (blocks : List Nat) (n : Nat) (amount : Int) :
    blocks.foldl (fun value b => (value.1 + 1, r.addSize b value.2)) (n, amount) =
      (n + blocks.length, (blocks.filterMap r.setting.block?).foldl
        (fun sum b => wrap64 (sum + b.instructions)) amount) := by
  induction blocks generalizing n amount with
  | nil => rfl
  | cons b rest ih =>
    rw [List.foldl_cons, ih, List.length_cons, List.filterMap_cons, addSize]
    cases r.setting.block? b <;> simp <;> omega

theorem setTable_eq (r : Result) : r.setTable = (r.setsOf r.openPositions).map fun s =>
    (s, (r.enteredWith r.openPositions s).length) := by
  rw [setTable, SetTable.collect_eq]
  simp only [foldl_count, Nat.zero_add]
  rfl

theorem exposureTable_eq (r : Result) : r.exposureTable =
    (r.setsOf r.setting.reachable.order).map fun s =>
      (s, (r.enteredWith r.setting.reachable.order s).length,
        r.sizeOf (r.enteredWith r.setting.reachable.order s)) := by
  rw [exposureTable, SetTable.collect_eq]
  simp only [foldl_addSize, Nat.zero_add]
  rfl

end Result

/-- The entry of a report that an entry of a table becomes. -/
def SetCount.ofEntry (entry : CapSet × Nat) : SetCount := ⟨entry.1, entry.2⟩

/-- The entry of a report that an entry of a table becomes. -/
def Exposure.ofEntry (entry : CapSet × Nat × Int) : Exposure := ⟨entry.1, entry.2.1, entry.2.2⟩

namespace Result

/-- **The count of live sets is its table, sorted.** -/
theorem uniqueSets_eq (r : Result) : r.uniqueSets =
    (r.setTable.map SetCount.ofEntry).mergeSort fun a b => a.compare b != .gt := by
  rw [setTable_eq, List.map_map]
  rfl

/-- **The exposure is its table, sorted.** -/
theorem exposure_eq (r : Result) : r.exposure =
    (r.exposureTable.map Exposure.ofEntry).mergeSort fun a b => a.compare b != .gt := by
  rw [exposureTable_eq, List.map_map]
  rfl

theorem uniqueSets_perm (r : Result) : r.uniqueSets.Perm (r.setTable.map SetCount.ofEntry) := by
  rw [uniqueSets_eq]
  exact List.mergeSort_perm _ _

theorem exposure_perm (r : Result) : r.exposure.Perm (r.exposureTable.map Exposure.ofEntry) := by
  rw [exposure_eq]
  exact List.mergeSort_perm _ _

end Result

/-! ## Sums of sizes -/

/-- The number of instructions as which a block counts: its size, and one where that is not
positive. -/
def Program.extent (p : Program) (b : BlockId) : Int :=
  (p.block? b).elim 0 fun block => max block.size 1

theorem Block.instructions_eq (block : Block) : block.instructions = max block.size 1 := by
  unfold instructions
  split <;> omega

theorem wrap64_add (a b : Int) : wrap64 (wrap64 a + b) = wrap64 (a + b) := Int.bmod_add_bmod

theorem wrap64_modEq (n : Int) : wrap64 n ≡ n [ZMOD 2 ^ 64] := Int.bmod_emod

theorem wrap64_bounds (n : Int) : -2 ^ 63 ≤ wrap64 n ∧ wrap64 n < 2 ^ 63 :=
  ⟨Int.le_bmod (m := 1 <<< 64) (by decide), Int.bmod_lt (m := 1 <<< 64) (by decide)⟩

/-- Wrapping around after each addition is wrapping around once. -/
theorem foldl_wrap64 (blocks : List Block) (sum : Int) :
    blocks.foldl (fun sum b => wrap64 (sum + b.instructions)) (wrap64 sum) =
      wrap64 (sum + (blocks.map (·.instructions)).sum) := by
  induction blocks generalizing sum with
  | nil => simp
  | cons b rest ih =>
    rw [List.foldl_cons, wrap64_add, ih, List.map_cons, List.sum_cons, add_assoc]

namespace Result.Covers

variable {r : Result} {p : Program} (covers : r.Covers p)
include covers

theorem sum_instructions (blocks : List Nat) :
    ((blocks.filterMap r.setting.block?).map (·.instructions)).sum =
      (blocks.map fun b : Nat => p.extent b).sum := by
  have found : ∀ b : Nat, r.setting.block? b = p.block? b := by
    intro b
    rw [← covers.program]
    rfl
  induction blocks with
  | nil => rfl
  | cons b rest ih =>
    rw [List.filterMap_cons, List.map_cons, List.sum_cons, ← ih, Program.extent, ← found]
    cases r.setting.block? b with
    | none => simp
    | some block => simp [Block.instructions_eq]

theorem sizeOf_enteredWith {among : BlockId → Bool} {blocks : List Nat}
    (lists : r.ListsAmong among blocks) (s : CapSet) :
    r.sizeOf (r.enteredWith blocks s) = wrap64 (∑ b ∈ r.blocksWith among s, p.extent b) := by
  have start : wrap64 0 = 0 := rfl
  have nodup : (r.enteredWith blocks s).Nodup := lists.nodup.filter _
  rw [sizeOf, ← start, foldl_wrap64, zero_add, covers.sum_instructions,
    ← covers.toFinset_enteredWith lists, List.sum_toFinset _ nodup]

/-! ## The reports -/

theorem partitions_uniqueSets :
    r.Partitions r.isOpenBlock (r.uniqueSets.map fun e => (e.set, e.blocks)) := by
  have counted := covers.partitions covers.lists_openPositions
  refine counted.of_perm ((r.uniqueSets_perm.map _).trans (List.Perm.of_eq ?_))
  rw [setTable_eq, List.map_map, List.map_map]
  rfl

theorem partitions_exposure :
    r.Partitions r.isReached (r.exposure.map fun e => (e.set, e.blocks)) := by
  have counted := covers.partitions covers.lists_order
  refine counted.of_perm ((r.exposure_perm.map _).trans (List.Perm.of_eq ?_))
  rw [exposureTable_eq, List.map_map, List.map_map]
  rfl

/-- **The amount of an entry** is the sum of the sizes of its blocks, wrapped around. -/
theorem instructions_eq {e : Exposure} (member : e ∈ r.exposure) :
    e.instructions = wrap64 (∑ b ∈ r.blocksWith r.isReached e.set, p.extent b) := by
  rw [r.exposure_perm.mem_iff, exposureTable_eq, List.map_map, List.mem_map] at member
  obtain ⟨s, _, rfl⟩ := member
  exact covers.sizeOf_enteredWith covers.lists_order s

end Result.Covers

namespace Result

/-- **The count of live sets does not depend on the order of its table.** -/
theorem eq_uniqueSets_iff {r : Result} {p : Program} (covers : r.Covers p)
    {order : SetTable Nat} (isOrder : order.Perm r.setTable) {report : List SetCount} :
    report.Perm (order.map SetCount.ofEntry) ∧ report.Pairwise (fun a b => a.compare b ≠ .gt) ↔
      report = r.uniqueSets := by
  have nodup : (r.uniqueSets.map SetCount.set).Nodup := by
    have nodup := covers.partitions_uniqueSets.nodup
    rwa [List.map_map] at nodup
  rw [(isOrder.map SetCount.ofEntry).congr_right, uniqueSets_eq]
  refine sorted_iff_eq_mergeSort (descending SetCount.blocks SetCount.set)
    (fun a _ b _ => rfl) ?_
  intro a memberA b memberB equal
  have listed := fun e => (r.uniqueSets_perm.mem_iff (a := e)).mpr
  exact List.inj_on_of_nodup_map nodup (listed a memberA) (listed b memberB)
    (set_eq_of_descending_eq equal)

end Result

end CapLiveness
