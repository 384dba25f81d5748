import CapLiveness.Proofs.SetReports
import Mathlib.Algebra.Order.BigOperators.Group.Finset
import Mathlib.Algebra.Order.Ring.Int

/-!
# Amounts of exposed code

The exposure adds up sizes in signed 64-bit words and compares two amounts by the sign of
their difference, which is such a word too. Nothing bounds the sizes, so the exact amount of
an entry (`Result.amount`) may not fit a word. An entry shows its exact amount if and only if
that is below `2 ^ 63`.

The comparison sees the exact amounts through their difference, and decides as they would
themselves if that fits a word (`Exposure.compare_eq`). So entries are in the order of their
exact amounts as long as no two of these are `2 ^ 63` or more apart
(`Result.Covers.arranged_of_close`). Below `2 ^ 63` everything is as it should be, and only
there (`exposure_exact_iff`). Three blocks are enough to show a negative amount, and the
larger one last (`exposure_overflows`).
-/

set_option autoImplicit false

namespace CapLiveness

/-! ## Words -/

theorem wrap64_eq_self {n : Int} (low : -2 ^ 63 ≤ n) (high : n < 2 ^ 63) : wrap64 n = n :=
  Int.bmod_eq_of_le low high

theorem wrap64_eq_self_iff {n : Int} (positive : 0 < n) : wrap64 n = n ↔ n < 2 ^ 63 := by
  constructor
  · intro same
    rw [← same]
    exact (wrap64_bounds n).2
  · exact wrap64_eq_self (by omega)

theorem wrap64_sub (a b : Int) : wrap64 (wrap64 a - wrap64 b) = wrap64 (a - b) := by
  unfold wrap64
  rw [Int.sub_bmod_bmod, Int.bmod_sub_bmod]

/-- Numbers that are not far apart are equal if their words are. -/
theorem eq_of_wrap64_eq {a b : Int} (same : wrap64 a = wrap64 b) (below : a - b < 2 ^ 63)
    (above : b - a < 2 ^ 63) : a = b := by
  have difference : wrap64 (a - b) = 0 := by
    rw [← wrap64_sub, same, Int.sub_self]
    rfl
  rw [wrap64_eq_self (by omega) below] at difference
  omega

/-- **The comparison decides by the exact amounts**, if their difference fits a word. -/
theorem Exposure.compare_eq {amount : CapSet → Int} {a b : Exposure}
    (isA : a.instructions = wrap64 (amount a.set)) (isB : b.instructions = wrap64 (amount b.set))
    (below : amount a.set - amount b.set < 2 ^ 63)
    (above : amount b.set - amount a.set < 2 ^ 63) :
    a.compare b = descending (fun e => amount e.set) Exposure.set a b := by
  unfold Exposure.compare descending
  rw [isA, isB, wrap64_sub, wrap64_eq_self (by omega) above]
  split
  case isTrue same =>
    have equal : Ord.compare (amount b.set) (amount a.set) = .eq :=
      compare_eq_iff_eq.mpr (eq_of_wrap64_eq same below above).symm
    rw [equal]
    rfl
  case isFalse different =>
    rcases lt_trichotomy (amount b.set) (amount a.set) with less | same | greater
    · rw [compare_lt_iff_lt.mpr (sub_neg.mpr less), compare_lt_iff_lt.mpr less]
      rfl
    · exact absurd (congrArg wrap64 same.symm) different
    · rw [compare_gt_iff_gt.mpr (sub_pos.mpr greater), compare_gt_iff_gt.mpr greater]
      rfl

/-! ## Exact amounts -/

/-- **The exact amount of code** that the search reaches and that is entered with a set live. -/
def Result.amount (r : Result) (s : CapSet) : Int :=
  ∑ b ∈ r.blocksWith r.isReached s, r.program.extent b

/-- **Reports of exact amounts**, the largest first, and entries with one amount by their sets. -/
structure Result.IsExact (r : Result) (report : List Exposure) : Prop where
  amounts : ∀ e ∈ report, e.instructions = r.amount e.set
  ordered : report.Pairwise fun a b =>
    descending (fun e => r.amount e.set) Exposure.set a b = .lt

/-- Whether no two entries of the exposure are far apart. -/
def Result.IsClose (r : Result) : Prop :=
  ∀ a ∈ r.exposure, ∀ b ∈ r.exposure, r.amount a.set - r.amount b.set < 2 ^ 63

namespace Result.Covers

variable {r : Result} {p : Program} (covers : r.Covers p)
include covers

theorem instructions_eq_amount {e : Exposure} (member : e ∈ r.exposure) :
    e.instructions = wrap64 (r.amount e.set) := by
  rw [covers.instructions_eq member, amount, covers.program]

theorem amount_pos {e : Exposure} (member : e ∈ r.exposure) : 0 < r.amount e.set := by
  have listed : e.set ∈ (r.exposure.map fun e => (e.set, e.blocks)).map (·.1) := by
    rw [List.map_map]
    exact List.mem_map_of_mem member
  refine Finset.sum_pos ?_ ((covers.partitions_exposure.mem_iff e.set).mp listed)
  intro b isBlock
  have inside := (Finset.mem_filter.mp (Finset.mem_filter.mp isBlock).1).1
  have found : r.program.block? b = some _ := Array.getElem?_eq_getElem (Finset.mem_range.mp inside)
  rw [Program.extent, found]
  exact lt_of_lt_of_le zero_lt_one (le_max_right _ _)

/-- **Entries that are not far apart have one arrangement**, whatever the order of their table,
and it is the order of their exact amounts. -/
theorem arranged_of_close (close : r.IsClose) :
    (∀ (order : SetTable (Nat × Int)) (report : List Exposure), order.Perm r.exposureTable →
      (report.Perm (order.map Exposure.ofEntry) ∧
        report.Pairwise (fun a b => a.compare b ≠ .gt) ↔ report = r.exposure)) ∧
    r.exposure.Pairwise fun a b =>
      descending (fun e => r.amount e.set) Exposure.set a b = .lt := by
  have listed := fun e => (r.exposure_perm.mem_iff (a := e)).mpr
  have nodup : (r.exposure.map Exposure.set).Nodup := by
    have nodup := covers.partitions_exposure.nodup
    rwa [List.map_map] at nodup
  have agree : ∀ a ∈ r.exposureTable.map Exposure.ofEntry,
      ∀ b ∈ r.exposureTable.map Exposure.ofEntry, a.compare b =
        descending (fun e => r.amount e.set) Exposure.set a b := by
    intro a memberA b memberB
    have isA := listed a memberA
    have isB := listed b memberB
    exact Exposure.compare_eq (covers.instructions_eq_amount isA)
      (covers.instructions_eq_amount isB) (close a isA b isB) (close b isB a isA)
  have apart : ∀ a ∈ r.exposureTable.map Exposure.ofEntry,
      ∀ b ∈ r.exposureTable.map Exposure.ofEntry,
        descending (fun e => r.amount e.set) Exposure.set a b = .eq → a = b := by
    intro a memberA b memberB equal
    exact List.inj_on_of_nodup_map nodup (listed a memberA) (listed b memberB)
      (set_eq_of_descending_eq equal)
  constructor
  · intro order report isOrder
    rw [(isOrder.map Exposure.ofEntry).congr_right, exposure_eq]
    exact sorted_iff_eq_mergeSort _ agree apart
  · rw [exposure_eq]
    exact pairwise_lt_mergeSort _ agree apart
      (r.exposure_perm.nodup_iff.mp (List.Nodup.of_map _ nodup))

end Result.Covers

/-- **The exposure is exact if and only if its amounts fit a word.** The exact amounts are
positive, and an entry shows its own exactly if that is below `2 ^ 63`. All entries are below
it if and only if the exposure, for every order of its table and every sorted arrangement, is
the one report of exact amounts in their order. The order is that of the exact amounts also
where some do not fit, as long as no two are `2 ^ 63` or more apart. -/
theorem exposure_exact_iff {p : Program} {config : Config} {r : Result}
    (analyzed : (p.analyze config).outcome = .ok r) :
    r.program = p ∧
    (∀ e ∈ r.exposure, 0 < r.amount e.set ∧ e.instructions = wrap64 (r.amount e.set) ∧
      (e.instructions = r.amount e.set ↔ r.amount e.set < 2 ^ 63)) ∧
    ((∀ e ∈ r.exposure, r.amount e.set < 2 ^ 63) ↔
      r.IsExact r.exposure ∧
      ∀ (order : SetTable (Nat × Int)) (report : List Exposure), order.Perm r.exposureTable →
        (report.Perm (order.map Exposure.ofEntry) ∧
          report.Pairwise (fun a b => a.compare b ≠ .gt) ↔ report = r.exposure)) ∧
    (r.IsClose → r.exposure.Pairwise fun a b =>
      descending (fun e => r.amount e.set) Exposure.set a b = .lt) := by
  have covers := Program.covers_of_outcome analyzed
  have exact : ∀ e ∈ r.exposure,
      (e.instructions = r.amount e.set ↔ r.amount e.set < 2 ^ 63) := by
    intro e member
    rw [covers.instructions_eq_amount member, wrap64_eq_self_iff (covers.amount_pos member)]
  refine ⟨covers.program, fun e member => ⟨covers.amount_pos member,
    covers.instructions_eq_amount member, exact e member⟩, ⟨?_, ?_⟩,
    fun close => (covers.arranged_of_close close).2⟩
  · intro fits
    have close : r.IsClose := by
      intro a memberA b memberB
      have fitsA := fits a memberA
      have positive := covers.amount_pos memberB
      omega
    obtain ⟨arranged, ordered⟩ := covers.arranged_of_close close
    exact ⟨⟨fun e member => (exact e member).mpr (fits e member), ordered⟩, arranged⟩
  · rintro ⟨isExact, _⟩ e member
    exact (exact e member).mp (isExact.amounts e member)

/-! ## A program that raises once and then computes -/

/-- A program that raises kind `0` in a block of five instructions and goes on without it in two
blocks of a given size. -/
def computingProgram (size : Int) : Program where
  capabilities := some rawEnumeration
  functions := #[{ id := 0, name := "main", blocks := [0, 1, 2], exit := 2 }]
  blocks := #[
    { id := 0, function := 0, name := "open", kind := .raise, raised := [.constant 0], size := 5,
      successors := [1] },
    { id := 1, function := 0, name := "read", size := size, successors := [2] },
    { id := 2, function := 0, name := "compute", size := size, exit := .return }]
  entry := 0

/-- The cells into which nothing of the program flows. -/
def cellsAfterRaise : List Cell :=
  [⟨.liveIn, 1⟩, ⟨.liveIn, 2⟩, ⟨.liveOut, 1⟩, ⟨.liveOut, 2⟩, ⟨.returnLive, 0⟩]

/-- The sizes with which the program is looked at. -/
def sampleSizes : List Int := [2, 2 ^ 63 - 1]

/-- What is needed of the program to see what the analysis finds. -/
theorem computingProgram_facts : ∀ size ∈ sampleSizes, 0 < size ∧
    (computingProgram size).validate = none ∧
    (computingProgram size).setting.reachable.order = [0, 1, 2] ∧
    (computingProgram size).setting.program.enumeration.all = .singleton 0 ∧
    0 ∈ (computingProgram size).setting.own ⟨.liveIn, 0⟩ ∧
    (⟨.liveIn, 0⟩ : Cell).entity ∈ (computingProgram size).setting.initialEntities ∧
    ∀ cell ∈ cellsAfterRaise, (computingProgram size).setting.isOpaqueEntity cell.entity = false ∧
      0 ∉ (computingProgram size).setting.own cell ∧
      ∀ source ∈ (computingProgram size).setting.sources cell, source ∈ cellsAfterRaise := by
  decide +kernel

/-- What the analysis finds of the program. -/
theorem computingProgram_analyzed {size : Int} (isSize : size ∈ sampleSizes) :
    ∃ r, ((computingProgram size).analyze sampleConfig).outcome = .ok r ∧
      r.exposureTable = [(.singleton 0, 1, 5), (∅, 2, wrap64 (size + size))] ∧
      r.amount (.singleton 0) = 5 ∧ r.amount ∅ = size + size := by
  obtain ⟨positive, valid, isOrder, onlyZero, uses, isSolved, closed⟩ :=
    computingProgram_facts size isSize
  obtain ⟨r, analyzed, notSkipped⟩ :
      ∃ r, ((computingProgram size).analyze sampleConfig).outcome = .ok r ∧ r.skipped = false :=
    Program.exists_result valid rfl rfl
  have solved := Program.isSolved_of_outcome analyzed notSkipped
  have covers := Program.covers_of_outcome analyzed
  have order : r.setting.reachable.order = [0, 1, 2] := by rw [solved.setting, isOrder]
  have isZero : ∀ {k : Nat} {cell : Cell},
      (computingProgram size).setting.Flows k cell → k ∈ CapSet.singleton 0 := by
    intro k cell flows
    exact onlyZero ▸ Program.mem_all_of_flows flows
  have live : r.liveAt 0 = .singleton 0 := by
    refine CapSet.ext_mem fun k => solved.mem_get.trans ⟨isZero, fun member => ?_⟩
    obtain ⟨rfl, _⟩ := CapSet.mem_singleton.mp member
    exact .own isSolved uses
  have dead : ∀ b, ⟨.liveIn, b⟩ ∈ cellsAfterRaise → r.liveAt b = ∅ := by
    intro b inside
    refine CapSet.ext_mem fun k => solved.mem_get.trans ⟨fun flows => ?_, fun member => ?_⟩
    · obtain ⟨rfl, _⟩ := CapSet.mem_singleton.mp (isZero flows)
      exact absurd flows (Setting.not_flows_of_closed cellsAfterRaise closed inside)
    · exact absurd member (CapSet.not_mem_empty k)
  have raising : r.enteredWith [0, 1, 2] (.singleton 0) = [0] := by
    simp only [Result.enteredWith, List.filter, live, dead 1 (by decide), dead 2 (by decide)]
    rfl
  have computing : r.enteredWith [0, 1, 2] ∅ = [1, 2] := by
    simp only [Result.enteredWith, List.filter, live, dead 1 (by decide), dead 2 (by decide)]
    rfl
  have sets : r.setsOf [0, 1, 2] = [.singleton 0, ∅] := by
    simp only [Result.setsOf, List.map, live, dead 1 (by decide), dead 2 (by decide)]
    rfl
  have amountRaising : r.amount (.singleton 0) = 5 := by
    rw [Result.amount, ← covers.toFinset_enteredWith covers.lists_order, order, raising,
      covers.program]
    rfl
  have amountComputing : r.amount ∅ = size + size := by
    have extent : ∀ b : Nat, b ∈ [1, 2].toFinset → (computingProgram size).extent b = size := by
      intro b member
      obtain rfl | rfl : b = 1 ∨ b = 2 := by simpa using member
      all_goals exact max_eq_left positive
    rw [Result.amount, ← covers.toFinset_enteredWith covers.lists_order, order, computing,
      covers.program, Finset.sum_congr rfl extent, Finset.sum_const]
    exact two_nsmul size
  have wrapped : ∀ s, r.sizeOf (r.enteredWith [0, 1, 2] s) = wrap64 (r.amount s) := by
    intro s
    rw [← order, covers.sizeOf_enteredWith covers.lists_order, Result.amount, covers.program]
  refine ⟨r, analyzed, ?_, amountRaising, amountComputing⟩
  rw [Result.exposureTable_eq, order, sets]
  simp only [List.map, wrapped, amountRaising, amountComputing]
  rw [raising, computing]
  rfl

/-- Two blocks of two instructions come after the five with the kind live. -/
theorem exposure_exact_iff_small :
    ∃ r, ((computingProgram 2).analyze sampleConfig).outcome = .ok r ∧
      r.exposure = [⟨.singleton 0, 1, 5⟩, ⟨∅, 2, 4⟩] ∧ r.IsExact r.exposure := by
  have isSize : 2 ∈ sampleSizes := by decide
  obtain ⟨r, analyzed, table, raising, computing⟩ := computingProgram_analyzed isSize
  obtain ⟨_, _, ⟨exact, _⟩, _⟩ := exposure_exact_iff analyzed
  have listed : r.exposure = [⟨.singleton 0, 1, 5⟩, ⟨∅, 2, 4⟩] := by
    rw [r.exposure_eq, table]
    exact List.mergeSort_of_pairwise (by decide +kernel)
  refine ⟨r, analyzed, listed, (exact ?_).1⟩
  rw [listed]
  simp [raising, computing]

/-- **Amounts overflow.** The two blocks that run without the kind have `2 ^ 64 - 2` instructions
together, the exposure shows `-2`, and it lists them after the five with the kind live. -/
theorem exposure_overflows :
    ∃ r, ((computingProgram (2 ^ 63 - 1)).analyze sampleConfig).outcome = .ok r ∧
      r.exposure = [⟨.singleton 0, 1, 5⟩, ⟨∅, 2, -2⟩] ∧
      r.amount (.singleton 0) = 5 ∧ r.amount ∅ = 2 ^ 64 - 2 ∧ ¬ r.IsExact r.exposure := by
  have isSize : 2 ^ 63 - 1 ∈ sampleSizes := by decide
  obtain ⟨r, analyzed, table, raising, computing⟩ := computingProgram_analyzed isSize
  have listed : r.exposure = [⟨.singleton 0, 1, 5⟩, ⟨∅, 2, -2⟩] := by
    rw [r.exposure_eq, table]
    exact List.mergeSort_of_pairwise (by decide +kernel)
  refine ⟨r, analyzed, listed, raising, computing, fun isExact => ?_⟩
  have shown := isExact.amounts ⟨∅, 2, -2⟩ (by simp [listed])
  rw [computing] at shown
  exact absurd shown (by decide)

end CapLiveness
