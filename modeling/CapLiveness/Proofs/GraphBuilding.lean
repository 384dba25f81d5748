import CapLiveness.Analysis.Graph

/-!
# The pass over the blocks of a program

The graph of a program is collected in one pass: each block is appended to some rows of
three tables, and two counters go up. The tables are described here by lists that are read
off the blocks directly: the predecessors of a block (`predecessorsIn`), the call sites of a
function (`sitesIn`), the call sites that may enter a slot (`callersIn`), and the indirect
calls (`indirectIn`).

The invariant of the pass says that the tables hold these lists for the blocks entered so
far (`BlockIndex.Records`). Nothing is recorded in the beginning, one more block extends
every row as the lists say (`Records.enter`), and so after the pass the rows are those of all
blocks (`records_blockIndex`). Blocks are entered in the order of their positions. The rows
therefore come out sorted, and sorting the predecessors in the end does not move them
(`Graph.predecessors_ofProgram`).
-/

set_option autoImplicit false

namespace CapLiveness

/-! ## Tables of rows -/

/-- The table with a given row at each number. -/
def rowsOf (count : Nat) (row : Nat → List Nat) : Array (List Nat) :=
  ((List.range count).map row).toArray

@[simp] theorem size_rowsOf (count : Nat) (row : Nat → List Nat) :
    (rowsOf count row).size = count := by
  simp [rowsOf]

theorem getElem?_rowsOf (count : Nat) (row : Nat → List Nat) (i : Nat) :
    (rowsOf count row)[i]? = if i < count then some (row i) else none := by
  by_cases inside : i < count <;> simp [rowsOf, inside]

theorem getD_rowsOf (count : Nat) (row : Nat → List Nat) (i : Nat) :
    (rowsOf count row).getD i [] = if i < count then row i else [] := by
  rw [Array.getD_eq_getD_getElem?, getElem?_rowsOf]
  split <;> rfl

theorem mem_getD_rowsOf {count i x : Nat} {row : Nat → List Nat} :
    x ∈ (rowsOf count row).getD i [] ↔ i < count ∧ x ∈ row i := by
  rw [getD_rowsOf]
  by_cases inside : i < count <;> simp [inside]

theorem replicate_nil_eq_rowsOf (count : Nat) :
    Array.replicate count ([] : List Nat) = rowsOf count fun _ => [] := by
  apply Array.ext_getElem?
  intro i
  rw [getElem?_rowsOf, Array.getElem?_replicate]

theorem map_rowsOf (count : Nat) (row : Nat → List Nat) (f : List Nat → List Nat) :
    (rowsOf count row).map f = rowsOf count fun i => f (row i) := by
  simp [rowsOf, Function.comp_def]

theorem appendTo_rowsOf (count : Nat) (row : Nat → List Nat) (i : Int) (x : Nat) :
    appendTo (rowsOf count row) i x =
      rowsOf count fun j => row j ++ if i = Int.ofNat j then [x] else [] := by
  apply Array.ext_getElem?
  intro j
  cases i with
  | ofNat i =>
    rw [appendTo, Array.getElem?_modify, getElem?_rowsOf, getElem?_rowsOf]
    by_cases same : i = j
    · subst same
      by_cases inside : i < count <;> simp [inside]
    · have different : ¬ Int.ofNat i = Int.ofNat j := fun equal => same (Int.ofNat.inj equal)
      rw [if_neg same, if_neg different, List.append_nil]
  | negSucc i => simp [appendTo]

/-- **Appending a number to a list of rows** puts it into each row as often as the row is
listed. -/
theorem foldl_appendTo_rowsOf (count : Nat) (row : Nat → List Nat) (targets : List Int) (x : Nat) :
    targets.foldl (fun rows i => appendTo rows i x) (rowsOf count row) =
      rowsOf count fun j => row j ++ List.replicate (targets.count (Int.ofNat j)) x := by
  induction targets generalizing row with
  | nil => simp
  | cons i rest ih =>
    rw [List.foldl_cons, appendTo_rowsOf, ih]
    congr 1
    funext j
    by_cases same : i = Int.ofNat j
    · rw [if_pos same, same, List.count_cons_self, List.append_assoc, List.replicate_succ]
      rfl
    · rw [if_neg same, List.append_nil, List.count_cons_of_ne same]

theorem pairwise_zipIdx {α : Type} (xs : List α) : xs.zipIdx.Pairwise (·.2 < ·.2) := by
  have positions : (xs.zipIdx.map (·.2)).Pairwise (· < ·) := by
    rw [List.zipIdx_map_snd]
    exact List.pairwise_lt_range'
  exact List.pairwise_map.mp positions

/-! ## Slots of a call -/

theorem pairwise_eraseRepsBy_loop (xs : List Nat) {a : Nat} {seen : List Nat}
    (sorted : (a :: xs).Pairwise (· ≤ ·)) (before : seen.Pairwise (· > ·))
    (smaller : ∀ x ∈ seen, x < a) :
    (List.eraseRepsBy.loop (· == ·) a xs seen).Pairwise (· < ·) := by
  induction xs generalizing a seen with
  | nil =>
    rw [List.eraseRepsBy.loop, List.pairwise_reverse]
    exact List.pairwise_cons.mpr ⟨smaller, before⟩
  | cons b rest ih =>
    obtain ⟨least, sortedRest⟩ := List.pairwise_cons.mp sorted
    rw [List.eraseRepsBy.loop]
    split
    case h_1 same =>
      have equal : a = b := beq_iff_eq.mp same
      exact ih (equal ▸ sortedRest) before smaller
    case h_2 differs =>
      have below : a < b := by
        have atMost := least b List.mem_cons_self
        have different : a ≠ b := by simpa using differs
        omega
      refine ih sortedRest (List.pairwise_cons.mpr ⟨smaller, before⟩) ?_
      intro x member
      rcases List.mem_cons.mp member with rfl | member
      · exact below
      · exact Nat.lt_trans (smaller x member) below

theorem pairwise_mergeSort_nat (xs : List Nat) : (xs.mergeSort (· ≤ ·)).Pairwise (· ≤ ·) := by
  have sorted := List.pairwise_mergeSort
    (fun (a b c : Nat) (first : decide (a ≤ b) = true) (second : decide (b ≤ c) = true) =>
      decide_eq_true (Nat.le_trans (of_decide_eq_true first) (of_decide_eq_true second)))
    (fun a b => by simpa using Nat.le_total a b) xs
  exact sorted.imp of_decide_eq_true

/-- The slots that a call may enter are listed in increasing order, each once, however often
a target is repeated. -/
theorem pairwise_calleeSlots (n : Nat) (target : CallTarget) :
    (calleeSlots n target).Pairwise (· < ·) := by
  have strict : ∀ xs : List Nat, (xs.mergeSort (· ≤ ·)).eraseReps.Pairwise (· < ·) := by
    intro xs
    have sorted := pairwise_mergeSort_nat xs
    cases same : xs.mergeSort (· ≤ ·) with
    | nil => exact List.Pairwise.nil
    | cons a rest =>
      rw [same] at sorted
      exact pairwise_eraseRepsBy_loop rest sorted List.Pairwise.nil (by simp)
  exact strict _

theorem nodup_calleeSlots (n : Nat) (target : CallTarget) : (calleeSlots n target).Nodup :=
  (pairwise_calleeSlots n target).imp Nat.ne_of_lt

/-! ## What the blocks say -/

/-- The blocks that have `s` as a successor, once for each time. -/
def predecessorsIn (entries : List (Block × Nat)) (s : Nat) : List Nat :=
  entries.flatMap fun entry => List.replicate (entry.1.successors.count (Int.ofNat s)) entry.2

/-- The positions of the blocks that pass a test. -/
def positionsOf (test : Block → Bool) (entries : List (Block × Nat)) : List Nat :=
  (entries.filter fun entry => test entry.1).map (·.2)

/-- The call sites of the function in a slot. -/
def sitesIn (entries : List (Block × Nat)) (slot : Nat) : List Nat :=
  positionsOf (fun block => block.kind = .call ∧ block.function = Int.ofNat slot) entries

/-- The call sites that may enter a slot, where there are `n` functions. -/
def callersIn (n : Nat) (entries : List (Block × Nat)) (slot : Nat) : List Nat :=
  positionsOf (fun block => block.kind = .call ∧ slot ∈ calleeSlots n block.target) entries

/-- The indirect calls. -/
def indirectIn (entries : List (Block × Nat)) : List CallTarget :=
  (entries.filter fun entry => entry.1.kind = .call ∧ ¬ entry.1.target.isDirect).map (·.1.target)

theorem mem_positionsOf {test : Block → Bool} {entries : List (Block × Nat)} {b : Nat} :
    b ∈ positionsOf test entries ↔ ∃ block, (block, b) ∈ entries ∧ test block = true := by
  rw [positionsOf, List.mem_map]
  constructor
  · rintro ⟨⟨block, _⟩, member, rfl⟩
    exact ⟨block, List.mem_filter.mp member⟩
  · rintro ⟨block, listed, passes⟩
    exact ⟨(block, b), List.mem_filter.mpr ⟨listed, passes⟩, rfl⟩

section Snoc

variable (entries : List (Block × Nat)) (block : Block) (b : Nat)

theorem positionsOf_snoc (test : Block → Bool) :
    positionsOf test (entries ++ [(block, b)]) =
      positionsOf test entries ++ if test block = true then [b] else [] := by
  rw [positionsOf, List.filter_append, List.map_append]
  cases passes : test block <;> simp [positionsOf, passes]

theorem predecessorsIn_snoc (s : Nat) :
    predecessorsIn (entries ++ [(block, b)]) s =
      predecessorsIn entries s ++ List.replicate (block.successors.count (Int.ofNat s)) b := by
  simp [predecessorsIn]

theorem sitesIn_snoc (slot : Nat) :
    sitesIn (entries ++ [(block, b)]) slot = sitesIn entries slot ++
      if block.kind = .call ∧ block.function = Int.ofNat slot then [b] else [] := by
  simp only [sitesIn, positionsOf_snoc, decide_eq_true_eq]

theorem callersIn_snoc (n slot : Nat) :
    callersIn n (entries ++ [(block, b)]) slot = callersIn n entries slot ++
      if block.kind = .call ∧ slot ∈ calleeSlots n block.target then [b] else [] := by
  simp only [callersIn, positionsOf_snoc, decide_eq_true_eq]

theorem indirectIn_snoc :
    indirectIn (entries ++ [(block, b)]) = indirectIn entries ++
      if block.kind = .call ∧ ¬ block.target.isDirect then [block.target] else [] := by
  rw [indirectIn, List.filter_append, List.map_append, List.filter_cons]
  simp only [decide_eq_true_eq, List.filter_nil]
  split <;> rfl

end Snoc

section Sorted

variable {entries : List (Block × Nat)} (increasing : entries.Pairwise (·.2 < ·.2))
include increasing

theorem pairwise_positionsOf (test : Block → Bool) :
    (positionsOf test entries).Pairwise (· < ·) :=
  List.pairwise_map.mpr (increasing.filter _)

theorem pairwise_predecessorsIn (s : Nat) : (predecessorsIn entries s).Pairwise (· ≤ ·) := by
  refine List.pairwise_flatMap.mpr ⟨fun entry _ => ?_, increasing.imp ?_⟩
  · exact List.pairwise_replicate.mpr (.inr (Nat.le_refl _))
  · intro first second before b atFirst c atSecond
    rw [List.eq_of_mem_replicate atFirst, List.eq_of_mem_replicate atSecond]
    exact Nat.le_of_lt before

end Sorted

/-! ## The invariant of the pass -/

namespace BlockIndex

/-- Whether an index for `n` functions and a number of blocks holds what some of the blocks
say. -/
structure Records (n blocks : Nat) (index : BlockIndex) (entries : List (Block × Nat)) : Prop where
  predecessors : index.predecessors = rowsOf blocks (predecessorsIn entries)
  sites : index.sites = rowsOf (n + 2) (sitesIn entries)
  callers : index.callers = rowsOf (n + 2) (callersIn n entries)
  indirect : index.indirect = (indirectIn entries).length
  complete : index.complete = (indirectIn entries).countP (!·.reachesExternal)

variable {n blocks : Nat} {index : BlockIndex} {entries : List (Block × Nat)}

theorem records_empty (n blocks : Nat) : Records n blocks (empty n blocks) [] where
  predecessors := replicate_nil_eq_rowsOf blocks
  sites := replicate_nil_eq_rowsOf (n + 2)
  callers := replicate_nil_eq_rowsOf (n + 2)
  indirect := rfl
  complete := rfl

/-- A call site is appended once to each of the rows that it may enter. -/
theorem appendTo_callees (rows : Nat → List Nat) (target : CallTarget) (b : Nat) :
    (calleeSlots n target).foldl (fun table slot => appendTo table (Int.ofNat slot) b)
        (rowsOf (n + 2) rows) =
      rowsOf (n + 2) fun slot => rows slot ++ if slot ∈ calleeSlots n target then [b] else [] := by
  have asIds := foldl_appendTo_rowsOf (n + 2) rows ((calleeSlots n target).map Int.ofNat) b
  rw [List.foldl_map] at asIds
  rw [asIds]
  congr 1
  funext slot
  have once : ((calleeSlots n target).map Int.ofNat).Nodup := by
    refine List.Pairwise.map _ (fun _ _ different same => ?_) (nodup_calleeSlots n target)
    exact different (Int.ofNat.inj same)
  have listed : Int.ofNat slot ∈ (calleeSlots n target).map Int.ofNat ↔
      slot ∈ calleeSlots n target := by
    rw [List.mem_map]
    constructor
    · rintro ⟨other, callee, same⟩
      exact Int.ofNat.inj same ▸ callee
    · intro callee
      exact ⟨slot, callee, rfl⟩
  rw [once.count]
  simp only [listed]
  split <;> rfl

/-- **One more block extends the rows** by what it says. -/
theorem Records.enter (records : Records n blocks index entries) (entry : Block × Nat) :
    Records n blocks (index.enter n entry) (entries ++ [entry]) := by
  obtain ⟨block, b⟩ := entry
  have followed : block.successors.foldl (fun rows s => appendTo rows s b) index.predecessors =
      rowsOf blocks (predecessorsIn (entries ++ [(block, b)])) := by
    rw [records.predecessors, foldl_appendTo_rowsOf, ← funext (predecessorsIn_snoc entries block b)]
  unfold BlockIndex.enter
  by_cases call : block.kind = .call
  · rw [if_pos call]
    refine ⟨followed, ?_, ?_, ?_, ?_⟩
    · rw [funext (sitesIn_snoc entries block b)]
      simp only [enterCall, records.sites, appendTo_rowsOf, call, true_and]
    · rw [funext (callersIn_snoc entries block b n)]
      simp only [enterCall, records.callers, appendTo_callees, call, true_and]
    · rw [indirectIn_snoc]
      cases direct : block.target.isDirect <;> simp [enterCall, records.indirect, call, direct]
    · rw [indirectIn_snoc]
      cases direct : block.target.isDirect <;> cases outside : block.target.reachesExternal <;>
        simp [enterCall, records.complete, call, direct, outside]
  · rw [if_neg call]
    refine ⟨followed, ?_, ?_, ?_, ?_⟩
    · simp only [funext (sitesIn_snoc entries block b), call, false_and, if_false,
        List.append_nil]
      exact records.sites
    · simp only [funext (callersIn_snoc entries block b n), call, false_and, if_false,
        List.append_nil]
      exact records.callers
    · simp only [indirectIn_snoc, call, false_and, if_false, List.append_nil]
      exact records.indirect
    · simp only [indirectIn_snoc, call, false_and, if_false, List.append_nil]
      exact records.complete

/-- Entering blocks one after the other extends the rows by what they say. -/
theorem Records.foldl_enter (records : Records n blocks index entries)
    (rest : List (Block × Nat)) :
    Records n blocks (rest.foldl (BlockIndex.enter n) index) (entries ++ rest) := by
  induction rest generalizing index entries with
  | nil => simpa using records
  | cons entry rest ih => simpa using ih (records.enter entry)

end BlockIndex

/-! ## The finished pass -/

namespace Program

variable (p : Program)

/-- **After the pass the index holds what all blocks say.** -/
theorem records_blockIndex :
    BlockIndex.Records p.functions.size p.blocks.size p.blockIndex p.blockEntries :=
  (BlockIndex.records_empty p.functions.size p.blocks.size).foldl_enter p.blockEntries

/-- Blocks are entered in the order of their positions. -/
theorem pairwise_blockEntries : p.blockEntries.Pairwise (·.2 < ·.2) := pairwise_zipIdx _

end Program

namespace Graph

variable (p : Program)

theorem predecessors_ofProgram :
    (ofProgram p).predecessors = rowsOf p.blocks.size (predecessorsIn p.blockEntries) := by
  show p.blockIndex.predecessors.map (·.mergeSort (· ≤ ·)) = _
  rw [p.records_blockIndex.predecessors, map_rowsOf]
  congr 1
  funext s
  refine List.mergeSort_of_pairwise ?_
  exact (pairwise_predecessorsIn p.pairwise_blockEntries s).imp decide_eq_true

theorem sites_ofProgram :
    (ofProgram p).sites = rowsOf (p.functions.size + 2) (sitesIn p.blockEntries) :=
  p.records_blockIndex.sites

theorem callers_ofProgram :
    (ofProgram p).callers =
      rowsOf (p.functions.size + 2) (callersIn p.functions.size p.blockEntries) :=
  p.records_blockIndex.callers

/-- Marking slots one after the other marks those that are listed, where there are any. -/
theorem getD_foldl_mark (slots : List Nat) (marks : Array Bool) (slot : Nat) :
    (slots.foldl (fun marks i => marks.setIfInBounds i true) marks).getD slot false =
      (marks.getD slot false || (decide (slot ∈ slots) && decide (slot < marks.size))) := by
  induction slots generalizing marks with
  | nil => simp
  | cons first rest ih =>
    rw [List.foldl_cons, ih, Array.size_setIfInBounds]
    simp only [Array.getD_eq_getD_getElem?, Array.getElem?_setIfInBounds, List.mem_cons]
    by_cases same : first = slot
    · subst same
      by_cases inside : first < marks.size <;> simp [inside]
    · simp [same, Ne.symm same]

theorem size_foldl_mark (slots : List Nat) (marks : Array Bool) :
    (slots.foldl (fun marks i => marks.setIfInBounds i true) marks).size = marks.size := by
  induction slots generalizing marks with
  | nil => rfl
  | cons first rest ih => rw [List.foldl_cons, ih, Array.size_setIfInBounds]

/-- There is a mark for each slot. -/
theorem size_externalSlots : (ofProgram p).externalSlots.size = p.functions.size + 2 := by
  rw [ofProgram, size_foldl_mark, Array.size_replicate]

theorem lt_of_mem_externalFunctions {slot : Nat} (external : slot ∈ p.externalFunctions) :
    slot < p.functions.size := by
  simp only [Program.externalFunctions, List.mem_filterMap, Option.ite_none_right_eq_some,
    Option.some.injEq] at external
  obtain ⟨⟨function, _⟩, member, _, rfl⟩ := external
  simpa using List.snd_lt_of_mem_zipIdx member

/-- The marks are those of the listed functions. -/
theorem isExternal_ofProgram {slot : Nat} :
    (ofProgram p).isExternal slot = true ↔ slot ∈ p.externalFunctions := by
  have unmarked : (Array.replicate (p.functions.size + 2) false).getD slot false = false := by
    rw [Array.getD_eq_getD_getElem?, Array.getElem?_replicate]
    split <;> rfl
  rw [isExternal, ofProgram, getD_foldl_mark, unmarked, Array.size_replicate]
  by_cases external : slot ∈ p.externalFunctions
  · have inside : slot < p.functions.size + 2 :=
      Nat.lt_add_right 2 (lt_of_mem_externalFunctions p external)
    simp [external, inside]
  · simp [external]

end Graph

end CapLiveness
