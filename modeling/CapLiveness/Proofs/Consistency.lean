import CapLiveness.Proofs.Checked.Validation
import Mathlib.Data.List.Nodup

/-!
# Validation is exact

What makes a program fit for the analysis, as a list of conditions on its entries: the ids
are positions, the lists of the functions contain each block once and under the function
that it names, and so on (`Program.IsConsistent`). The conditions mention neither a table
of owners nor an order in which anything is checked.

Validation finds no defect exactly when they hold (`validation_exact`). That it finds none
implies well-formedness, which implies the conditions (`WellFormed.isConsistent`). For the
converse the functions are followed in order. The invariant is that the blocks that are
still to come have no owner yet. It is kept because no id stands in the lists twice
(`checkFunctions_of_free`). Then the table is exact, and the blocks can be checked one
by one (`IsConsistent.blockDefects_eq_nil`).
-/

set_option autoImplicit false

namespace CapLiveness

namespace Program

/-- Whether what a block does is one of the three things that a block can do, and complete. -/
def HasAction (p : Program) (block : Block) : Prop :=
  (block.kind = .plain ∧ block.raised = []) ∨
    (block.kind = .raise ∧ block.raised ≠ []) ∨
      (block.kind = .call ∧ block.raised = [] ∧
        ((∃ callee, block.target = .direct callee ∧ p.hasFunction callee = true) ∨
          (∃ candidates complete, block.target = .resolved candidates complete ∧
            ∀ callee ∈ candidates, p.hasFunction callee = true) ∨
          block.target = .unresolved))

/-- **What validation is to decide.** -/
structure IsConsistent (p : Program) : Prop where
  capabilities : p.capabilities ≠ none
  entry : ∃ function, p.function? p.entry = some function ∧ function.blocks ≠ []
  functionId : ∀ {i : Nat} {function : Function},
    p.functions[i]? = some function → function.id = Int.ofNat i
  blockId : ∀ {i : Nat} {block : Block}, p.blocks[i]? = some block → block.id = Int.ofNat i
  exists_listed : ∀ function ∈ p.functions.toList, ∀ b ∈ function.blocks, p.hasBlock b = true
  /-- No id stands twice in the lists of all functions. -/
  nodup : (p.functions.toList.flatMap (·.blocks)).Nodup
  listed : ∀ {i : Nat} {block : Block}, p.blocks[i]? = some block →
    ∃ function, p.function? block.function = some function ∧ Int.ofNat i ∈ function.blocks
  exit : ∀ function ∈ p.functions.toList,
    function.exit = BlockId.absent ∨ function.exit ∈ function.blocks
  successors : ∀ block ∈ p.blocks.toList, ∀ s ∈ block.successors,
    ∃ next, p.block? s = some next ∧ next.function = block.function
  continues : ∀ block ∈ p.blocks.toList, block.successors ≠ [] ↔ block.exit = .none
  returns : ∀ {i : Nat} {block : Block}, p.blocks[i]? = some block →
    (block.exit = .return ↔
      ∃ function, p.function? block.function = some function ∧ function.exit = Int.ofNat i)
  action : ∀ block ∈ p.blocks.toList, p.HasAction block

variable {p : Program}

theorem hasAction_iff {block : Block} : p.HasAction block ↔ p.FitsKind block := by
  unfold HasAction FitsKind
  cases block.kind with
  | plain | raise | unknown => simp
  | call => cases block.target <;> simp [HasTargets]

/-! ## Well-formed programs are consistent -/

theorem mem_functions_iff {function : Function} :
    function ∈ p.functions.toList ↔ ∃ i : Nat, p.function? (Int.ofNat i) = some function := by
  rw [List.mem_iff_getElem?]
  simp only [Array.getElem?_toList]
  rfl

theorem mem_blocks_iff {block : Block} :
    block ∈ p.blocks.toList ↔ ∃ i : Nat, p.block? (Int.ofNat i) = some block := by
  rw [List.mem_iff_getElem?]
  simp only [Array.getElem?_toList]
  rfl

/-- Functions that list only blocks that name them list different ones. -/
theorem nodup_flatMap_blocks
    (nodup : ∀ {f function}, p.function? f = some function → function.blocks.Nodup)
    (names : ∀ {f function b}, p.function? f = some function → b ∈ function.blocks →
      ∃ block, p.block? b = some block ∧ block.function = f) :
    (p.functions.toList.flatMap (·.blocks)).Nodup := by
  rw [List.nodup_flatMap, List.pairwise_iff_getElem]
  refine ⟨?_, ?_⟩
  · intro function member
    obtain ⟨i, found⟩ := mem_functions_iff.mp member
    exact nodup found
  · intro i j boundI boundJ before b listedI listedJ
    have foundI : p.function? (Int.ofNat i) = some p.functions.toList[i] :=
      mem_zipIdx_toList_iff.mp
        (List.mk_mem_zipIdx_iff_getElem?.mpr (List.getElem?_eq_getElem boundI))
    have foundJ : p.function? (Int.ofNat j) = some p.functions.toList[j] :=
      mem_zipIdx_toList_iff.mp
        (List.mk_mem_zipIdx_iff_getElem?.mpr (List.getElem?_eq_getElem boundJ))
    obtain ⟨block, found, namesI⟩ := names foundI listedI
    obtain ⟨other, foundOther, namesJ⟩ := names foundJ listedJ
    obtain rfl := Option.some.inj (found.symm.trans foundOther)
    exact absurd (Int.ofNat.inj (namesI.symm.trans namesJ)) (Nat.ne_of_lt before)

theorem WellFormed.isConsistent (wf : p.WellFormed) : p.IsConsistent where
  capabilities := Option.isSome_iff_ne_none.mp wf.capabilities
  entry := wf.entry
  functionId found := (wf.function (f := Int.ofNat _) found).id
  blockId found := (wf.block (b := Int.ofNat _) found).id
  exists_listed function member := by
    obtain ⟨i, found⟩ := mem_functions_iff.mp member
    exact (wf.function found).exists_block
  nodup := nodup_flatMap_blocks (fun found => (wf.function found).nodup) wf.exists_listed
  listed {i block} found := by
    obtain ⟨function, foundFunction⟩ := wf.owner (b := Int.ofNat i) found
    exact ⟨function, foundFunction,
      (wf.listed_iff (b := Int.ofNat i) foundFunction found).mpr rfl⟩
  exit function member := by
    obtain ⟨i, found⟩ := mem_functions_iff.mp member
    exact (wf.function found).exit
  successors block member := by
    obtain ⟨i, found⟩ := mem_blocks_iff.mp member
    exact (wf.block found).successors
  continues block member := by
    obtain ⟨i, found⟩ := mem_blocks_iff.mp member
    rw [ne_eq, (wf.block found).continues, Decidable.not_not]
  returns found := (wf.block (b := Int.ofNat _) found).returns
  action block member := by
    obtain ⟨i, found⟩ := mem_blocks_iff.mp member
    exact hasAction_iff.mpr (wf.block found).kind

/-! ## Consistent programs have no defect -/

/-- Blocks that exist, have no owner and are listed once are entered without a defect. -/
theorem claimBlocks_of_free (index : Nat) (blocks : List BlockId)
    (state : Owners × List FunctionDefect) (sized : state.1.size = p.blocks.size)
    (clean : state.2 = []) (has : ∀ b ∈ blocks, p.hasBlock b = true) (nodup : blocks.Nodup)
    (free : ∀ b ∈ blocks, state.1.of b = none) :
    (blocks.foldl (p.claimBlock index) state).2 = [] := by
  induction blocks generalizing state with
  | nil => exact clean
  | cons first rest ih =>
    obtain ⟨hasFirst, hasRest⟩ := List.forall_mem_cons.mp has
    obtain ⟨freeFirst, freeRest⟩ := List.forall_mem_cons.mp free
    obtain ⟨notLater, nodupRest⟩ := List.nodup_cons.mp nodup
    have cleanFirst : (p.claimBlock index state first).2 = [] := by
      simp [claimBlock, hasFirst, freeFirst, clean]
    obtain ⟨_, _, _, owners⟩ := claimBlock_of_clean sized cleanFirst
    refine ih _ ((size_claimBlock index state first).trans sized) cleanFirst hasRest nodupRest ?_
    intro b later
    have different : b ≠ first := fun same => notLater (same ▸ later)
    rw [owners b, if_neg different]
    exact freeRest b later

theorem checkFunction_of_free {owners : Owners} {index : Nat} {function : Function}
    (sized : owners.size = p.blocks.size) (fits : p.FunctionFits (Int.ofNat index) function)
    (free : ∀ b ∈ function.blocks, owners.of b = none) :
    (p.checkFunction owners index function).2 = [] := by
  have clean := claimBlocks_of_free index function.blocks (owners, []) sized rfl
    fits.exists_block fits.nodup free
  obtain ⟨_, _, _, _, after⟩ := claimBlocks_of_clean function.blocks (owners, []) sized clean
  have id : ¬ function.id ≠ index := Decidable.not_not.mpr fits.id
  unfold checkFunction
  rw [if_neg id]
  refine List.append_eq_nil_iff.mpr ⟨clean, ?_⟩
  unfold exitDefects
  rcases fits.exit with absent | listed
  · rw [if_pos absent]
  · have body : function.isDeclaration = false :=
      List.isEmpty_eq_false_iff_exists_mem.mpr ⟨_, listed⟩
    simp [after, listed, body]

/-- **Checking consistent functions in order.** As long as no block that is still to come has
an owner, no defect is found. -/
theorem checkFunctions_of_free (functions : List Function) (start : Nat)
    (state : Owners × List Defect) (sized : state.1.size = p.blocks.size) (clean : state.2 = [])
    (earlier : ∀ b i, state.1.of b = some i → i < start)
    (fits : ∀ entry ∈ functions.zipIdx start, p.FunctionFits (Int.ofNat entry.2) entry.1)
    (nodup : (functions.flatMap (·.blocks)).Nodup)
    (free : ∀ b ∈ functions.flatMap (·.blocks), state.1.of b = none) :
    ((functions.zipIdx start).foldl p.checkNext state).2 = [] := by
  induction functions generalizing start state with
  | nil => exact clean
  | cons first rest ih =>
    rw [List.zipIdx_cons] at fits ⊢
    obtain ⟨fitsFirst, fitsRest⟩ := List.forall_mem_cons.mp fits
    rw [List.flatMap_cons] at nodup free
    obtain ⟨_, nodupRest, apart⟩ := List.nodup_append.mp nodup
    have cleanFirst := checkFunction_of_free sized fitsFirst fun b listed =>
      free b (List.mem_append_left _ listed)
    have fresh : ∀ b, state.1.of b ≠ some start := fun b owned =>
      absurd (earlier b start owned) (Nat.lt_irrefl start)
    obtain ⟨_, sizedFirst, owners⟩ := checkFunction_of_clean sized fresh cleanFirst
    refine ih (start + 1) _ sizedFirst ?_ ?_ fitsRest nodupRest ?_
    · exact List.append_eq_nil_iff.mpr ⟨clean, List.map_eq_nil_iff.mpr cleanFirst⟩
    · intro b i owned
      rcases (owners b i).mp owned with before | ⟨rfl, _⟩
      · exact Nat.lt_succ_of_lt (earlier b i before)
      · exact Nat.lt_succ_self _
    · intro b later
      rw [Option.eq_none_iff_forall_ne_some]
      intro i owned
      rcases (owners b i).mp owned with before | ⟨_, listed⟩
      · rw [free b (List.mem_append_right _ later)] at before
        cases before
      · exact apart b listed b later rfl

/-- Functions that fit and list different blocks have no defect. -/
theorem checkFunctions_eq_nil
    (fits : ∀ {f function}, p.function? f = some function → p.FunctionFits f function)
    (nodup : (p.functions.toList.flatMap (·.blocks)).Nodup) : p.checkFunctions.2 = [] := by
  have unowned : ∀ b : BlockId, Owners.of (Array.replicate p.blocks.size none) b = none := by
    intro b
    cases b with
    | ofNat i =>
      by_cases bound : i < p.blocks.size <;> simp [Owners.of, entryAt?, bound]
    | negSucc i => rfl
  refine checkFunctions_of_free p.functions.toList 0 (Array.replicate p.blocks.size none, [])
    Array.size_replicate rfl ?_ ?_ nodup fun b _ => unowned b
  · intro b i owned
    rw [unowned b] at owned
    cases owned
  · rintro ⟨function, i⟩ member
    exact fits (mem_zipIdx_toList_iff.mp member)

/-- An exact table of owners gives a listed block the function that it names. -/
theorem owner_eq {owners : Owners} (exact : owners.IsExact p) {b : BlockId} {block : Block}
    (listed : ∃ function, p.function? block.function = some function ∧ b ∈ function.blocks) :
    (owners.of b).map Int.ofNat = some block.function := by
  obtain ⟨function, found, listed⟩ := listed
  obtain ⟨j, names, inside⟩ := entryAt?_eq_some_iff.mp found
  rw [(exact b j).mpr ⟨function, inside, listed⟩, names]
  rfl

namespace IsConsistent

variable (consistent : p.IsConsistent)
include consistent

theorem functionFits {f : FunctionId} {function : Function}
    (found : p.function? f = some function) : p.FunctionFits f function := by
  obtain ⟨i, rfl, inside⟩ := entryAt?_eq_some_iff.mp found
  have member : function ∈ p.functions.toList := mem_functions_iff.mpr ⟨i, found⟩
  exact ⟨consistent.functionId inside, consistent.exists_listed function member,
    (List.nodup_flatMap.mp consistent.nodup).1 function member, consistent.exit function member⟩

theorem blockDefects_eq_nil {owners : Owners} (exact : owners.IsExact p) {i : Nat} {block : Block}
    (found : p.blocks[i]? = some block) : p.blockDefects owners i block = [] := by
  have member : block ∈ p.blocks.toList := mem_blocks_iff.mpr ⟨i, found⟩
  have id : block.id = i := consistent.blockId found
  have owner : (owners.of i).map Int.ofNat = some block.function :=
    owner_eq exact (consistent.listed found)
  unfold blockDefects
  rw [if_neg (not_not_intro id), if_neg (not_not_intro owner)]
  simp only [List.append_eq_nil_iff]
  refine ⟨⟨?_, ?_⟩, ?_⟩
  · refine successorDefects_eq_nil_iff.mpr fun s follows => ?_
    obtain ⟨next, foundNext, sameFunction⟩ := consistent.successors block member s follows
    obtain ⟨j, rfl, insideNext⟩ := entryAt?_eq_some_iff.mp foundNext
    refine ⟨?_, sameFunction ▸ owner_eq exact (consistent.listed insideNext)⟩
    rw [← isSome_block?, foundNext]
    rfl
  · refine exitKindDefects_eq_nil_iff.mpr ⟨?_, ?_⟩
    · rw [ne_eq, ← consistent.continues block member, ne_eq, Decidable.not_not]
    · rw [id]
      exact consistent.returns found
  · exact kindDefects_eq_nil_iff.mpr (hasAction_iff.mp (consistent.action block member))

/-- **Consistent programs pass validation.** -/
theorem validate_eq_none : p.validate = none := by
  have cleanFunctions := checkFunctions_eq_nil consistent.functionFits consistent.nodup
  have exact := (checkFunctions_exact cleanFunctions).2
  have cleanBlocks : p.checkBlocks p.checkFunctions.1 = [] := by
    refine List.flatMap_eq_nil_iff.mpr ?_
    rintro ⟨block, i⟩ member
    exact List.map_eq_nil_iff.mpr
      (consistent.blockDefects_eq_nil exact (mem_zipIdx_toList_iff.mp member))
  obtain ⟨caps, hasCaps⟩ := Option.ne_none_iff_exists'.mp consistent.capabilities
  obtain ⟨entry, found, nonempty⟩ := consistent.entry
  have body : entry.isDeclaration = false := by simpa [Function.isDeclaration] using nonempty
  refine validate_eq_none_iff.mpr ?_
  simp [defects, hasCaps, found, body, cleanFunctions, cleanBlocks]

end IsConsistent

end Program

/-- **Validation is exact.** It finds nothing wrong with a program if and only if the program
is consistent. Whatever the program, it looks up only what exists: with lookups that fail
where there is no entry, validation has the same outcome. -/
theorem validation_exact (p : Program) :
    (p.validate = none ↔ p.IsConsistent) ∧ Checked.validate p = some p.validate := by
  refine ⟨⟨?_, ?_⟩, Checked.validate_eq_some p⟩
  · intro valid
    exact (Program.wellFormed_of_validate valid).isConsistent
  · intro consistent
    exact consistent.validate_eq_none

end CapLiveness
