import CapLiveness.Program.Validation

/-!
# Well-formed programs

A program is well formed when its ids are positions, every block is listed by
exactly the function it names, edges stay inside one function, the block that
returns is the canonical exit, and what a block does fits its kind. The notion
says nothing about how it is checked.

Validation establishes it (`wellFormed_of_validate`). The functions are checked
one after the other against a table of owners. The invariant of that pass is
that the table records exactly the listings of the functions checked so far; it
is carried first over the block list of one function
(`claimBlocks_of_clean`) and then over the list of functions
(`checkFunctions_of_clean`). The blocks are then checked one by one against the
finished table.
-/

set_option autoImplicit false

namespace CapLiveness

/-! ## Entries by number -/

/-- The numbers with an entry are positions. -/
theorem entryAt?_eq_some_iff {α : Type} {entries : Array α} {index : Int} {x : α} :
    entryAt? entries index = some x ↔ ∃ i : Nat, index = Int.ofNat i ∧ entries[i]? = some x := by
  cases index with
  | ofNat i =>
    constructor
    · intro found
      exact ⟨i, rfl, found⟩
    · rintro ⟨j, same, found⟩
      cases same
      exact found
  | negSucc i =>
    constructor
    · intro found
      cases found
    · rintro ⟨j, same, _⟩
      cases same

namespace Program

theorem exists_of_hasFunction {p : Program} {f : FunctionId} (has : p.hasFunction f = true) :
    ∃ function, p.function? f = some function := by
  rw [← isSome_function?] at has
  exact Option.isSome_iff_exists.mp has

theorem exists_of_hasBlock {p : Program} {b : BlockId} (has : p.hasBlock b = true) :
    ∃ block, p.block? b = some block := by
  rw [← isSome_block?] at has
  exact Option.isSome_iff_exists.mp has

theorem lt_of_function? {p : Program} {i : Nat} {function : Function}
    (found : p.function? (Int.ofNat i) = some function) : i < p.functions.size :=
  (Array.getElem?_eq_some_iff.mp found).1

theorem lt_of_block? {p : Program} {b : Nat} {block : Block}
    (found : p.block? (Int.ofNat b) = some block) : b < p.blocks.size :=
  (Array.getElem?_eq_some_iff.mp found).1

/-! ## The notion -/

/-- Whether the known targets of a call are functions of the program. -/
def HasTargets (p : Program) : CallTarget → Prop
  | .direct callee => p.hasFunction callee = true
  | .resolved candidates _ => ∀ f ∈ candidates, p.hasFunction f = true
  | .unresolved => True
  | .unknown _ => False

/-- Whether the arguments and the target of a block fit its kind. -/
def FitsKind (p : Program) (block : Block) : Prop :=
  match block.kind with
  | .plain => block.raised = []
  | .raise => block.raised ≠ []
  | .call => block.raised = [] ∧ p.HasTargets block.target
  | .unknown _ => False

/-- What holds of a function of a well-formed program, given its id. -/
structure FunctionFits (p : Program) (f : FunctionId) (function : Function) : Prop where
  id : function.id = f
  exists_block : ∀ b ∈ function.blocks, p.hasBlock b = true
  nodup : function.blocks.Nodup
  exit : function.exit = BlockId.absent ∨ function.exit ∈ function.blocks

/-- What holds of a block of a well-formed program, given its id. -/
structure BlockFits (p : Program) (b : BlockId) (block : Block) : Prop where
  id : block.id = b
  successors : ∀ s ∈ block.successors, ∃ next, p.block? s = some next ∧
    next.function = block.function
  continues : block.successors = [] ↔ block.exit ≠ .none
  returns : block.exit = .return ↔
    ∃ function, p.function? block.function = some function ∧ function.exit = b
  kind : p.FitsKind block

/-- **Well-formed programs.** -/
structure WellFormed (p : Program) : Prop where
  capabilities : p.capabilities.isSome = true
  entry : ∃ function, p.function? p.entry = some function ∧ function.blocks ≠ []
  function : ∀ {f function}, p.function? f = some function → p.FunctionFits f function
  block : ∀ {b block}, p.block? b = some block → p.BlockFits b block
  /-- A function lists exactly the blocks that name it. -/
  listed_iff : ∀ {f function b block}, p.function? f = some function → p.block? b = some block →
    (b ∈ function.blocks ↔ block.function = f)
  /-- The function that a block names exists. -/
  owner : ∀ {b block}, p.block? b = some block →
    ∃ function, p.function? block.function = some function

namespace Owners

/-- A block that is entered into the table belongs to the function it is entered
for; the owners of the other blocks stay. -/
theorem of_setIfInBounds {owners : Owners} {i : Nat} (bound : i < owners.size) (index : Nat)
    (c : BlockId) :
    Owners.of (owners.setIfInBounds i (some index)) c =
      if c = Int.ofNat i then some index else owners.of c := by
  cases c with
  | ofNat j =>
    by_cases same : i = j
    · subst same
      simp [Owners.of, entryAt?, bound]
    · have different : ¬ (Int.ofNat j = Int.ofNat i) := fun equal => same (Int.ofNat.inj equal).symm
      rw [if_neg different]
      simp [Owners.of, entryAt?, same]
  | negSucc j => simp [Owners.of, entryAt?]

end Owners

/-! ## Entering the blocks of one function -/

variable {p : Program}

theorem size_claimBlock (index : Nat) (state : Owners × List FunctionDefect) (b : BlockId) :
    (p.claimBlock index state b).1.size = state.1.size := by
  unfold claimBlock
  split
  · rfl
  · split
    · rfl
    · exact Array.size_setIfInBounds

/-- A block that is entered without a defect exists and had no owner. -/
theorem claimBlock_of_clean {index : Nat} {state : Owners × List FunctionDefect} {b : BlockId}
    (sized : state.1.size = p.blocks.size) (clean : (p.claimBlock index state b).2 = []) :
    state.2 = [] ∧ p.hasBlock b = true ∧ state.1.of b = none ∧
      ∀ c, (p.claimBlock index state b).1.of c =
        if c = b then some index else state.1.of c := by
  unfold claimBlock at clean ⊢
  split at clean
  case isTrue => simp at clean
  case isFalse missing =>
    have exists_block : p.hasBlock b = true := by simpa using missing
    rw [if_neg missing]
    split at clean
    case h_1 => simp at clean
    case h_2 unowned =>
      obtain ⟨block, found⟩ := exists_of_hasBlock exists_block
      obtain ⟨i, rfl, inside⟩ := entryAt?_eq_some_iff.mp found
      have bound : i < state.1.size := by
        rw [sized]
        exact (Array.getElem?_eq_some_iff.mp inside).1
      rw [unowned]
      refine ⟨clean, exists_block, rfl, ?_⟩
      intro c
      exact Owners.of_setIfInBounds bound index c

/-- **Entering a list of blocks.** When no defect is found, the blocks exist, had
no owner, are listed once, and are now owned by the function; other blocks keep
their owners. -/
theorem claimBlocks_of_clean {index : Nat} (blocks : List BlockId)
    (state : Owners × List FunctionDefect) (sized : state.1.size = p.blocks.size)
    (clean : (blocks.foldl (p.claimBlock index) state).2 = []) :
    state.2 = [] ∧ (∀ b ∈ blocks, p.hasBlock b = true ∧ state.1.of b = none) ∧ blocks.Nodup ∧
      (blocks.foldl (p.claimBlock index) state).1.size = p.blocks.size ∧
      ∀ c, (blocks.foldl (p.claimBlock index) state).1.of c =
        if c ∈ blocks then some index else state.1.of c := by
  induction blocks generalizing state with
  | nil => exact ⟨clean, by simp, List.nodup_nil, sized, by simp⟩
  | cons first rest ih =>
    rw [List.foldl_cons] at clean ⊢
    obtain ⟨cleanFirst, restFits, nodup, sizedRest, ownersRest⟩ :=
      ih (p.claimBlock index state first) ((size_claimBlock index state first).trans sized) clean
    obtain ⟨noDefects, firstExists, firstFree, ownersFirst⟩ := claimBlock_of_clean sized cleanFirst
    have restFree : ∀ b ∈ rest, b ≠ first ∧ state.1.of b = none := by
      intro b member
      have free := (restFits b member).2
      rw [ownersFirst b] at free
      by_cases same : b = first
      · rw [if_pos same] at free
        cases free
      · rw [if_neg same] at free
        exact ⟨same, free⟩
    refine ⟨noDefects, ?_, ?_, sizedRest, ?_⟩
    · intro b member
      rcases List.mem_cons.mp member with rfl | later
      · exact ⟨firstExists, firstFree⟩
      · exact ⟨(restFits b later).1, (restFree b later).2⟩
    · exact List.nodup_cons.mpr ⟨fun member => (restFree first member).1 rfl, nodup⟩
    · intro c
      rw [ownersRest c, ownersFirst c]
      by_cases later : c ∈ rest
      · simp [later]
      · by_cases same : c = first <;> simp [later, same]

/-! ## Checking the functions -/

/-- What checking a function without a defect says about it. -/
theorem checkFunction_of_clean {owners : Owners} {index : Nat} {function : Function}
    (sized : owners.size = p.blocks.size) (fresh : ∀ b, owners.of b ≠ some index)
    (clean : (p.checkFunction owners index function).2 = []) :
    p.FunctionFits (Int.ofNat index) function ∧
      (p.checkFunction owners index function).1.size = p.blocks.size ∧
      ∀ b i, (p.checkFunction owners index function).1.of b = some i ↔
        owners.of b = some i ∨ (i = index ∧ b ∈ function.blocks) := by
  unfold checkFunction at clean ⊢
  split at clean
  case isTrue => simp at clean
  case isFalse wrongId =>
    rw [if_neg wrongId]
    have id : function.id = Int.ofNat index := Decidable.not_not.mp wrongId
    obtain ⟨cleanBlocks, cleanExit⟩ := List.append_eq_nil_iff.mp clean
    obtain ⟨_, fits, nodup, sizedAfter, ownersAfter⟩ :=
      claimBlocks_of_clean function.blocks (owners, []) sized cleanBlocks
    refine ⟨⟨id, fun b member => (fits b member).1, nodup, ?_⟩, sizedAfter, ?_⟩
    · unfold exitDefects at cleanExit
      split at cleanExit
      case isTrue absent => exact .inl absent
      case isFalse =>
        right
        have noForeignExit := (List.append_eq_nil_iff.mp cleanExit).1
        split at noForeignExit
        case isFalse => cases noForeignExit
        case isTrue owned =>
          rw [ownersAfter] at owned
          by_cases member : function.exit ∈ function.blocks
          · exact member
          · rw [if_neg member] at owned
            exact absurd owned (fresh _)
    · intro b i
      show (function.blocks.foldl (p.claimBlock index) (owners, [])).1.of b = some i ↔ _
      rw [ownersAfter b]
      by_cases member : b ∈ function.blocks
      · simp [member, (fits b member).2, eq_comm]
      · simp [member]

/-- Checking one more function. -/
def checkNext (p : Program) (state : Owners × List Defect) (entry : Function × Nat) :
    Owners × List Defect :=
  let checked := p.checkFunction state.1 entry.2 entry.1
  (checked.1, state.2 ++ checked.2.map (.inFunction entry.2))

/-- Defects that are found stay. -/
theorem foldl_checkNext_clean (entries : List (Function × Nat)) {state : Owners × List Defect}
    (clean : (entries.foldl p.checkNext state).2 = []) : state.2 = [] := by
  induction entries generalizing state with
  | nil => exact clean
  | cons first rest ih => exact (List.append_eq_nil_iff.mp (ih clean)).1

/-- **Checking the functions in order.** When no defect is found, each function
fits its position, and the table records exactly the listings. -/
theorem checkFunctions_of_clean (functions : List Function) (start : Nat)
    (state : Owners × List Defect) (sized : state.1.size = p.blocks.size)
    (earlier : ∀ b i, state.1.of b = some i → i < start)
    (clean : ((functions.zipIdx start).foldl p.checkNext state).2 = []) :
    state.2 = [] ∧
      (∀ entry ∈ functions.zipIdx start, p.FunctionFits (Int.ofNat entry.2) entry.1) ∧
      ∀ b i, ((functions.zipIdx start).foldl p.checkNext state).1.of b = some i ↔
        state.1.of b = some i ∨
          ∃ entry ∈ functions.zipIdx start, entry.2 = i ∧ b ∈ entry.1.blocks := by
  induction functions generalizing start state with
  | nil => exact ⟨clean, by simp, by simp⟩
  | cons first rest ih =>
    rw [List.zipIdx_cons, List.foldl_cons] at clean ⊢
    -- What the induction hypothesis needs of the table after the first function holds only
    -- when that function has no defect, so the defects are split off the whole run first.
    have kept : (p.checkNext state (first, start)).2 = [] := foldl_checkNext_clean _ clean
    obtain ⟨noDefects, noneFound⟩ := List.append_eq_nil_iff.mp kept
    have fresh : ∀ b, state.1.of b ≠ some start := by
      intro b owned
      exact absurd (earlier b start owned) (Nat.lt_irrefl start)
    obtain ⟨fits, sizedFirst, ownersFirst⟩ :=
      checkFunction_of_clean sized fresh (List.map_eq_nil_iff.mp noneFound)
    have earlierFirst : ∀ b i, (p.checkNext state (first, start)).1.of b = some i →
        i < start + 1 := by
      intro b i owned
      rcases (ownersFirst b i).mp owned with before | ⟨rfl, _⟩
      · exact Nat.lt_succ_of_lt (earlier b i before)
      · exact Nat.lt_succ_self _
    obtain ⟨_, fitsRest, ownersRest⟩ := ih (start + 1) _ sizedFirst earlierFirst clean
    refine ⟨noDefects, ?_, ?_⟩
    · intro entry member
      rcases List.mem_cons.mp member with rfl | later
      · exact fits
      · exact fitsRest entry later
    · intro b i
      rw [ownersRest b i]
      show (p.checkFunction state.1 start first).1.of b = some i ∨ _ ↔ _
      rw [ownersFirst b i, or_assoc]
      simp [eq_comm]

/-- A table that records exactly which functions list which blocks. -/
def Owners.IsExact (owners : Owners) (p : Program) : Prop :=
  ∀ b i, owners.of b = some i ↔
    ∃ function, p.function? (Int.ofNat i) = some function ∧ b ∈ function.blocks

theorem mem_zipIdx_toList_iff {α : Type} {entries : Array α} {x : α} {i : Nat} :
    (x, i) ∈ entries.toList.zipIdx ↔ entryAt? entries (Int.ofNat i) = some x := by
  rw [List.mem_zipIdx_iff_getElem?, Array.getElem?_toList]
  exact Iff.rfl

/-- Functions without a defect fit their ids, and the finished table is exact. -/
theorem checkFunctions_exact (clean : p.checkFunctions.2 = []) :
    (∀ {f function}, p.function? f = some function → p.FunctionFits f function) ∧
      p.checkFunctions.1.IsExact p := by
  have unowned : ∀ (b : BlockId) (i : Nat),
      Owners.of (Array.replicate p.blocks.size none) b ≠ some i := by
    intro b i owned
    cases b with
    | ofNat j =>
      simp only [Owners.of, entryAt?, Array.getElem?_replicate] at owned
      split at owned <;> cases owned
    | negSucc j => cases owned
  obtain ⟨_, fits, owners⟩ := checkFunctions_of_clean p.functions.toList 0
    (Array.replicate p.blocks.size none, []) Array.size_replicate
    (fun b i owned => absurd owned (unowned b i)) clean
  refine ⟨?_, ?_⟩
  · intro f function found
    obtain ⟨i, rfl, _⟩ := entryAt?_eq_some_iff.mp found
    exact fits (function, i) (mem_zipIdx_toList_iff.mpr found)
  · intro b i
    refine (owners b i).trans ?_
    constructor
    · rintro (before | ⟨entry, member, rfl, listed⟩)
      · exact absurd before (unowned b i)
      · exact ⟨entry.1, mem_zipIdx_toList_iff.mp member, listed⟩
    · rintro ⟨function, found, listed⟩
      exact .inr ⟨(function, i), mem_zipIdx_toList_iff.mpr found, rfl, listed⟩

/-! ## Checking the blocks -/

theorem targetDefects_eq_nil_iff {target : CallTarget} :
    p.targetDefects target = [] ↔ p.HasTargets target := by
  cases target <;> simp [targetDefects, HasTargets]

theorem kindDefects_eq_nil_iff {block : Block} :
    p.kindDefects block = [] ↔ p.FitsKind block := by
  unfold kindDefects FitsKind
  cases block.kind <;> simp [targetDefects_eq_nil_iff]

/-- Successors without a defect are blocks owned by the function of the block. -/
theorem successorDefects_eq_nil_iff {owners : Owners} {block : Block} :
    p.successorDefects owners block = [] ↔
      ∀ s ∈ block.successors, p.hasBlock s = true ∧
        (owners.of s).map Int.ofNat = some block.function := by
  unfold successorDefects
  rw [List.flatMap_eq_nil_iff]
  refine forall_congr' fun s => forall_congr' fun _ => ?_
  by_cases has : p.hasBlock s = true
  · simp [has]
  · simp [has]

/-- A block leaves without a defect when it has successors or an exit kind, but
not both, and returns exactly when it is the canonical exit. -/
theorem exitKindDefects_eq_nil_iff {block : Block} :
    p.exitKindDefects block = [] ↔
      (block.successors = [] ↔ block.exit ≠ .none) ∧
        (block.exit = .return ↔
          ∃ function, p.function? block.function = some function ∧ function.exit = block.id) := by
  unfold exitKindDefects
  simp only [List.append_eq_nil_iff, ite_eq_right_iff, List.cons_ne_nil, imp_false, not_and,
    Option.map_eq_some_iff, ne_eq]
  grind

/-- What checking a block without a defect says about it. -/
theorem blockDefects_of_clean {owners : Owners} {b : Nat} {block : Block}
    (clean : p.blockDefects owners b block = []) :
    block.id = Int.ofNat b ∧ (owners.of (Int.ofNat b)).map Int.ofNat = some block.function ∧
      p.successorDefects owners block = [] ∧ p.exitKindDefects block = [] ∧
      p.FitsKind block := by
  unfold blockDefects at clean
  split at clean
  case isTrue => cases clean
  case isFalse id =>
    split at clean
    case isTrue => cases clean
    case isFalse listed =>
      simp only [List.append_eq_nil_iff] at clean
      exact ⟨Decidable.not_not.mp id, Decidable.not_not.mp listed, clean.1.1, clean.1.2,
        kindDefects_eq_nil_iff.mp clean.2⟩

/-! ## Validation -/

theorem validate_eq_none_iff : p.validate = none ↔ p.defects = [] := by
  simp [validate, Problem.ofCauses]

/-- What the three stages of validation find nothing wrong with. -/
theorem stages_of_clean (clean : p.defects = []) :
    p.capabilities.isSome = true ∧
      (∃ function, p.function? p.entry = some function ∧ function.blocks ≠ []) ∧
      p.checkFunctions.2 = [] ∧ p.checkBlocks p.checkFunctions.1 = [] := by
  unfold defects at clean
  split at clean
  case isTrue => cases clean
  case isFalse present =>
    split at clean
    case h_1 => cases clean
    case h_2 entry found =>
      split at clean
      case isTrue => cases clean
      case isFalse body =>
        dsimp only at clean
        split at clean
        case isFalse dirty => exact absurd (List.isEmpty_iff.mpr clean) dirty
        case isTrue none =>
          refine ⟨?_, ⟨entry, found, ?_⟩, List.isEmpty_iff.mp none, clean⟩
          · rwa [Bool.not_eq_true, Option.isNone_eq_false_iff] at present
          · simpa [Function.isDeclaration] using body

/-- **Validation establishes well-formedness.** -/
theorem wellFormed_of_validate (valid : p.validate = none) : p.WellFormed := by
  obtain ⟨capabilities, entry, cleanFunctions, cleanBlocks⟩ :=
    stages_of_clean (validate_eq_none_iff.mp valid)
  obtain ⟨fits, owners⟩ := checkFunctions_exact cleanFunctions
  have checked : ∀ {b block}, p.block? b = some block → ∃ i : Nat, b = Int.ofNat i ∧
      p.blockDefects p.checkFunctions.1 i block = [] := by
    intro b block found
    obtain ⟨i, rfl, _⟩ := entryAt?_eq_some_iff.mp found
    have none := List.flatMap_eq_nil_iff.mp cleanBlocks (block, i) (mem_zipIdx_toList_iff.mpr found)
    exact ⟨i, rfl, List.map_eq_nil_iff.mp none⟩
  -- The owner that the table gives a block is the function that the block names.
  have owned : ∀ {b block}, p.block? b = some block → ∃ (i : Nat) (function : Function),
      block.function = Int.ofNat i ∧ p.checkFunctions.1.of b = some i ∧
        p.function? block.function = some function ∧ b ∈ function.blocks := by
    intro b block found
    obtain ⟨_, rfl, clean⟩ := checked found
    obtain ⟨i, ofBlock, same⟩ := Option.map_eq_some_iff.mp (blockDefects_of_clean clean).2.1
    obtain ⟨function, foundFunction, listed⟩ := (owners _ _).mp ofBlock
    exact ⟨i, function, same.symm, ofBlock, same ▸ foundFunction, listed⟩
  refine ⟨capabilities, entry, fits, ?_, ?_, ?_⟩
  · intro b block found
    obtain ⟨i, rfl, clean⟩ := checked found
    obtain ⟨id, _, cleanSuccessors, cleanExit, kind⟩ := blockDefects_of_clean clean
    obtain ⟨continues, returns⟩ := exitKindDefects_eq_nil_iff.mp cleanExit
    refine ⟨id, ?_, continues, ?_, kind⟩
    · intro s member
      obtain ⟨has, ownerOf⟩ := successorDefects_eq_nil_iff.mp cleanSuccessors s member
      obtain ⟨next, foundNext⟩ := exists_of_hasBlock has
      obtain ⟨j, _, names, ofNext, _⟩ := owned foundNext
      rw [ofNext, Option.map_some, Option.some.injEq] at ownerOf
      exact ⟨next, foundNext, names.trans ownerOf⟩
    · rwa [id] at returns
  · intro f function b block foundFunction foundBlock
    obtain ⟨i, owner, names, ofBlock, foundOwner, listed⟩ := owned foundBlock
    constructor
    · intro member
      obtain ⟨j, rfl, _⟩ := entryAt?_eq_some_iff.mp foundFunction
      have ofJ := (owners b j).mpr ⟨function, foundFunction, member⟩
      rw [ofBlock, Option.some.injEq] at ofJ
      rw [names, ofJ]
    · rintro rfl
      rw [foundOwner, Option.some.injEq] at foundFunction
      exact foundFunction ▸ listed
  · intro b block found
    obtain ⟨_, function, _, _, foundFunction, _⟩ := owned found
    exact ⟨function, foundFunction⟩

/-- The blocks that a function lists exist and name it. -/
theorem WellFormed.exists_listed (wf : p.WellFormed) {f : FunctionId} {function : Function}
    {b : BlockId} (found : p.function? f = some function) (listed : b ∈ function.blocks) :
    ∃ block, p.block? b = some block ∧ block.function = f := by
  obtain ⟨block, foundBlock⟩ := exists_of_hasBlock ((wf.function found).exists_block b listed)
  exact ⟨block, foundBlock, (wf.listed_iff found foundBlock).mp listed⟩

end Program

/-- An enumeration of one name, for programs with one privilege. -/
def rawEnumeration : Enumeration :=
  .ofFaultless ["NET_RAW"] none (by decide) (by decide +kernel)

end CapLiveness
