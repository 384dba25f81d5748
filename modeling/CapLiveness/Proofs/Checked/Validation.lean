import CapLiveness.Proofs.Checked.Lookup

/-!
# Validation, with checked lookups

Validation looks at programs of which nothing is known, so each of its lookups is
preceded by a test of the number. Here the lookups fail where there is no entry, and the
tests stand where validation has them: the entry function is looked up when its id is that
of a function, an owner when the id is that of a block, and the function that a block names
when the table of owners says that this function lists the block.

The first two kinds of lookups are safe by their tests alone, because the table of owners
has an entry for each block (`claimBlock_eq_some`, `checkFunctions_eq_some`). The third is
made only when no function has a defect, and then the table records exactly which functions
list which blocks (`blockDefects_eq_some`). So no lookup fails, whatever the program
(`validate_eq_some`).
-/

set_option autoImplicit false

namespace CapLiveness.Checked

open Program (Owners)

/-! ## Names and messages -/

/-- A printable name for any function id. -/
def functionName (p : Program) (f : FunctionId) : Option String :=
  if p.hasFunction f then
    (p.function? f).map fun function => if function.name = "" then f.text else function.name
  else some f.text

/-- A printable name for any block id. -/
def blockName (p : Program) (b : BlockId) : Option String :=
  if p.hasBlock b then do
    let block ← p.block? b
    let function ← functionName p block.function
    some (function ++ "." ++ (if block.name = "" then b.text else block.name))
  else some b.text

/-- The wording of a defect of the function at a position. -/
def functionMessage (p : Program) (index : Nat) : FunctionDefect → Option String
  | .ownedBlock block owner => do
    let name ← blockName p block
    let ownerName ← functionName p (Int.ofNat owner)
    some s!"lists block {name}, already owned by {ownerName}"
  | defect => some (defect.message p index)

/-- The wording of a defect of the block at a position. -/
def blockMessage (p : Program) (index : Nat) : BlockDefect → Option String
  | .foreignSuccessor successor =>
    (blockName p successor).map fun name => s!"has successor {name} in another function"
  | .strayReturn function =>
    (functionName p function).map fun name => s!"returns but is not the canonical exit of {name}"
  | defect => some (defect.message p index)

/-- The defect as a problem, with its place and wording. -/
def problem (p : Program) : Defect → Option Problem
  | .entryWithoutBody entry =>
    (functionName p entry).map fun name =>
      .malformed ⟨name, ""⟩ "is the entry function but has no blocks"
  | .inFunction index defect => do
    let name ← functionName p (Int.ofNat index)
    let message ← functionMessage p index defect
    some (.malformed ⟨name, ""⟩ message)
  | .inBlock index defect => do
    let name ← blockName p (Int.ofNat index)
    let message ← blockMessage p index defect
    some (.malformed ⟨"", name⟩ message)
  | defect => some (defect.problem p)

/-! ## Functions -/

/-- Enters one block of a function's list into the ownership table. -/
def claimBlock (p : Program) (index : Nat) (state : Owners × List FunctionDefect) (b : BlockId) :
    Option (Owners × List FunctionDefect) :=
  if !p.hasBlock b then some (state.1, state.2 ++ [.missingBlock b])
  else do
    match ← entryAt? state.1 b with
    | some owner => some (state.1, state.2 ++ [.ownedBlock b owner])
    | none => (write state.1 (b, some index)).map (·, state.2)

/-- What is wrong with the exit of a function, once its blocks are entered. -/
def exitDefects (p : Program) (owners : Owners) (index : Nat) (f : Function) :
    Option (List FunctionDefect) :=
  let body := if f.isDeclaration then [.exitWithoutBody] else []
  if f.exit = BlockId.absent then some []
  else if !p.hasBlock f.exit then some (.foreignExit f.exit :: body)
  else
    (entryAt? owners f.exit).map fun owner =>
      (if owner = some index then [] else [.foreignExit f.exit]) ++ body

/-- Enters the blocks of a function into the ownership table and lists what is wrong
with it. -/
def checkFunction (p : Program) (owners : Owners) (index : Nat) (f : Function) :
    Option (Owners × List FunctionDefect) :=
  if f.id ≠ index then some (owners, [.wrongId f.id])
  else do
    let claimed ← f.blocks.foldlM (claimBlock p index) (owners, [])
    let exit ← exitDefects p claimed.1 index f
    some (claimed.1, claimed.2 ++ exit)

/-- Checks the functions in order. -/
def checkFunctions (p : Program) : Option (Owners × List Defect) :=
  p.functions.toList.zipIdx.foldlM
    (fun state entry => (checkFunction p state.1 entry.2 entry.1).map fun checked =>
      (checked.1, state.2 ++ checked.2.map (.inFunction entry.2)))
    (Array.replicate p.blocks.size none, [])

/-! ## Blocks -/

/-- What is wrong with the successors of a block. -/
def successorDefects (p : Program) (owners : Owners) (b : Block) : Option (List BlockDefect) :=
  (b.successors.mapM fun s =>
    if !p.hasBlock s then some [BlockDefect.missingSuccessor s]
    else (entryAt? owners s).map fun owner =>
      if owner.map Int.ofNat ≠ some b.function then [.foreignSuccessor s] else []).map List.flatten

/-- What is wrong with the way control leaves a block, once its function is found. -/
def exitKindDefects (p : Program) (b : Block) : Option (List BlockDefect) :=
  (p.function? b.function).map fun _ => p.exitKindDefects b

/-- What is wrong with the block at a position. -/
def blockDefects (p : Program) (owners : Owners) (index : Nat) (b : Block) :
    Option (List BlockDefect) :=
  if b.id ≠ index then some [.wrongId b.id]
  else do
    let owner ← entryAt? owners index
    if owner.map Int.ofNat ≠ some b.function then some [.unlisted b.function]
    else do
      let successors ← successorDefects p owners b
      let exit ← exitKindDefects p b
      some (successors ++ exit ++ p.kindDefects b)

/-- What is wrong with the blocks. -/
def checkBlocks (p : Program) (owners : Owners) : Option (List Defect) :=
  (p.blocks.toList.zipIdx.mapM fun entry =>
    (blockDefects p owners entry.2 entry.1).map fun defects =>
      defects.map (.inBlock entry.2)).map List.flatten

/-! ## Programs -/

/-- Everything that the first stage of checks to fail finds wrong. -/
def defects (p : Program) : Option (List Defect) :=
  if p.capabilities.isNone then some [.noCapabilities]
  else if !p.hasFunction p.entry then some [.noEntry p.entry]
  else do
    let entry ← p.function? p.entry
    if entry.isDeclaration then some [.entryWithoutBody p.entry]
    else do
      let checked ← checkFunctions p
      if checked.2.isEmpty then checkBlocks p checked.1 else some checked.2

/-- Nothing for a program that is fit for the analysis, and otherwise all its defects as
one problem. -/
def validate (p : Program) : Option (Option Problem) := do
  let found ← defects p
  let problems ← found.mapM (problem p)
  some (Problem.ofCauses problems)

/-! ## No lookup fails -/

variable {p : Program}

theorem functionName_eq_some (f : FunctionId) : functionName p f = some (p.functionName f) := by
  unfold functionName Program.functionName
  cases has : p.hasFunction f with
  | true =>
    obtain ⟨function, found⟩ := Program.exists_of_hasFunction has
    simp [found]
  | false =>
    rw [← Program.isSome_function?, Option.isSome_eq_false_iff, Option.isNone_iff_eq_none] at has
    simp [has]

theorem blockName_eq_some (b : BlockId) : blockName p b = some (p.blockName b) := by
  unfold blockName Program.blockName
  cases has : p.hasBlock b with
  | true =>
    obtain ⟨block, found⟩ := Program.exists_of_hasBlock has
    simp [found, functionName_eq_some]
  | false =>
    rw [← Program.isSome_block?, Option.isSome_eq_false_iff, Option.isNone_iff_eq_none] at has
    simp [has]

theorem functionMessage_eq_some (index : Nat) (defect : FunctionDefect) :
    functionMessage p index defect = some (defect.message p index) := by
  cases defect with
  | ownedBlock block owner =>
    rw [functionMessage, blockName_eq_some, functionName_eq_some]
    rfl
  | wrongId | missingBlock | foreignExit | exitWithoutBody => rfl

theorem blockMessage_eq_some (index : Nat) (defect : BlockDefect) :
    blockMessage p index defect = some (defect.message p index) := by
  cases defect with
  | foreignSuccessor successor =>
    rw [blockMessage, blockName_eq_some]
    rfl
  | strayReturn function =>
    rw [blockMessage, functionName_eq_some]
    rfl
  | _ => rfl

theorem problem_eq_some (defect : Defect) : problem p defect = some (defect.problem p) := by
  cases defect with
  | noCapabilities | noEntry => rfl
  | entryWithoutBody entry =>
    rw [problem, functionName_eq_some]
    rfl
  | inFunction index defect =>
    rw [problem, functionName_eq_some, functionMessage_eq_some]
    rfl
  | inBlock index defect =>
    rw [problem, blockName_eq_some, blockMessage_eq_some]
    rfl

/-- A table with an entry for each block has one for each id of a block. -/
theorem exists_owner {owners : Owners} (sized : owners.size = p.blocks.size) {b : BlockId}
    (has : p.hasBlock b = true) :
    ∃ i : Nat, b = Int.ofNat i ∧ i < owners.size ∧ entryAt? owners b = some (owners.of b) := by
  obtain ⟨block, found⟩ := Program.exists_of_hasBlock has
  obtain ⟨i, rfl, inside⟩ := entryAt?_eq_some_iff.mp found
  have bound : i < owners.size := sized ▸ Program.lt_of_block? inside
  exact ⟨i, rfl, bound, by simp [Owners.of, entryAt?, bound]⟩

theorem claimBlock_eq_some {index : Nat} {state : Owners × List FunctionDefect}
    (sized : state.1.size = p.blocks.size) (b : BlockId) :
    claimBlock p index state b = some (p.claimBlock index state b) := by
  unfold claimBlock Program.claimBlock
  split
  case isTrue => rfl
  case isFalse missing =>
    obtain ⟨i, rfl, bound, owner⟩ := exists_owner sized (by simpa using missing)
    rw [owner, Option.bind_eq_bind, Option.bind_some]
    cases state.1.of (Int.ofNat i) with
    | some _ => rfl
    | none => simp only [write_ofNat bound, Option.map_some]; rfl

theorem exitDefects_eq_some {owners : Owners} (sized : owners.size = p.blocks.size) (index : Nat)
    (f : Function) :
    exitDefects p owners index f = some (Program.exitDefects owners index f) := by
  unfold exitDefects Program.exitDefects
  dsimp only
  split
  case isTrue => rfl
  case isFalse =>
    split
    case isTrue missing =>
      have unowned : owners.of f.exit = none := by
        have absent : p.hasBlock f.exit = false := by simpa using missing
        have outside : (entryAt? owners f.exit).isSome = false := by
          rw [isSome_entryAt?, sized]
          exact absent
        simp [Owners.of, Option.isNone_iff_eq_none.mp (Option.isSome_eq_false_iff.mp outside)]
      simp [unowned]
    case isFalse missing =>
      obtain ⟨_, _, _, owner⟩ := exists_owner sized (by simpa using missing)
      rw [owner, Option.map_some]

/-- Checking a function keeps the size of the table. -/
theorem size_checkFunction (owners : Owners) (index : Nat) (f : Function) :
    (p.checkFunction owners index f).1.size = owners.size := by
  have claimed : ∀ (blocks : List BlockId) (state : Owners × List FunctionDefect),
      (blocks.foldl (p.claimBlock index) state).1.size = state.1.size := by
    intro blocks
    induction blocks with
    | nil => exact fun _ => rfl
    | cons b rest ih =>
      intro state
      rw [List.foldl_cons, ih, Program.size_claimBlock]
  unfold Program.checkFunction
  split
  · rfl
  · exact claimed f.blocks (owners, [])

theorem checkFunction_eq_some {owners : Owners} (sized : owners.size = p.blocks.size) (index : Nat)
    (f : Function) :
    checkFunction p owners index f = some (p.checkFunction owners index f) := by
  have claimed : f.blocks.foldlM (claimBlock p index) (owners, []) =
      some (f.blocks.foldl (p.claimBlock index) (owners, [])) :=
    foldlM_eq_some (fun state => state.1.size = p.blocks.size)
      (fun state sized b _ =>
        ⟨claimBlock_eq_some sized b, (Program.size_claimBlock index state b).trans sized⟩) sized
  have sizedAfter := (size_checkFunction (p := p) owners index f).trans sized
  unfold checkFunction
  unfold Program.checkFunction at sizedAfter ⊢
  split
  case isTrue => rfl
  case isFalse same =>
    rw [if_neg same] at sizedAfter
    rw [claimed, Option.bind_eq_bind, Option.bind_some, exitDefects_eq_some sizedAfter]
    rfl

theorem checkFunctions_eq_some :
    checkFunctions p = some p.checkFunctions ∧ p.checkFunctions.1.size = p.blocks.size := by
  have steps : ∀ state : Owners × List Defect, state.1.size = p.blocks.size →
      ∀ entry ∈ p.functions.toList.zipIdx,
        (checkFunction p state.1 entry.2 entry.1).map (fun checked =>
          (checked.1, state.2 ++ checked.2.map (Defect.inFunction entry.2))) =
          some (p.checkNext state entry) ∧ (p.checkNext state entry).1.size = p.blocks.size := by
    intro state sized entry _
    rw [checkFunction_eq_some sized]
    exact ⟨rfl, (size_checkFunction state.1 entry.2 entry.1).trans sized⟩
  have start : (Array.replicate p.blocks.size (none : Option Nat)).size = p.blocks.size :=
    Array.size_replicate
  refine ⟨foldlM_eq_some _ steps start, ?_⟩
  exact List.foldlRecOn (motive := fun state => state.1.size = p.blocks.size)
    p.functions.toList.zipIdx p.checkNext (b := (Array.replicate p.blocks.size none, [])) start
    fun state sized entry member => (steps state sized entry member).2

theorem successorDefects_eq_some {owners : Owners} (sized : owners.size = p.blocks.size)
    (b : Block) : successorDefects p owners b = some (p.successorDefects owners b) := by
  rw [successorDefects, mapM_eq_some (g := fun s =>
    if !p.hasBlock s then [BlockDefect.missingSuccessor s]
    else if (owners.of s).map Int.ofNat ≠ some b.function then [.foreignSuccessor s] else [])]
  · rw [Option.map_some, ← List.flatMap_def]
    rfl
  · intro s _
    split
    case isTrue => rfl
    case isFalse missing =>
      obtain ⟨_, _, _, owner⟩ := exists_owner sized (by simpa using missing)
      rw [owner, Option.map_some]

/-- **Checking a block fails no lookup**, when the table of owners is exact: an owner that
the table gives to a block is a function. -/
theorem blockDefects_eq_some {owners : Owners} (sized : owners.size = p.blocks.size)
    (exact : owners.IsExact p) {index : Nat} {b : Block}
    (found : p.block? (Int.ofNat index) = some b) :
    blockDefects p owners index b = some (p.blockDefects owners index b) := by
  have has : p.hasBlock (Int.ofNat index) = true := by
    rw [← Program.isSome_block?, found]
    rfl
  obtain ⟨_, _, _, owner⟩ := exists_owner sized has
  unfold blockDefects Program.blockDefects
  split
  case isTrue => rfl
  case isFalse =>
    rw [← Int.ofNat_eq_natCast, owner, Option.bind_eq_bind, Option.bind_some]
    split
    case isTrue => rfl
    case isFalse listed =>
      obtain ⟨i, owned, names⟩ := Option.map_eq_some_iff.mp (Decidable.not_not.mp listed)
      obtain ⟨function, foundFunction, _⟩ := (exact _ _).mp owned
      rw [names] at foundFunction
      simp [successorDefects_eq_some sized, exitKindDefects, foundFunction]

-- Without an owner the lookup of the function does fail.
example : exitKindDefects { capabilities := none, entry := 0 } { id := 0, function := 5 } = none :=
  rfl

theorem checkBlocks_eq_some {owners : Owners} (sized : owners.size = p.blocks.size)
    (exact : owners.IsExact p) : checkBlocks p owners = some (p.checkBlocks owners) := by
  rw [checkBlocks, mapM_eq_some (g := fun entry =>
    (p.blockDefects owners entry.2 entry.1).map (.inBlock entry.2))]
  · rw [Option.map_some, ← List.flatMap_def]
    rfl
  · rintro ⟨block, index⟩ member
    rw [blockDefects_eq_some sized exact (Program.mem_zipIdx_toList_iff.mp member)]
    rfl

theorem defects_eq_some : defects p = some p.defects := by
  obtain ⟨checked, sized⟩ := checkFunctions_eq_some (p := p)
  unfold defects Program.defects
  split
  case isTrue => rfl
  case isFalse =>
    cases has : p.hasFunction p.entry with
    | false =>
      rw [← Program.isSome_function?, Option.isSome_eq_false_iff, Option.isNone_iff_eq_none] at has
      rw [has]
      rfl
    | true =>
      obtain ⟨entry, found⟩ := Program.exists_of_hasFunction has
      simp only [found, checked, Bool.not_true, Bool.false_eq_true, if_false, Option.bind_eq_bind,
        Option.bind_some]
      split
      case isTrue => rfl
      case isFalse =>
        split
        case isFalse => rfl
        case isTrue clean =>
          exact checkBlocks_eq_some sized
            (Program.checkFunctions_exact (List.isEmpty_iff.mp clean)).2

/-- **Validation fails no lookup.** -/
theorem validate_eq_some (p : Program) : validate p = some p.validate := by
  rw [validate, defects_eq_some, Option.bind_eq_bind, Option.bind_some,
    mapM_eq_some (g := fun defect => defect.problem p) fun defect _ => problem_eq_some defect]
  rfl

end CapLiveness.Checked
