import CapLiveness.Proofs.Consistency

/-!
# Orderly programs

A program is orderly when its tables agree: ids are positions, each function lists exactly the
blocks that name it, in ascending order, the canonical exits are absent or listed, no symbol is
declared twice, and only raises have arguments to raise (`Program.IsOrderly`). Nothing is said
about the entry function, edges, exit kinds, call targets or the arguments of raises.

Four edits keep a program orderly: a new function, a new block, a new exit, and whatever leaves
the shapes of functions and blocks as they are (`Program.Retouches`). What validation can still
find wrong with an orderly program concerns what orderliness says nothing about
(`IsOrderly.concern?_ne_none`).
-/

set_option autoImplicit false

namespace CapLiveness

/-! ## Entries of changed tables -/

theorem entryAt?_push {α : Type} (entries : Array α) (x : α) (index : Int) :
    entryAt? (entries.push x) index =
      if index = Int.ofNat entries.size then some x else entryAt? entries index := by
  cases index with
  | ofNat i => simp only [entryAt?, Array.getElem?_push, Int.ofNat.injEq]
  | negSucc i => rfl

theorem entryAt?_modify {α : Type} {entries : Array α} {i : Int} (inside : 0 ≤ i)
    (change : α → α) (index : Int) :
    entryAt? (entries.modify i.toNat change) index =
      if index = i then (entryAt? entries index).map change else entryAt? entries index := by
  obtain ⟨i, rfl⟩ := Int.eq_ofNat_of_zero_le inside
  cases index with
  | ofNat j =>
    simp only [entryAt?, Array.getElem?_modify, Int.toNat_natCast, Int.ofNat_eq_natCast,
      Int.natCast_inj, eq_comm]
  | negSucc j => rfl

theorem entryAt?_empty {α : Type} (index : Int) : entryAt? (#[] : Array α) index = none := by
  cases index <;> rfl

theorem entryAt?_size {α : Type} (entries : Array α) :
    entryAt? entries (Int.ofNat entries.size) = none := by
  simp [entryAt?]

/-! ## The notion -/

/-- The arguments to raise of a block that does not raise. -/
def Block.stray (block : Block) : List Argument := if block.kind = .raise then [] else block.raised

namespace Program

/-- The blocks that a function lists. A function that does not exist lists none. -/
def listOf (p : Program) (f : FunctionId) : List BlockId := ((p.function? f).map (·.blocks)).getD []

/-- What holds of a function of an orderly program, given its id. -/
structure FunctionAgrees (p : Program) (f : FunctionId) (function : Function) : Prop where
  id : function.id = f
  /-- The function lists exactly the blocks that name it. -/
  mem_blocks_iff : ∀ b, b ∈ function.blocks ↔ ∃ block, p.block? b = some block ∧ block.function = f
  ascending : function.blocks.Pairwise (· < ·)
  exit : function.exit = BlockId.absent ∨ function.exit ∈ function.blocks

/-- What holds of a block of an orderly program, given its id. -/
structure BlockAgrees (p : Program) (b : BlockId) (block : Block) : Prop where
  id : block.id = b
  /-- The function that the block names exists. -/
  owner : p.hasFunction block.function = true
  kind : block.kind ∈ [.plain, .raise, .call]
  stray : block.stray = []

/-- **Programs whose tables agree.** -/
structure IsOrderly (p : Program) : Prop where
  function : ∀ {f function}, p.function? f = some function → p.FunctionAgrees f function
  block : ∀ {b block}, p.block? b = some block → p.BlockAgrees b block
  declared : p.declared.Nodup

end Program

/-! ## Edits -/

/-- What orderliness says of a function depends on this alone. -/
def Function.shape (function : Function) : FunctionId × List BlockId × BlockId :=
  (function.id, function.blocks, function.exit)

/-- What orderliness says of a block depends on this alone. -/
def Block.shape (block : Block) : BlockId × FunctionId × BlockKind × List Argument :=
  (block.id, block.function, block.kind, block.stray)

namespace Program

/-- Whether a program is another with the same shapes and at least its declarations. -/
structure Retouches (p q : Program) : Prop where
  capabilities : q.capabilities = p.capabilities
  functions : ∀ f, (q.function? f).map Function.shape = (p.function? f).map Function.shape
  blocks : ∀ b, (q.block? b).map Block.shape = (p.block? b).map Block.shape
  declared : p.declared ⊆ q.declared
  nodup : p.declared.Nodup → q.declared.Nodup

/-- The program with a new function. -/
def withFunction (p : Program) (name : String) : Program :=
  { p with functions := p.functions.push { id := Int.ofNat p.functions.size, name := name } }

/-- The program with a new block at the end of a function's list. -/
def withBlock (p : Program) (f : FunctionId) (name : String) (kind : BlockKind) : Program :=
  { p with
    blocks := p.blocks.push
      { id := Int.ofNat p.blocks.size, function := f, name := name, kind := kind }
    functions := p.functions.modify f.toNat fun function =>
      { function with blocks := function.blocks ++ [Int.ofNat p.blocks.size] } }

/-- The program with another canonical exit of a function. -/
def withExit (p : Program) (f : FunctionId) (b : BlockId) : Program :=
  { p with functions := p.functions.modify f.toNat fun function => { function with exit := b } }

variable {p q : Program}

theorem le_of_hasFunction {f : FunctionId} (has : p.hasFunction f = true) : 0 ≤ f := by
  simp only [hasFunction, Bool.and_eq_true, decide_eq_true_eq] at has
  exact has.1

theorem le_of_hasBlock {b : BlockId} (has : p.hasBlock b = true) : 0 ≤ b := by
  simp only [hasBlock, Bool.and_eq_true, decide_eq_true_eq] at has
  exact has.1

namespace Retouches

theorem refl (p : Program) : p.Retouches p :=
  ⟨rfl, fun _ => rfl, fun _ => rfl, List.Subset.refl _, fun nodup => nodup⟩

/-- Changes of the entry function and of the primitive. -/
theorem of_entries (capabilities : q.capabilities = p.capabilities)
    (functions : q.functions = p.functions) (blocks : q.blocks = p.blocks)
    (declared : q.declared = p.declared) : p.Retouches q where
  capabilities := capabilities
  functions f := by rw [function?, functions, function?]
  blocks b := by rw [block?, blocks, block?]
  declared := declared ▸ List.Subset.refl _
  nodup nodup := declared ▸ nodup

theorem trans {s : Program} (first : p.Retouches q) (second : q.Retouches s) :
    p.Retouches s where
  capabilities := second.capabilities.trans first.capabilities
  functions f := (second.functions f).trans (first.functions f)
  blocks b := (second.blocks b).trans (first.blocks b)
  declared := List.Subset.trans first.declared second.declared
  nodup nodup := second.nodup (first.nodup nodup)

/-- A function changed in its own shape. -/
theorem modifyFunction {f : FunctionId} (has : p.hasFunction f = true)
    (change : Function → Function)
    (keeps : ∀ function, (change function).shape = function.shape) :
    p.Retouches { p with functions := p.functions.modify f.toNat change } where
  capabilities := rfl
  functions g := by
    rw [function?, entryAt?_modify (le_of_hasFunction has)]
    split
    case isTrue =>
      rw [Option.map_map]
      exact Option.map_congr fun function _ => keeps function
    case isFalse => rfl
  blocks _ := rfl
  declared := List.Subset.refl _
  nodup nodup := nodup

/-- A block changed in its own shape. -/
theorem modifyBlock {b : BlockId} (has : p.hasBlock b = true) (change : Block → Block)
    (keeps : ∀ block, p.block? b = some block → (change block).shape = block.shape) :
    p.Retouches { p with blocks := p.blocks.modify b.toNat change } where
  capabilities := rfl
  functions _ := rfl
  blocks c := by
    rw [block?, entryAt?_modify (le_of_hasBlock has)]
    split
    case isTrue same =>
      subst same
      rw [Option.map_map]
      exact Option.map_congr keeps
    case isFalse => rfl
  declared := List.Subset.refl _
  nodup nodup := nodup

variable (retouches : p.Retouches q)
include retouches

theorem exists_function {f : FunctionId} {function : Function}
    (found : q.function? f = some function) :
    ∃ old, p.function? f = some old ∧ old.shape = function.shape := by
  have same := retouches.functions f
  rw [found] at same
  exact Option.map_eq_some_iff.mp same.symm

theorem exists_exit {f : FunctionId} {function : Function}
    (found : q.function? f = some function) :
    ∃ old, p.function? f = some old ∧ old.exit = function.exit := by
  obtain ⟨old, foundOld, same⟩ := retouches.exists_function found
  exact ⟨old, foundOld, congrArg (·.2.2) same⟩

theorem exists_block {b : BlockId} {block : Block} (found : q.block? b = some block) :
    ∃ old, p.block? b = some old ∧ old.shape = block.shape := by
  have same := retouches.blocks b
  rw [found] at same
  exact Option.map_eq_some_iff.mp same.symm

theorem names_iff {b : BlockId} {f : FunctionId} :
    (∃ block, q.block? b = some block ∧ block.function = f) ↔
      ∃ block, p.block? b = some block ∧ block.function = f := by
  have same := congrArg (Option.map (·.2.1)) (retouches.blocks b)
  rw [Option.map_map, Option.map_map] at same
  rw [← Option.map_eq_some_iff, ← Option.map_eq_some_iff]
  exact (congrArg (· = some f) same).to_iff

theorem listOf_eq (f : FunctionId) : q.listOf f = p.listOf f := by
  have same := congrArg (Option.map (·.2.1)) (retouches.functions f)
  rw [Option.map_map, Option.map_map] at same
  exact congrArg (Option.getD · []) same

theorem hasFunction_eq (f : FunctionId) : q.hasFunction f = p.hasFunction f := by
  have same := congrArg Option.isSome (retouches.functions f)
  rwa [Option.isSome_map, Option.isSome_map, isSome_function?, isSome_function?] at same

theorem hasBlock_eq (b : BlockId) : q.hasBlock b = p.hasBlock b := by
  have same := congrArg Option.isSome (retouches.blocks b)
  rwa [Option.isSome_map, Option.isSome_map, isSome_block?, isSome_block?] at same

end Retouches

/-! ### Look-ups after edits -/

theorem function?_withFunction (name : String) (f : FunctionId) :
    (p.withFunction name).function? f =
      if f = Int.ofNat p.functions.size then some { id := Int.ofNat p.functions.size, name := name }
      else p.function? f :=
  entryAt?_push ..

theorem hasFunction_withFunction {name : String} {f : FunctionId} :
    (p.withFunction name).hasFunction f = true ↔
      p.hasFunction f = true ∨ Int.ofNat p.functions.size = f := by
  rw [← isSome_function?, ← isSome_function?, function?_withFunction]
  split
  case isTrue isNew => simp [isNew]
  case isFalse other =>
    rw [iff_self_or]
    exact fun isNew => absurd isNew.symm other

theorem function?_withBlock {f : FunctionId} (has : p.hasFunction f = true) (name : String)
    (kind : BlockKind) (g : FunctionId) :
    (p.withBlock f name kind).function? g =
      if g = f then (p.function? g).map fun function =>
        { function with blocks := function.blocks ++ [Int.ofNat p.blocks.size] }
      else p.function? g :=
  entryAt?_modify (le_of_hasFunction has) _ _

theorem hasFunction_withBlock (f : FunctionId) (name : String) (kind : BlockKind)
    (g : FunctionId) : (p.withBlock f name kind).hasFunction g = p.hasFunction g := by
  simp [hasFunction, withBlock]

theorem block?_withBlock (f : FunctionId) (name : String) (kind : BlockKind) (b : BlockId) :
    (p.withBlock f name kind).block? b =
      if b = Int.ofNat p.blocks.size then
        some { id := Int.ofNat p.blocks.size, function := f, name := name, kind := kind }
      else p.block? b :=
  entryAt?_push ..

theorem function?_withExit {f : FunctionId} (has : p.hasFunction f = true) (b : BlockId)
    (g : FunctionId) :
    (p.withExit f b).function? g =
      if g = f then (p.function? g).map fun function => { function with exit := b }
      else p.function? g :=
  entryAt?_modify (le_of_hasFunction has) _ _

theorem hasBlock_withBlock {f : FunctionId} {name : String} {kind : BlockKind} {b : BlockId} :
    (p.withBlock f name kind).hasBlock b = true ↔
      p.hasBlock b = true ∨ Int.ofNat p.blocks.size = b := by
  rw [← isSome_block?, ← isSome_block?, block?_withBlock]
  split
  case isTrue isNew => simp [isNew]
  case isFalse other =>
    rw [iff_self_or]
    exact fun isNew => absurd isNew.symm other

theorem hasFunction_withExit (f : FunctionId) (b : BlockId) (g : FunctionId) :
    (p.withExit f b).hasFunction g = p.hasFunction g := by
  simp [hasFunction, withExit]

theorem listOf_withFunction (name : String) (f : FunctionId) :
    (p.withFunction name).listOf f = p.listOf f := by
  rw [listOf, function?_withFunction, listOf]
  split
  case isTrue isNew =>
    have none : p.function? f = none := isNew ▸ entryAt?_size p.functions
    rw [none]
    rfl
  case isFalse => rfl

theorem listOf_withBlock {f : FunctionId} (has : p.hasFunction f = true) (name : String)
    (kind : BlockKind) (g : FunctionId) :
    (p.withBlock f name kind).listOf g =
      p.listOf g ++ (if f = g then some (Int.ofNat p.blocks.size) else none).toList := by
  rw [listOf, function?_withBlock has, listOf]
  split
  case isTrue same =>
    obtain ⟨function, found⟩ := exists_of_hasFunction has
    rw [same, found, if_pos rfl]
    rfl
  case isFalse other =>
    rw [if_neg (Ne.symm other), Option.toList_none, List.append_nil]

theorem listOf_withExit {f : FunctionId} (has : p.hasFunction f = true) (b : BlockId)
    (g : FunctionId) : (p.withExit f b).listOf g = p.listOf g := by
  rw [listOf, function?_withExit has, listOf]
  split
  case isTrue =>
    rw [Option.map_map]
    rfl
  case isFalse => rfl

theorem Retouches.setExit (retouches : p.Retouches q) {f : FunctionId}
    (has : p.hasFunction f = true) (b : BlockId) : (p.withExit f b).Retouches (q.withExit f b) where
  capabilities := retouches.capabilities
  functions g := by
    rw [function?_withExit has, function?_withExit ((retouches.hasFunction_eq f).trans has)]
    split
    case isTrue =>
      have same := congrArg (Option.map fun shape => (shape.1, shape.2.1, b))
        (retouches.functions g)
      rw [Option.map_map, Option.map_map] at same ⊢
      exact same
    case isFalse => exact retouches.functions g
  blocks := retouches.blocks
  declared := retouches.declared
  nodup := retouches.nodup

theorem lt_size_of_block? {b : BlockId} {block : Block} (found : p.block? b = some block) :
    b < Int.ofNat p.blocks.size := by
  obtain ⟨i, rfl, inside⟩ := entryAt?_eq_some_iff.mp found
  exact Int.ofNat_lt.mpr (lt_of_block? inside)

/-! ### Edits keep programs orderly -/

namespace IsOrderly

variable (orderly : p.IsOrderly)
include orderly

theorem retouch (retouches : p.Retouches q) : q.IsOrderly where
  function {f function} found := by
    obtain ⟨old, foundOld, same⟩ := retouches.exists_function found
    obtain ⟨sameId, sameBlocks, sameExit⟩ : old.id = function.id ∧ old.blocks = function.blocks ∧
        old.exit = function.exit := by
      simpa [Function.shape] using same
    obtain ⟨id, lists, ascending, exit⟩ := orderly.function foundOld
    rw [sameId] at id
    rw [sameBlocks] at lists ascending exit
    rw [sameExit] at exit
    exact ⟨id, fun b => (lists b).trans retouches.names_iff.symm, ascending, exit⟩
  block {b block} found := by
    obtain ⟨old, foundOld, same⟩ := retouches.exists_block found
    obtain ⟨sameId, sameFunction, sameKind, sameStray⟩ : old.id = block.id ∧
        old.function = block.function ∧ old.kind = block.kind ∧ old.stray = block.stray := by
      simpa [Block.shape] using same
    obtain ⟨id, owner, kind, stray⟩ := orderly.block foundOld
    rw [sameId] at id
    rw [sameFunction, ← retouches.hasFunction_eq] at owner
    rw [sameKind] at kind
    rw [sameStray] at stray
    exact ⟨id, owner, kind, stray⟩
  declared := retouches.nodup orderly.declared

/-- No block has the number of a block that is still to come. -/
theorem lt_of_listed {f : FunctionId} {function : Function} (found : p.function? f = some function)
    {b : BlockId} (listed : b ∈ function.blocks) : b < Int.ofNat p.blocks.size := by
  obtain ⟨block, foundBlock, _⟩ := ((orderly.function found).mem_blocks_iff b).mp listed
  exact lt_size_of_block? foundBlock

theorem addFunction (name : String) : (p.withFunction name).IsOrderly where
  function {f function} found := by
    rw [function?_withFunction] at found
    split at found
    case isTrue isNew =>
      cases found
      refine ⟨isNew.symm, fun b => iff_of_false List.not_mem_nil ?_, .nil, .inl rfl⟩
      rintro ⟨block, foundBlock, names⟩
      have owner := (orderly.block foundBlock).owner
      rw [names, isNew] at owner
      simp [hasFunction] at owner
    case isFalse =>
      obtain ⟨id, lists, ascending, exit⟩ := orderly.function found
      exact ⟨id, lists, ascending, exit⟩
  block found := by
    obtain ⟨id, owner, kind, stray⟩ := orderly.block found
    exact ⟨id, hasFunction_withFunction.mpr (.inl owner), kind, stray⟩
  declared := orderly.declared

theorem addBlock {f : FunctionId} (has : p.hasFunction f = true) (name : String)
    {kind : BlockKind} (known : kind ∈ [.plain, .raise, .call]) :
    (p.withBlock f name kind).IsOrderly where
  function {g function} found := by
    -- The new block names `f`, and no function lists it yet.
    have names : ∀ b, (∃ block, (p.withBlock f name kind).block? b = some block ∧
        block.function = g) ↔
        (∃ block, p.block? b = some block ∧ block.function = g) ∨
          (b = Int.ofNat p.blocks.size ∧ f = g) := by
      intro b
      rw [block?_withBlock]
      split
      case isTrue isNew =>
        have none : p.block? b = none := isNew ▸ entryAt?_size p.blocks
        rw [none]
        simp [isNew]
      case isFalse isOld =>
        rw [iff_self_or]
        exact fun isNew => absurd isNew.1 isOld
    rw [function?_withBlock has] at found
    split at found
    case isTrue isOwner =>
      obtain ⟨old, foundOld, rfl⟩ := Option.map_eq_some_iff.mp found
      obtain ⟨id, lists, ascending, exit⟩ := orderly.function foundOld
      refine ⟨id, fun b => ?_, ?_, ?_⟩
      · rw [names, ← lists, List.mem_append, List.mem_singleton]
        simp [isOwner]
      · refine List.pairwise_append.mpr ⟨ascending, List.pairwise_singleton _ _, ?_⟩
        intro b listed c isNew
        rw [List.mem_singleton.mp isNew]
        exact orderly.lt_of_listed foundOld listed
      · exact exit.imp_right (List.mem_append_left _)
    case isFalse other =>
      obtain ⟨id, lists, ascending, exit⟩ := orderly.function found
      refine ⟨id, fun b => ?_, ascending, exit⟩
      rw [names, ← lists]
      simp [Ne.symm other]
  block {b block} found := by
    rw [block?_withBlock] at found
    split at found
    case isTrue isNew =>
      cases found
      exact ⟨isNew.symm, (hasFunction_withBlock ..).trans has, known, by simp [Block.stray]⟩
    case isFalse =>
      obtain ⟨id, owner, kind, stray⟩ := orderly.block found
      exact ⟨id, (hasFunction_withBlock ..).trans owner, kind, stray⟩
  declared := orderly.declared

theorem setExit {b : BlockId} {block : Block} (found : p.block? b = some block) :
    (p.withExit block.function b).IsOrderly where
  function {g function} foundFunction := by
    rw [function?_withExit (orderly.block found).owner] at foundFunction
    split at foundFunction
    case isTrue isOwner =>
      obtain ⟨old, foundOld, rfl⟩ := Option.map_eq_some_iff.mp foundFunction
      obtain ⟨id, lists, ascending, _⟩ := orderly.function foundOld
      exact ⟨id, lists, ascending, .inr ((lists b).mpr ⟨block, found, isOwner.symm⟩)⟩
    case isFalse =>
      obtain ⟨id, lists, ascending, exit⟩ := orderly.function foundFunction
      exact ⟨id, lists, ascending, exit⟩
  block foundBlock := by
    obtain ⟨id, owner, kind, stray⟩ := orderly.block foundBlock
    exact ⟨id, (hasFunction_withExit ..).trans owner, kind, stray⟩
  declared := orderly.declared

end IsOrderly

end Program

/-! ## What validation can find wrong -/

/-- What is open in an orderly program. -/
inductive Concern where
  | entry
  | edges
  | exits
  | raiseArguments
  | callTargets
deriving DecidableEq

/-- What a defect of a block concerns, unless it is one of order. -/
def BlockDefect.concern? : BlockDefect → Option Concern
  | .missingSuccessor _ | .foreignSuccessor _ => some .edges
  | .successorsAndExit _ | .deadEnd | .strayReturn _ | .silentExit => some .exits
  | .emptyRaise => some .raiseArguments
  | .missingCallee _ | .missingCandidate _ | .unknownCall _ => some .callTargets
  | .wrongId _ | .unlisted _ | .plainRaise | .callRaise | .unknownKind _ => none

/-- What a defect concerns, unless it is one of order. -/
def Defect.concern? : Defect → Option Concern
  | .noEntry _ | .entryWithoutBody _ => some .entry
  | .inBlock _ defect => defect.concern?
  | .noCapabilities | .inFunction _ _ => none

namespace Program

variable {p : Program}

theorem concern?_of_mem_successorDefects {owners : Owners} {block : Block} {defect : BlockDefect}
    (member : defect ∈ p.successorDefects owners block) : defect.concern? = some .edges := by
  obtain ⟨s, _, wrong⟩ := List.mem_flatMap.mp member
  split at wrong
  · rw [List.mem_singleton.mp wrong]
    rfl
  · split at wrong
    · rw [List.mem_singleton.mp wrong]
      rfl
    · cases wrong

theorem concern?_of_mem_exitKindDefects {block : Block} {defect : BlockDefect}
    (member : defect ∈ p.exitKindDefects block) : defect.concern? = some .exits := by
  simp only [exitKindDefects, List.mem_append, List.mem_ite_nil_right, List.mem_singleton] at member
  obtain ((⟨_, rfl⟩ | ⟨_, rfl⟩) | ⟨_, rfl⟩) | ⟨_, rfl⟩ := member <;> rfl

theorem concern?_of_mem_targetDefects {target : CallTarget} {defect : BlockDefect}
    (member : defect ∈ p.targetDefects target) : defect.concern? = some .callTargets := by
  cases target with
  | direct callee =>
    rw [List.mem_singleton.mp (List.mem_ite_nil_left.mp member).2]
    rfl
  | resolved candidates complete =>
    obtain ⟨callee, _, rfl⟩ := List.mem_map.mp member
    rfl
  | unresolved => cases member
  | unknown code =>
    rw [List.mem_singleton.mp member]
    rfl

theorem BlockAgrees.concern?_of_mem_kindDefects {b : BlockId} {block : Block}
    (agrees : p.BlockAgrees b block) {defect : BlockDefect}
    (member : defect ∈ p.kindDefects block) : defect.concern? ≠ none := by
  have stray := agrees.stray
  have known := agrees.kind
  unfold Block.stray at stray
  unfold kindDefects at member
  cases kind : block.kind with
  | plain =>
    have bare : block.raised = [] := by simpa [kind] using stray
    simp [kind, bare] at member
  | raise =>
    have isEmpty : block.raised = [] ∧ defect = .emptyRaise := by simpa [kind] using member
    rw [isEmpty.2]
    exact Option.some_ne_none _
  | call =>
    have bare : block.raised = [] := by simpa [kind] using stray
    have wrong : defect ∈ p.targetDefects block.target := by simpa [kind, bare] using member
    simp [concern?_of_mem_targetDefects wrong]
  | unknown code => simp [kind] at known

namespace IsOrderly

variable (orderly : p.IsOrderly)
include orderly

theorem functionFits {f : FunctionId} {function : Function}
    (found : p.function? f = some function) : p.FunctionFits f function := by
  obtain ⟨id, lists, ascending, exit⟩ := orderly.function found
  refine ⟨id, fun b listed => ?_, ascending.imp Int.ne_of_lt, exit⟩
  obtain ⟨block, foundBlock, _⟩ := (lists b).mp listed
  rw [← isSome_block?, foundBlock]
  rfl

theorem nodup_listed : (p.functions.toList.flatMap (·.blocks)).Nodup :=
  nodup_flatMap_blocks (fun found => (orderly.functionFits found).nodup)
    fun found listed => ((orderly.function found).mem_blocks_iff _).mp listed

theorem exists_listed {b : BlockId} {block : Block} (found : p.block? b = some block) :
    ∃ function, p.function? block.function = some function ∧ b ∈ function.blocks := by
  obtain ⟨function, foundFunction⟩ := exists_of_hasFunction (orderly.block found).owner
  exact ⟨function, foundFunction,
    ((orderly.function foundFunction).mem_blocks_iff b).mpr ⟨block, found, rfl⟩⟩

/-- **Each block is listed once**, by the function that it names. -/
theorem count_listed {b : BlockId} {block : Block} (found : p.block? b = some block) :
    (p.listOf block.function).count b = 1 ∧
      (p.functions.toList.flatMap (·.blocks)).count b = 1 := by
  obtain ⟨function, foundFunction, listed⟩ := orderly.exists_listed found
  obtain ⟨i, _, inside⟩ := entryAt?_eq_some_iff.mp foundFunction
  have member : function ∈ p.functions.toList := mem_functions_iff.mpr ⟨i, inside⟩
  rw [listOf, foundFunction]
  exact ⟨List.count_eq_one_of_mem (orderly.functionFits foundFunction).nodup listed,
    List.count_eq_one_of_mem orderly.nodup_listed (List.mem_flatMap.mpr ⟨function, member, listed⟩)⟩

theorem concern?_of_mem_blockDefects {owners : Owners} (exact : owners.IsExact p) {i : Nat}
    {block : Block} (found : p.block? (Int.ofNat i) = some block) {defect : BlockDefect}
    (member : defect ∈ p.blockDefects owners i block) : defect.concern? ≠ none := by
  have id : block.id = i := (orderly.block found).id
  have owner : (owners.of i).map Int.ofNat = some block.function :=
    owner_eq exact (orderly.exists_listed found)
  unfold blockDefects at member
  rw [if_neg (not_not_intro id), if_neg (not_not_intro owner)] at member
  rcases List.mem_append.mp member with flow | action
  · rcases List.mem_append.mp flow with edge | exit
    · simp [concern?_of_mem_successorDefects edge]
    · simp [concern?_of_mem_exitKindDefects exit]
  · exact (orderly.block found).concern?_of_mem_kindDefects action

/-- **What validation finds wrong with an orderly program** concerns the entry function, edges,
exits, the arguments of raises or the targets of calls. -/
theorem concern?_ne_none (capable : p.capabilities ≠ none) {defect : Defect}
    (member : defect ∈ p.defects) : defect.concern? ≠ none := by
  have clean := checkFunctions_eq_nil orderly.functionFits orderly.nodup_listed
  have exact := (checkFunctions_exact clean).2
  obtain ⟨caps, isCaps⟩ := Option.ne_none_iff_exists'.mp capable
  unfold defects at member
  simp only [isCaps, Option.isNone_some, Bool.false_eq_true, if_false, clean, List.isEmpty_nil,
    if_true] at member
  split at member
  case h_1 =>
    rw [List.mem_singleton.mp member]
    exact Option.some_ne_none _
  case h_2 entry found =>
    split at member
    · rw [List.mem_singleton.mp member]
      exact Option.some_ne_none _
    · obtain ⟨⟨block, i⟩, inside, wrong⟩ := List.mem_flatMap.mp member
      obtain ⟨defect, isDefect, rfl⟩ := List.mem_map.mp wrong
      exact orderly.concern?_of_mem_blockDefects exact (mem_zipIdx_toList_iff.mp inside) isDefect

end IsOrderly

end Program

end CapLiveness
