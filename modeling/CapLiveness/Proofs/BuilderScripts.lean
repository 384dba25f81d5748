import CapLiveness.Proofs.BuilderSessions

/-!
# Scripts for a builder

A script is a list of calls that is written before the first of them is made, with numbers in it
that later calls will answer. The builder is followed from call to call (`Builder.Makes`), with its
program given by lists (`Builder.withLists`): a call for one block or function changes one entry
between the entries before and after it.

The blocks of a function are made in two passes (`Builder.blockCalls`). All of them are added
before the first gets its successors and its exit, since a block may continue with one that comes
later. The second pass leaves exactly the blocks that were asked for, and the last one that
returns as the exit of the function (`Builder.makes_blockCalls`).
-/

set_option autoImplicit false

namespace CapLiveness

namespace Builder

/-! ## Following a builder -/

/-- Calls that are given what exists, one after the other, and the builder that they leave. -/
inductive Makes : Builder → List Call → Builder → Prop where
  | nil {builder : Builder} : Makes builder [] builder
  | cons {builder after : Builder} {call : Call} {rest : List Call}
      (fits : call.Fits builder.program) (makes : Makes (builder.perform call).1 rest after) :
      Makes builder (call :: rest) after

theorem Makes.append {builder between after : Builder} {first second : List Call}
    (makesFirst : Makes builder first between) (makesSecond : Makes between second after) :
    Makes builder (first ++ second) after := by
  induction makesFirst with
  | nil => exact makesSecond
  | cons fits _ ih => exact .cons fits (ih makesSecond)

/-- Calls that are given what exists are given what was answered. -/
theorem Makes.proper {s : Session} (kept : s.IsKept) {calls : List Call} {after : Builder}
    (makes : Makes s.builder calls after) : s.Proper calls ∧ (s.run calls).builder = after := by
  generalize isBuilder : s.builder = builder at makes
  induction makes generalizing s with
  | nil => exact ⟨trivial, isBuilder⟩
  | @cons builder _ call _ fits _ ih =>
    rw [← isBuilder] at fits
    have permits : s.log.Permits call :=
      ⟨fun f member => (kept.functions f).mp (fits.functions f member),
        fun b member => (kept.blocks b).mp (fits.blocks b member)⟩
    obtain ⟨proper, isAfter⟩ := ih (kept.step permits) (by rw [← isBuilder]; rfl)
    exact ⟨⟨permits, proper⟩, isAfter⟩

theorem current_eq {builder : Builder} {f : FunctionId}
    (isEntry : (if builder.program.entry < 0 ∧ 0 < builder.program.functions.size then 0
      else builder.program.entry) = f) :
    builder.current = { builder.program with entry := f } := by
  subst isEntry
  by_cases unchosen : builder.program.entry < 0 ∧ 0 < builder.program.functions.size
  · rw [current, if_pos unchosen, if_pos unchosen]
  · rw [current, if_neg unchosen, if_neg unchosen]

/-! ## Programs given by lists -/

/-- A builder whose program has the given functions, blocks and symbols. -/
def withLists (builder : Builder) (functions : List Function) (blocks : List Block)
    (declared : List String) : Builder :=
  { builder with program := { builder.program with
    functions := functions.toArray
    blocks := blocks.toArray
    declared := declared } }

/-- A block as it is added. -/
def freshBlock (number function : Nat) (name : String) (kind : BlockKind) : Block where
  id := Int.ofNat number
  function := Int.ofNat function
  name := name
  kind := kind

/-- The symbols after one more is declared. -/
def declareOnce (declared : List String) (symbol : String) : List String :=
  if declared.contains symbol then declared else declared ++ [symbol]

theorem modify_between {α : Type} (before after : List α) (x : α) (change : α → α) :
    (before ++ x :: after).toArray.modify before.length change =
      (before ++ change x :: after).toArray := by
  rw [List.modify_toArray]
  congr 1
  induction before with
  | nil => rfl
  | cons first rest ih => exact congrArg (List.cons first) ih

section Lists

variable {builder : Builder} {functions done later : List Function} {f : Function}
  {before after blocks : List Block} {block : Block} {declared : List String}

theorem hasFunction_between :
    (builder.withLists (done ++ f :: later) blocks declared).program.hasFunction
      (Int.ofNat done.length) = true := by
  rw [← Program.isSome_function?]
  show ((done ++ f :: later).toArray[done.length]?).isSome = true
  simp

theorem hasBlock_between :
    (builder.withLists functions (before ++ block :: after) declared).program.hasBlock
      (Int.ofNat before.length) = true := by
  rw [← Program.isSome_block?]
  show ((before ++ block :: after).toArray[before.length]?).isSome = true
  simp

theorem changeFunction_between (change : Function → Function) :
    (builder.withLists (done ++ f :: later) blocks declared).changeFunction
        (Int.ofNat done.length) change =
      (builder.withLists (done ++ change f :: later) blocks declared, some ()) := by
  rw [changeFunction, Program.changeFunction?, if_pos hasFunction_between]
  simp only [changed, withLists, show (Int.ofNat done.length).toNat = done.length from rfl,
    modify_between]

theorem changeBlock_between (change : Block → Block) :
    (builder.withLists functions (before ++ block :: after) declared).changeBlock
        (Int.ofNat before.length) change =
      (builder.withLists functions (before ++ change block :: after) declared, some ()) := by
  rw [changeBlock, Program.changeBlock?, if_pos hasBlock_between]
  simp only [changed, withLists, show (Int.ofNat before.length).toNat = before.length from rfl,
    modify_between]

theorem declareSymbol_withLists (symbol : String) :
    (builder.withLists functions blocks declared).declareSymbol symbol =
      builder.withLists functions blocks (declareOnce declared symbol) := by
  by_cases known : declared.contains symbol = true
  · rw [declareOnce, if_pos known]
    exact if_pos known
  · rw [declareOnce, if_neg known]
    exact if_neg known

/-- The block that is added stands last. -/
theorem addBlock_withLists (name : String) (kind : BlockKind) :
    (builder.withLists (done ++ f :: later) blocks declared).addBlock
        (Int.ofNat done.length) name kind =
      (builder.withLists
        (done ++ { f with blocks := f.blocks ++ [Int.ofNat blocks.length] } :: later)
        (blocks ++ [freshBlock blocks.length done.length name kind]) declared,
        some (Int.ofNat blocks.length)) := by
  have pushed : (builder.withLists (done ++ f :: later) blocks declared).addBlock
        (Int.ofNat done.length) name kind =
      andThen ((builder.withLists (done ++ f :: later)
        (blocks ++ [freshBlock blocks.length done.length name kind]) declared).changeFunction
          (Int.ofNat done.length) fun function =>
            { function with blocks := function.blocks ++ [Int.ofNat blocks.length] })
        fun _ b => (b, some (Int.ofNat blocks.length)) := by
    simp only [addBlock, withLists, freshBlock, List.push_toArray, List.size_toArray]
  rw [pushed, changeFunction_between]
  rfl

theorem block?_between :
    (builder.withLists functions (before ++ block :: after) declared).program.block?
      (Int.ofNat before.length) = some block := by
  show (before ++ block :: after).toArray[before.length]? = some block
  simp

/-- A block that is marked becomes the exit of its function. -/
theorem markReturn_between (owner : block.function = Int.ofNat done.length) :
    (builder.withLists (done ++ f :: later) (before ++ block :: after) declared).markReturn
        (Int.ofNat before.length) =
      (builder.withLists (done ++ { f with exit := Int.ofNat before.length } :: later)
        (before ++ { block with exit := .return } :: after) declared, some ()) := by
  simp only [markReturn, setExit, changeBlock_between, andThen, block?_between, owner,
    changeFunction_between]

theorem fits_none {call : Call} (noFunctions : call.functions = []) (noBlocks : call.blocks = []) :
    call.Fits builder.program := by
  constructor
  · rw [noFunctions]
    exact fun _ member => absurd member List.not_mem_nil
  · rw [noBlocks]
    exact fun _ member => absurd member List.not_mem_nil

theorem fits_function {call : Call} (isFunction : call.functions = [Int.ofNat done.length])
    (noBlocks : call.blocks = []) :
    call.Fits (builder.withLists (done ++ f :: later) blocks declared).program := by
  constructor
  · rw [isFunction]
    exact fun _ member => List.mem_singleton.mp member ▸ hasFunction_between
  · rw [noBlocks]
    exact fun _ member => absurd member List.not_mem_nil

theorem fits_block {call : Call} (noFunctions : call.functions = [])
    (isBlock : call.blocks = [Int.ofNat before.length]) :
    call.Fits (builder.withLists functions (before ++ block :: after) declared).program := by
  constructor
  · rw [noFunctions]
    exact fun _ member => absurd member List.not_mem_nil
  · rw [isBlock]
    exact fun _ member => List.mem_singleton.mp member ▸ hasBlock_between

/-- A call that changes one block. -/
theorem makes_changeBlock (call : Call) (change : Block → Block)
    (noFunctions : call.functions = []) (isBlock : call.blocks = [Int.ofNat before.length])
    (performs : ∀ builder : Builder, builder.perform call =
      andThen (builder.changeBlock (Int.ofNat before.length) change) perform.done)
    {calls : List Call} {final : Builder}
    (rest : Makes (builder.withLists functions (before ++ change block :: after) declared)
      calls final) :
    Makes (builder.withLists functions (before ++ block :: after) declared) (call :: calls)
      final := by
  refine .cons (fits_block noFunctions isBlock) ?_
  rw [performs, changeBlock_between]
  exact rest

end Lists

end Builder

/-! ## Scripts -/

namespace Block

open Builder (Call)

/-- The calls that add a block, without its successors and its exit. -/
def bodyCalls (block : Block) : List Call :=
  let added : Call := match block.kind with
    | .raise => .addRaise block.function block.name block.raised
    | .call => .addCall block.function block.name block.target
    | .plain | .unknown _ => .addPlain block.function block.name
  [added, .addUses block.id block.uses, .setSize block.id block.size]

/-- The calls that give a block its successors and its exit. -/
def endCalls (block : Block) : List Call :=
  block.successors.map (fun next => .addEdges block.id [next]) ++
    match block.exit with
    | .return => [.markReturn block.id]
    | .unreachable => [.markUnreachable block.id]
    | .unwind => [.markUnwind block.id]
    | .none | .unknown _ => []

/-- A block without its successors and its exit. -/
def bare (block : Block) : Block := { block with successors := [], exit := .none }

/-- Whether calls can make a block: its kind and its exit mean something, only a raise has
arguments, and only a call has a target. -/
structure IsMakeable (block : Block) : Prop where
  kind : block.kind = .plain ∨ block.kind = .raise ∨ block.kind = .call
  raised : block.kind ≠ .raise → block.raised = []
  target : block.kind ≠ .call → block.target = .direct 0
  exit : ∀ code, block.exit ≠ .unknown code

end Block

namespace Builder

section Blocks

variable {builder : Builder} {functions done later : List Function} {f : Function}
  {before after blocks : List Block} {block : Block} {declared : List String}

/-- The symbols after a block is added. -/
def declareFor (primitive : String) (declared : List String) (block : Block) : List String :=
  if block.kind = .raise then declareOnce declared primitive else declared

/-- The exit of a function after one of its blocks has got its exit. -/
def exitAfter (exit : BlockId) (block : Block) : BlockId :=
  if block.exit = .return then block.id else exit

theorem makes_bodyCalls (isNext : block.id = Int.ofNat blocks.length)
    (owner : block.function = Int.ofNat done.length) (makeable : block.IsMakeable) :
    Makes (builder.withLists (done ++ f :: later) blocks declared) block.bodyCalls
      (builder.withLists (done ++ { f with blocks := f.blocks ++ [block.id] } :: later)
        (blocks ++ [block.bare]) (declareFor builder.program.primitive declared block)) := by
  obtain ⟨kinds, raised, target, _⟩ := makeable
  obtain ⟨id, function, name, successors, kind, arguments, callee, uses, exit, size⟩ := block
  dsimp only at isNext owner kinds raised target
  subst isNext owner
  -- The kinds of blocks differ in the first call; the other two are alike.
  have rest : ∀ (functions : List Function) (added : Block) (declared : List String),
      Makes (builder.withLists functions (blocks ++ [added]) declared)
        [.addUses (Int.ofNat blocks.length) uses, .setSize (Int.ofNat blocks.length) size]
        (builder.withLists functions
          (blocks ++ [{ added with uses := added.uses ++ uses, size := size }]) declared) := by
    intro functions added declared
    refine makes_changeBlock _ (fun block => { block with uses := block.uses ++ uses }) rfl rfl
      (fun _ => rfl) ?_
    exact makes_changeBlock _ (fun block => { block with size := size }) rfl rfl (fun _ => rfl) .nil
  rcases kinds with rfl | rfl | rfl
  · obtain rfl := raised (by decide)
    obtain rfl := target (by decide)
    refine .cons (fits_function rfl rfl) ?_
    simp only [perform, addPlain, addBlock_withLists, andThen, perform.added]
    exact rest _ _ _
  · obtain rfl := target (by decide)
    refine .cons (fits_function rfl rfl) ?_
    simp only [perform, addRaise, addBlock_withLists, andThen, changeBlock_between,
      declareSymbol_withLists, perform.added]
    exact rest _ _ _
  · obtain rfl := raised (by decide)
    refine .cons (fits_function rfl rfl) ?_
    simp only [perform, addCall, addBlock_withLists, andThen, changeBlock_between, perform.added]
    exact rest _ _ _

/-- Edges are added one by one. -/
theorem makes_edges (added : List BlockId) :
    Makes (builder.withLists functions (before ++ block :: after) declared)
      (added.map fun next => .addEdges (Int.ofNat before.length) [next])
      (builder.withLists functions
        (before ++ { block with successors := block.successors ++ added } :: after) declared) := by
  induction added generalizing block with
  | nil =>
    rw [List.append_nil]
    exact .nil
  | cons next rest ih =>
    refine makes_changeBlock _
      (fun block => { block with successors := block.successors ++ [next] }) rfl rfl
      (fun _ => rfl) ?_
    have more := @ih { block with successors := block.successors ++ [next] }
    rwa [List.append_assoc] at more

theorem makes_endCalls (place : block.id = Int.ofNat before.length)
    (owner : block.function = Int.ofNat done.length) (makeable : block.IsMakeable) :
    Makes (builder.withLists (done ++ f :: later) (before ++ block.bare :: after) declared)
      block.endCalls
      (builder.withLists (done ++ { f with exit := exitAfter f.exit block } :: later)
        (before ++ block :: after) declared) := by
  have known := makeable.exit
  obtain ⟨id, function, name, successors, kind, arguments, callee, uses, exit, size⟩ := block
  dsimp only at place owner known
  subst place owner
  refine (makes_edges successors).append ?_
  cases exit with
  | none => exact .nil
  | unknown code => exact absurd rfl (known code)
  | unreachable =>
    exact makes_changeBlock _ (fun block => { block with exit := .unreachable }) rfl rfl
      (fun _ => rfl) .nil
  | unwind =>
    exact makes_changeBlock _ (fun block => { block with exit := .unwind }) rfl rfl
      (fun _ => rfl) .nil
  | «return» =>
    refine .cons (fits_block rfl rfl) ?_
    rw [perform, markReturn_between rfl]
    exact .nil

end Blocks

/-! ## The blocks of a function -/

/-- The calls for the blocks of one function. -/
def blockCalls (blocks : List Block) : List Call :=
  blocks.flatMap Block.bodyCalls ++ blocks.flatMap Block.endCalls

/-- Blocks of one function that can be made, and that are numbered from `first`. -/
def IsSegment (function : Nat) : Nat → List Block → Prop
  | _, [] => True
  | first, block :: rest => block.id = Int.ofNat first ∧ block.function = Int.ofNat function ∧
      block.IsMakeable ∧ IsSegment function (first + 1) rest

theorem IsSegment.map_id {function first : Nat} {segment : List Block}
    (isSegment : IsSegment function first segment) :
    segment.map (·.id) = (List.range segment.length).map fun i => Int.ofNat (first + i) := by
  induction segment generalizing first with
  | nil => rfl
  | cons block rest ih =>
    obtain ⟨id, _, _, others⟩ := isSegment
    have shift : ∀ i, first + 1 + i = first + (i + 1) := fun i => by omega
    rw [List.map_cons, id, ih others, List.length_cons, List.range_succ_eq_map, List.map_cons,
      List.map_map]
    simp only [shift]
    rfl

theorem IsSegment.function_eq {function first : Nat} {segment : List Block}
    (isSegment : IsSegment function first segment) :
    ∀ block ∈ segment, block.function = Int.ofNat function := by
  induction segment generalizing first with
  | nil => exact fun _ member => absurd member List.not_mem_nil
  | cons block rest ih =>
    obtain ⟨_, owner, _, others⟩ := isSegment
    exact List.forall_mem_cons.mpr ⟨owner, ih others⟩

theorem IsSegment.filter_returning {function first : Nat} {before segment after : List Block}
    (isSegment : IsSegment function first segment)
    (others : ∀ block ∈ before ++ after, block.function ≠ Int.ofNat function) :
    (before ++ (segment ++ after)).filter
        (fun b => b.function == Int.ofNat function && b.exit == .return) =
      segment.filter (·.exit == .return) := by
  have noOther : ∀ part : List Block, (∀ block ∈ part, block ∈ before ++ after) →
      part.filter (fun b => b.function == Int.ofNat function && b.exit == .return) = [] := by
    intro part isOther
    refine List.filter_eq_nil_iff.mpr fun block member both => ?_
    rw [Bool.and_eq_true, beq_iff_eq] at both
    exact others block (isOther block member) both.1
  have own : segment.filter (fun b => b.function == Int.ofNat function && b.exit == .return) =
      segment.filter (·.exit == .return) := by
    refine List.filter_congr fun block member => ?_
    rw [isSegment.function_eq block member, beq_self_eq_true, Bool.true_and]
  rw [List.filter_append, List.filter_append, own,
    noOther before fun _ => List.mem_append_left after,
    noOther after fun _ => List.mem_append_right before, List.nil_append, List.append_nil]

/-- Functions list the blocks that stand at their numbers. -/
theorem IsSegment.filterMap_block? {p : Program} {function : Nat}
    {before segment after : List Block} (isSegment : IsSegment function before.length segment)
    (blocks : p.blocks = (before ++ segment ++ after).toArray) :
    (segment.map (·.id)).filterMap p.block? = segment := by
  induction segment generalizing before with
  | nil => rfl
  | cons block rest ih =>
    obtain ⟨id, _, _, others⟩ := isSegment
    have found : p.block? block.id = some block := by
      rw [id]
      show p.blocks[before.length]? = some block
      simp [blocks]
    have more := @ih (before ++ [block])
      (by rwa [List.length_append, List.length_singleton]) (by simp [blocks])
    rw [List.map_cons, List.filterMap_cons, found, more]

/-- The last block that returns is the exit. -/
theorem foldl_exitAfter (exit : BlockId) (segment : List Block) :
    segment.foldl exitAfter exit =
      ((segment.filter (·.exit == .return)).getLast?.map (·.id)).getD exit := by
  induction segment generalizing exit with
  | nil => rfl
  | cons block rest ih =>
    rw [List.foldl_cons, ih, exitAfter]
    by_cases returns : block.exit = .return
    · simp only [returns, if_true, List.filter_cons, beq_self_eq_true, List.getLast?_cons]
      cases (rest.filter (·.exit == .return)).getLast? <;> rfl
    · simp [returns]

section Segments

variable {builder : Builder} {done later : List Function} {f : Function} {declared : List String}

theorem makes_bodies {blocks segment : List Block}
    (isSegment : IsSegment done.length blocks.length segment) :
    Makes (builder.withLists (done ++ f :: later) blocks declared)
      (segment.flatMap Block.bodyCalls)
      (builder.withLists (done ++ { f with blocks := f.blocks ++ segment.map (·.id) } :: later)
        (blocks ++ segment.map Block.bare)
        (segment.foldl (declareFor builder.program.primitive) declared)) := by
  induction segment generalizing f blocks declared with
  | nil =>
    simp only [List.map_nil, List.append_nil]
    exact .nil
  | cons block rest ih =>
    obtain ⟨isNext, owner, makeable, others⟩ := isSegment
    refine (makes_bodyCalls isNext owner makeable).append ?_
    -- The next block is added behind this one, so the numbers go on.
    have more := @ih { f with blocks := f.blocks ++ [block.id] }
      (declareFor builder.program.primitive declared block) (blocks ++ [block.bare])
      (by rwa [List.length_append, List.length_singleton])
    rwa [List.append_assoc, List.append_assoc] at more

theorem makes_ends {before segment : List Block}
    (isSegment : IsSegment done.length before.length segment) :
    Makes (builder.withLists (done ++ f :: later) (before ++ segment.map Block.bare) declared)
      (segment.flatMap Block.endCalls)
      (builder.withLists (done ++ { f with exit := segment.foldl exitAfter f.exit } :: later)
        (before ++ segment) declared) := by
  induction segment generalizing f before with
  | nil => exact .nil
  | cons block rest ih =>
    obtain ⟨place, owner, makeable, others⟩ := isSegment
    refine (makes_endCalls place owner makeable).append ?_
    have more := @ih { f with exit := exitAfter f.exit block } (before ++ [block])
      (by rwa [List.length_append, List.length_singleton])
    rwa [List.append_assoc, List.append_assoc] at more

/-- **The blocks of one function.** -/
theorem makes_blockCalls {blocks segment : List Block}
    (isSegment : IsSegment done.length blocks.length segment) :
    Makes (builder.withLists (done ++ f :: later) blocks declared) (blockCalls segment)
      (builder.withLists
        (done ++ { f with blocks := f.blocks ++ segment.map (·.id)
                          exit := segment.foldl exitAfter f.exit } :: later)
        (blocks ++ segment) (segment.foldl (declareFor builder.program.primitive) declared)) :=
  (makes_bodies isSegment).append (makes_ends isSegment)

end Segments

/-! ## Symbols and functions -/

section Start

variable {builder : Builder} {functions : List Function} {blocks : List Block}
  {declared : List String}

theorem makes_declareSymbol (symbols : List String) :
    Makes (builder.withLists functions blocks declared) (symbols.map .declareSymbol)
      (builder.withLists functions blocks (symbols.foldl declareOnce declared)) := by
  induction symbols generalizing declared with
  | nil => exact .nil
  | cons symbol rest ih =>
    refine .cons (fits_none rfl rfl) ?_
    simp only [perform, declareSymbol_withLists]
    exact ih

/-- Symbols that are declared once are those without repetitions. -/
theorem foldl_declareOnce (known symbols : List String) :
    symbols.foldl declareOnce known.eraseDups = (known ++ symbols).eraseDups := by
  induction symbols generalizing known with
  | nil => rw [List.append_nil, List.foldl_nil]
  | cons symbol rest ih =>
    have once : declareOnce known.eraseDups symbol = (known ++ [symbol]).eraseDups := by
      rw [List.eraseDups_append]
      by_cases isKnown : symbol ∈ known
      · simp [declareOnce, List.removeAll, isKnown]
      · simp [declareOnce, List.removeAll, isKnown, List.eraseDups_cons]
    rw [List.foldl_cons, once, ih, List.append_assoc, List.singleton_append]

theorem foldl_declareFor (primitive : String) (segment : List Block) :
    segment.foldl (declareFor primitive) declared =
      if segment.any (·.kind == .raise) && !declared.contains primitive then
        declared ++ [primitive] else declared := by
  induction segment generalizing declared with
  | nil => rfl
  | cons block rest ih =>
    rw [List.foldl_cons, ih, declareFor, declareOnce]
    by_cases isRaise : block.kind = .raise
    · by_cases known : primitive ∈ declared <;> simp [isRaise, known]
    · simp [isRaise]

/-- The builder after a function is added, apart from its lists. -/
def afterFunction (builder : Builder) (number : Nat) (name : String) : Builder :=
  let chosen := !builder.entryChosen && name == "main"
  { program := { builder.program with
      entry := if chosen then Int.ofNat number else builder.program.entry }
    entryChosen := builder.entryChosen || chosen }

theorem addFunction_withLists (name : String) :
    (builder.withLists functions blocks declared).addFunction name =
      (Int.ofNat functions.length, (builder.afterFunction functions.length name).withLists
        (functions ++ [{ id := Int.ofNat functions.length, name := name }]) blocks declared) := by
  simp only [addFunction, withLists, afterFunction, List.push_toArray, List.size_toArray]

end Start

end Builder

end CapLiveness
