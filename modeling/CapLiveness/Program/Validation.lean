import CapLiveness.Problem
import CapLiveness.Program.Basic

/-!
# Validation of programs

A program is fit for the analysis when its ids are dense and consistent, each
block is listed by exactly the function it names, every edge stays inside one
function, every call target exists, each function has at most one returning
block, which is its canonical exit, and the entry function has a body.
Capability arguments are not looked at here.

`Program.defects` lists what is wrong, in three stages: the enumeration and the
entry function, then the functions, then the blocks. A stage is reached only
when the stages before it found nothing. While the functions are checked, an
ownership table records which function lists which block.
-/

set_option autoImplicit false

namespace CapLiveness

/-! ## Defects -/

/-- What can be wrong with a function. -/
inductive FunctionDefect where
  /-- The id is not the position. -/
  | wrongId (id : FunctionId)
  /-- A listed block does not exist. -/
  | missingBlock (block : BlockId)
  /-- A listed block is already listed, here or by another function. -/
  | ownedBlock (block : BlockId) (owner : Nat)
  /-- The exit block is not one of the function's blocks. -/
  | foreignExit (block : BlockId)
  /-- A function without blocks has an exit block. -/
  | exitWithoutBody
deriving DecidableEq

/-- What can be wrong with a block. -/
inductive BlockDefect where
  /-- The id is not the position. -/
  | wrongId (id : BlockId)
  /-- The function that the block names does not list it. -/
  | unlisted (function : FunctionId)
  /-- A successor does not exist. -/
  | missingSuccessor (successor : BlockId)
  /-- A successor belongs to another function. -/
  | foreignSuccessor (successor : BlockId)
  /-- The block has successors and yet an exit kind. -/
  | successorsAndExit (exit : ExitKind)
  /-- The block has neither successors nor an exit kind. -/
  | deadEnd
  /-- The block returns but is not the canonical exit of its function. -/
  | strayReturn (function : FunctionId)
  /-- The block is the canonical exit but does not return. -/
  | silentExit
  /-- A plain block has raise arguments. -/
  | plainRaise
  /-- A raise has no argument. -/
  | emptyRaise
  /-- A call has raise arguments. -/
  | callRaise
  /-- The callee of a direct call does not exist. -/
  | missingCallee (callee : FunctionId)
  /-- A candidate of an indirect call does not exist. -/
  | missingCandidate (callee : FunctionId)
  /-- The kind of the call is unknown. -/
  | unknownCall (code : Int)
  /-- The kind of the block is unknown. -/
  | unknownKind (code : Int)
deriving DecidableEq

/-- What can be wrong with a program. -/
inductive Defect where
  /-- The program has no capability enumeration. -/
  | noCapabilities
  /-- The entry function does not exist. -/
  | noEntry (entry : FunctionId)
  /-- The entry function is a declaration. -/
  | entryWithoutBody (entry : FunctionId)
  /-- A function, by position, is wrong. -/
  | inFunction (index : Nat) (defect : FunctionDefect)
  /-- A block, by position, is wrong. -/
  | inBlock (index : Nat) (defect : BlockDefect)
deriving DecidableEq

/-- The wording of a defect of the function at a position. -/
def FunctionDefect.message (p : Program) (index : Nat) : FunctionDefect → String
  | .wrongId id => s!"has id {id.text} at index {index}"
  | .missingBlock block => s!"lists nonexistent block {block.text}"
  | .ownedBlock block owner =>
    s!"lists block {p.blockName block}, already owned by {p.functionName (Int.ofNat owner)}"
  | .foreignExit block => s!"exit block {block.text} is not one of its blocks"
  | .exitWithoutBody => "is a declaration but has an exit block"

/-- The wording of a defect of the block at a position. -/
def BlockDefect.message (p : Program) (index : Nat) : BlockDefect → String
  | .wrongId id => s!"has id {id.text} at index {index}"
  | .unlisted function => s!"is not listed by its function {function.text}"
  | .missingSuccessor successor => s!"has nonexistent successor {successor.text}"
  | .foreignSuccessor successor =>
    s!"has successor {p.blockName successor} in another function"
  | .successorsAndExit exit => s!"has successors and exit kind {exit.text}"
  | .deadEnd => "has no successors and no exit kind"
  | .strayReturn function =>
    s!"returns but is not the canonical exit of {p.functionName function}"
  | .silentExit => "is the canonical exit but does not return"
  | .plainRaise => "is plain but has raise arguments"
  | .emptyRaise => "raises no capability"
  | .callRaise => "is a call site but has raise arguments"
  | .missingCallee callee => s!"calls nonexistent function {callee.text}"
  | .missingCandidate callee => s!"may call nonexistent function {callee.text}"
  | .unknownCall code => s!"has unknown call kind {CallTarget.kindText code}"
  | .unknownKind code => s!"has unknown kind {(BlockKind.unknown code).text}"

/-- The defect as a problem, with its place and wording. -/
def Defect.problem (p : Program) : Defect → Problem
  | .noCapabilities => .malformed ⟨"", ""⟩ "no capability enumeration"
  | .noEntry entry => .malformed ⟨"", ""⟩ s!"entry function {entry.text} does not exist"
  | .entryWithoutBody entry =>
    .malformed ⟨p.functionName entry, ""⟩ "is the entry function but has no blocks"
  | .inFunction index defect =>
    .malformed ⟨p.functionName (Int.ofNat index), ""⟩ (defect.message p index)
  | .inBlock index defect =>
    .malformed ⟨"", p.blockName (Int.ofNat index)⟩ (defect.message p index)

namespace Program

/-! ## Functions -/

/-- Which function, by position, lists each block. -/
abbrev Owners := Array (Option Nat)

/-- The function that lists the given block, if any. -/
def Owners.of (owners : Owners) (b : BlockId) : Option Nat := (entryAt? owners b).join

/-- Enters one block of a function's list into the ownership table. -/
def claimBlock (p : Program) (index : Nat) (state : Owners × List FunctionDefect) (b : BlockId) :
    Owners × List FunctionDefect :=
  if !p.hasBlock b then (state.1, state.2 ++ [.missingBlock b])
  else match state.1.of b with
    | some owner => (state.1, state.2 ++ [.ownedBlock b owner])
    | none => (state.1.setIfInBounds b.toNat (some index), state.2)

/-- What is wrong with the exit of a function, once its blocks are entered. -/
def exitDefects (owners : Owners) (index : Nat) (f : Function) : List FunctionDefect :=
  if f.exit = BlockId.absent then []
  else
    (if owners.of f.exit = some index then [] else [.foreignExit f.exit]) ++
      (if f.isDeclaration then [.exitWithoutBody] else [])

/-- Enters the blocks of a function into the ownership table and lists what is
wrong with it. A function with a wrong id is not looked at further. -/
def checkFunction (p : Program) (owners : Owners) (index : Nat) (f : Function) :
    Owners × List FunctionDefect :=
  if f.id ≠ index then (owners, [.wrongId f.id])
  else
    let claimed := f.blocks.foldl (p.claimBlock index) (owners, [])
    (claimed.1, claimed.2 ++ exitDefects claimed.1 index f)

/-- Checks the functions in order. -/
def checkFunctions (p : Program) : Owners × List Defect :=
  p.functions.toList.zipIdx.foldl
    (fun state entry =>
      let checked := p.checkFunction state.1 entry.2 entry.1
      (checked.1, state.2 ++ checked.2.map (.inFunction entry.2)))
    (Array.replicate p.blocks.size none, [])

/-! ## Blocks -/

/-- What is wrong with the successors of a block. -/
def successorDefects (p : Program) (owners : Owners) (b : Block) : List BlockDefect :=
  b.successors.flatMap fun s =>
    if !p.hasBlock s then [.missingSuccessor s]
    else if (owners.of s).map Int.ofNat ≠ some b.function then [.foreignSuccessor s]
    else []

/-- What is wrong with the way control leaves a block. -/
def exitKindDefects (p : Program) (b : Block) : List BlockDefect :=
  let canonical := (p.function? b.function).map (·.exit)
  (if b.successors ≠ [] ∧ b.exit ≠ .none then [.successorsAndExit b.exit] else []) ++
  (if b.successors = [] ∧ b.exit = .none then [.deadEnd] else []) ++
  (if b.exit = .return ∧ canonical ≠ some b.id then [.strayReturn b.function] else []) ++
  (if canonical = some b.id ∧ b.exit ≠ .return then [.silentExit] else [])

/-- What is wrong with the target of a call. -/
def targetDefects (p : Program) : CallTarget → List BlockDefect
  | .direct callee => if p.hasFunction callee then [] else [.missingCallee callee]
  | .resolved candidates _ =>
    (candidates.filter fun f => !p.hasFunction f).map .missingCandidate
  | .unresolved => []
  | .unknown code => [.unknownCall code]

/-- What is wrong with what a block does. -/
def kindDefects (p : Program) (b : Block) : List BlockDefect :=
  match b.kind with
  | .plain => if b.raised = [] then [] else [.plainRaise]
  | .raise => if b.raised = [] then [.emptyRaise] else []
  | .call => (if b.raised = [] then [] else [.callRaise]) ++ p.targetDefects b.target
  | .unknown code => [.unknownKind code]

/-- What is wrong with the block at a position. A block with a wrong id, or one
that its function does not list, is not looked at further. -/
def blockDefects (p : Program) (owners : Owners) (index : Nat) (b : Block) : List BlockDefect :=
  if b.id ≠ index then [.wrongId b.id]
  else if (owners.of index).map Int.ofNat ≠ some b.function then [.unlisted b.function]
  else p.successorDefects owners b ++ p.exitKindDefects b ++ p.kindDefects b

/-- What is wrong with the blocks. -/
def checkBlocks (p : Program) (owners : Owners) : List Defect :=
  p.blocks.toList.zipIdx.flatMap fun entry =>
    (p.blockDefects owners entry.2 entry.1).map (.inBlock entry.2)

/-! ## Programs -/

/-- Everything that the first stage of checks to fail finds wrong. -/
def defects (p : Program) : List Defect :=
  if p.capabilities.isNone then [.noCapabilities]
  else match p.function? p.entry with
    | none => [.noEntry p.entry]
    | some entry =>
      if entry.isDeclaration then [.entryWithoutBody p.entry]
      else
        let checked := p.checkFunctions
        if checked.2.isEmpty then p.checkBlocks checked.1 else checked.2

/-- Nothing for a program that is fit for the analysis, and otherwise all its
defects as one problem. -/
def validate (p : Program) : Option Problem :=
  Problem.ofCauses (p.defects.map (·.problem p))

end Program

end CapLiveness
