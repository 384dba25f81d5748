import CapLiveness.Capability.Enumeration

/-!
# Programs

A program is the structural input of the analysis: functions with their
control-flow graphs, the targets of their calls, and the capabilities that each
block exercises. Functions and blocks are numbered; number `i` stands for the
`i`-th entry of the program's list.

The type admits programs that are not well formed: an id may point nowhere, a
block may be listed by two functions, a kind may be a number that means nothing.
Which programs are well formed is decided in `CapLiveness.Program.Validation`,
and the look-ups here are total: an id that points nowhere has no function or
block, but it still has a printable name.
-/

set_option autoImplicit false

namespace CapLiveness

/-! ## Ids -/

/-- The number of a function. Two negative numbers stand for code outside the
program. -/
abbrev FunctionId := Int

/-- The number of a block. -/
abbrev BlockId := Int

namespace FunctionId

/-- Code outside the program that is called from inside it. -/
def callsExternal : FunctionId := -1

/-- Callers outside the program, such as a runtime that invokes a callback. -/
def callingExternal : FunctionId := -2

/-- Whether the id stands for code outside the program. -/
def isSentinel (f : FunctionId) : Bool := f == callsExternal || f == callingExternal

/-- The id as text. -/
def text (f : FunctionId) : String :=
  if f = callsExternal then "<calls-external>"
  else if f = callingExternal then "<calling-external>"
  else s!"f{f}"

end FunctionId

namespace BlockId

/-- The id that stands for the absence of a block. -/
def absent : BlockId := -1

/-- The id as text. -/
def text (b : BlockId) : String := s!"b{b}"

end BlockId

/-! ## Blocks -/

/-- What a block does. A raise of privileges or a call is alone in its block. -/
inductive BlockKind where
  | plain
  | raise
  | call
  /-- A number that names no kind. -/
  | unknown (code : Int)
deriving DecidableEq

/-- The kind with a given number. -/
def BlockKind.ofCode : Int → BlockKind
  | 0 => .plain
  | 1 => .raise
  | 2 => .call
  | code => .unknown code

/-- The kind as text. -/
def BlockKind.text : BlockKind → String
  | .plain => "plain"
  | .raise => "raise"
  | .call => "call"
  | .unknown code => s!"BlockKind({code})"

/-- How control leaves a block without successors. -/
inductive ExitKind where
  /-- The block continues to its successors. -/
  | none
  /-- Back to the caller. -/
  | return
  /-- Execution ends, as after a call to abort. -/
  | unreachable
  /-- Out of the function by unwinding. -/
  | unwind
  /-- A number that names no kind. -/
  | unknown (code : Int)
deriving DecidableEq

/-- The exit kind with a given number. -/
def ExitKind.ofCode : Int → ExitKind
  | 0 => .none
  | 1 => .return
  | 2 => .unreachable
  | 3 => .unwind
  | code => .unknown code

/-- The exit kind as text. -/
def ExitKind.text : ExitKind → String
  | .none => "none"
  | .return => "return"
  | .unreachable => "unreachable"
  | .unwind => "unwind"
  | .unknown code => s!"ExitKind({code})"

/-- The callee of a call. -/
inductive CallTarget where
  /-- A known function. -/
  | direct (callee : FunctionId)
  /-- An indirect call resolved to candidates; an incomplete resolution may miss
  some. -/
  | resolved (candidates : List FunctionId) (complete : Bool)
  /-- An indirect call with unknown callees. -/
  | unresolved
  /-- A number that names no kind of call. -/
  | unknown (code : Int)
deriving DecidableEq

namespace CallTarget

/-- The text of a kind of call, by its number. -/
def kindText : Int → String
  | 0 => "direct"
  | 1 => "resolved"
  | 2 => "unresolved"
  | code => s!"CallKind({code})"

/-- The number of the kind of a call. -/
def kindCode : CallTarget → Int
  | direct _ => 0
  | resolved _ _ => 1
  | unresolved => 2
  | unknown code => code

/-- The functions of the program that the call may reach. -/
def targets : CallTarget → List FunctionId
  | direct callee => [callee]
  | resolved candidates _ => candidates
  | unresolved | unknown _ => []

/-- Whether the call may reach code outside its known targets: it is unresolved,
or its resolution is incomplete. -/
def reachesExternal : CallTarget → Bool
  | unresolved => true
  | resolved _ complete => !complete
  | direct _ | unknown _ => false

end CallTarget

/-- An argument of a privilege raise, or an entry of a block's table of uses. -/
inductive Argument where
  /-- A compile-time constant. -/
  | constant (value : Int)
  /-- A value known only at run time. -/
  | variable
deriving DecidableEq

/-- A node of a function's control-flow graph. -/
structure Block where
  id : BlockId
  function : FunctionId
  /-- Used in messages only. -/
  name : String := ""
  successors : List BlockId := []
  kind : BlockKind := .plain
  /-- The arguments of a privilege raise. -/
  raised : List Argument := []
  /-- The callee of a call. -/
  target : CallTarget := .direct 0
  /-- The capabilities that the block exercises beyond a raise. -/
  uses : List Argument := []
  exit : ExitKind := .none
  /-- The number of instructions, if known: a signed 64-bit number. -/
  size : Int := 0
deriving DecidableEq

/-! ## Functions and programs -/

/-- A function. One without blocks is a declaration, for instance of a foreign
function. -/
structure Function where
  id : FunctionId
  name : String := ""
  blocks : List BlockId := []
  /-- The block that returns, or `BlockId.absent` when the function never returns. -/
  exit : BlockId := BlockId.absent
  /-- Whether the function may be called from outside the program. -/
  addressTaken : Bool := false
deriving DecidableEq

/-- Whether the function has no body. -/
def Function.isDeclaration (f : Function) : Bool := f.blocks.isEmpty

/-- The first block of the function, or `BlockId.absent` for a declaration. -/
def Function.entryBlock (f : Function) : BlockId := f.blocks.headD BlockId.absent

/-- The structural input of an analysis. -/
structure Program where
  capabilities : Option Enumeration
  functions : Array Function := #[]
  blocks : Array Block := #[]
  /-- The function where execution starts. -/
  entry : FunctionId
  /-- The symbol of the primitive that raises privileges; empty stands for the
  default one. -/
  raisePrimitive : String := ""
  /-- The external symbols to which the program refers. -/
  declared : List String := []
deriving DecidableEq

/-- The symbol of the primitive that raises privileges, unless a program names
another. -/
def defaultRaisePrimitive : String := "priv_raise"

/-- The entry of a list at a number, which may be negative or too large. -/
def entryAt? {α : Type} (entries : Array α) (index : Int) : Option α :=
  match index with
  | .ofNat i => entries[i]?
  | .negSucc _ => none

/-- The numbers with an entry are those from zero to the size. -/
theorem isSome_entryAt? {α : Type} (entries : Array α) (index : Int) :
    (entryAt? entries index).isSome = (decide (0 ≤ index) && decide (index < entries.size)) := by
  cases index with
  | ofNat i => by_cases h : i < entries.size <;> simp [entryAt?, h]
  | negSucc i => simp [entryAt?]

namespace Program

/-- The function with the given id, if there is one. -/
def function? (p : Program) (f : FunctionId) : Option Function := entryAt? p.functions f

/-- The block with the given id, if there is one. -/
def block? (p : Program) (b : BlockId) : Option Block := entryAt? p.blocks b

/-- Whether the id is that of a function. -/
def hasFunction (p : Program) (f : FunctionId) : Bool :=
  decide (0 ≤ f) && decide (f < p.functions.size)

/-- Whether the id is that of a block. -/
def hasBlock (p : Program) (b : BlockId) : Bool :=
  decide (0 ≤ b) && decide (b < p.blocks.size)

/-- A printable name for any function id. -/
def functionName (p : Program) (f : FunctionId) : String :=
  match p.function? f with
  | some function => if function.name = "" then f.text else function.name
  | none => f.text

/-- A printable name for any block id: the name of the function and that of the
block, or the number alone when there is no such block. -/
def blockName (p : Program) (b : BlockId) : String :=
  match p.block? b with
  | some block =>
    p.functionName block.function ++ "." ++ (if block.name = "" then b.text else block.name)
  | none => b.text

/-- The first function with the given name. -/
def functionByName? (p : Program) (name : String) : Option Nat :=
  p.functions.toList.findIdx? (·.name == name)

/-- The symbol of the primitive that raises privileges. -/
def primitive (p : Program) : String :=
  if p.raisePrimitive = "" then defaultRaisePrimitive else p.raisePrimitive

/-- Whether the program refers to the primitive that raises privileges: a block
raises, or the primitive is a declared symbol or a function. -/
def hasRaisePrimitive (p : Program) : Bool :=
  p.blocks.toList.any (·.kind == .raise) || p.declared.contains p.primitive ||
    (p.functionByName? p.primitive).isSome

/-- The program with the function of an id changed, if there is one. -/
def changeFunction? (p : Program) (f : FunctionId) (change : Function → Function) :
    Option Program :=
  if p.hasFunction f then some { p with functions := p.functions.modify f.toNat change } else none

/-- The program with the block of an id changed, if there is one. -/
def changeBlock? (p : Program) (b : BlockId) (change : Block → Block) : Option Program :=
  if p.hasBlock b then some { p with blocks := p.blocks.modify b.toNat change } else none

/-- An id is that of a block exactly when it finds one. -/
theorem isSome_block? (p : Program) (b : BlockId) : (p.block? b).isSome = p.hasBlock b :=
  isSome_entryAt? p.blocks b

/-- An id is that of a function exactly when it finds one. -/
theorem isSome_function? (p : Program) (f : FunctionId) :
    (p.function? f).isSome = p.hasFunction f :=
  isSome_entryAt? p.functions f

end Program

end CapLiveness
