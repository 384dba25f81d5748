import CapLiveness.Program.Validation

/-!
# Building programs step by step

A builder holds the program built so far. Functions and blocks are added in
order and numbered as they come; the first block added to a function is its
entry block. The first function named `main` becomes the entry function, unless
one is chosen.

A step that is given an id which points nowhere fails. What it changed before it
met the id stays changed: a block added to a function that does not exist is in
the program's list of blocks, and in no function's list. Every step that can
fail is therefore an `Attempt`: the builder afterwards, with the result if there
is one.
-/

set_option autoImplicit false

namespace CapLiveness

/-- A program under construction. -/
structure Builder where
  program : Program
  /-- Whether the entry function has been chosen. -/
  entryChosen : Bool := false

namespace Builder

/-- A builder after a step, with the result of the step unless it failed. -/
abbrev Attempt (α : Type) := Builder × Option α

/-- The empty program over the given capabilities. -/
def new (capabilities : Option Enumeration) : Builder :=
  { program := { capabilities := capabilities, entry := -1 } }

/-! ## Changing entries -/

/-- The builder of a changed program; a failure leaves the program as it was. -/
def changed (b : Builder) (program : Option Program) : Attempt Unit :=
  match program with
  | some program => ({ b with program := program }, some ())
  | none => (b, none)

/-- Changes the function with the given id. -/
def changeFunction (b : Builder) (f : FunctionId) (change : Function → Function) :
    Attempt Unit :=
  b.changed (b.program.changeFunction? f change)

/-- Changes the block with the given id. -/
def changeBlock (b : Builder) (block : BlockId) (change : Block → Block) : Attempt Unit :=
  b.changed (b.program.changeBlock? block change)

/-- Goes on with the next step unless the one before it failed. -/
def andThen {α β : Type} (attempt : Attempt α) (next : α → Builder → Attempt β) : Attempt β :=
  match attempt with
  | (b, some result) => next result b
  | (b, none) => (b, none)

/-! ## Functions and symbols -/

/-- Adds a function. -/
def addFunction (b : Builder) (name : String) : FunctionId × Builder :=
  let id : FunctionId := Int.ofNat b.program.functions.size
  let chosen := !b.entryChosen && name == "main"
  (id, {
    program := { b.program with
      functions := b.program.functions.push { id := id, name := name }
      entry := if chosen then id else b.program.entry }
    entryChosen := b.entryChosen || chosen })

/-- Chooses the entry function. -/
def chooseEntry (b : Builder) (f : FunctionId) : Builder :=
  { program := { b.program with entry := f }, entryChosen := true }

/-- Marks a function as callable from outside the program. -/
def takeAddress (b : Builder) (f : FunctionId) : Attempt Unit :=
  b.changeFunction f fun function => { function with addressTaken := true }

/-- Records an external symbol to which the program refers, once. -/
def declareSymbol (b : Builder) (symbol : String) : Builder :=
  if b.program.declared.contains symbol then b
  else { b with program := { b.program with declared := b.program.declared ++ [symbol] } }

/-- Names the primitive that raises privileges. -/
def nameRaisePrimitive (b : Builder) (symbol : String) : Builder :=
  { b with program := { b.program with raisePrimitive := symbol } }

/-! ## Blocks -/

/-- Adds a block to the end of the program's list, and then to that of its
function. -/
def addBlock (b : Builder) (f : FunctionId) (name : String) (kind : BlockKind) :
    Attempt BlockId :=
  let id : BlockId := Int.ofNat b.program.blocks.size
  let pushed := { b with program := { b.program with
    blocks := b.program.blocks.push { id := id, function := f, name := name, kind := kind } } }
  andThen
    (pushed.changeFunction f fun function => { function with blocks := function.blocks ++ [id] })
    fun _ b => (b, some id)

/-- Adds a block that neither raises nor calls. -/
def addPlain (b : Builder) (f : FunctionId) (name : String) : Attempt BlockId :=
  b.addBlock f name .plain

/-- Adds a block that raises privileges, and declares the primitive. -/
def addRaise (b : Builder) (f : FunctionId) (name : String) (arguments : List Argument) :
    Attempt BlockId :=
  andThen (b.addBlock f name .raise) fun id b =>
    andThen (b.changeBlock id fun block => { block with raised := arguments }) fun _ b =>
      (b.declareSymbol b.program.primitive, some id)

/-- Adds a block that calls. -/
def addCall (b : Builder) (f : FunctionId) (name : String) (target : CallTarget) :
    Attempt BlockId :=
  andThen (b.addBlock f name .call) fun id b =>
    andThen (b.changeBlock id fun block => { block with target := target }) fun _ b =>
      (b, some id)

/-- Adds entries to a block's table of uses. -/
def addUses (b : Builder) (block : BlockId) (arguments : List Argument) : Attempt Unit :=
  b.changeBlock block fun entry => { entry with uses := entry.uses ++ arguments }

/-- Sets the number of instructions of a block. -/
def setSize (b : Builder) (block : BlockId) (size : Int) : Attempt Unit :=
  b.changeBlock block fun entry => { entry with size := size }

/-- Adds edges from a block to each of the given blocks, in order. -/
def addEdges (b : Builder) (block : BlockId) (successors : List BlockId) : Attempt Unit :=
  b.changeBlock block fun entry => { entry with successors := entry.successors ++ successors }

/-- Adds an edge between each two consecutive blocks. -/
def addChain (b : Builder) : List BlockId → Attempt Unit
  | first :: second :: rest =>
    andThen (b.addEdges first [second]) fun _ b => b.addChain (second :: rest)
  | _ => (b, some ())

/-- Sets the exit kind of a block. -/
def setExit (b : Builder) (block : BlockId) (exit : ExitKind) : Attempt Unit :=
  b.changeBlock block fun entry => { entry with exit := exit }

/-- Makes a block the canonical exit of its function. -/
def markReturn (b : Builder) (block : BlockId) : Attempt Unit :=
  andThen (b.setExit block .return) fun _ b =>
    match b.program.block? block with
    | some entry => b.changeFunction entry.function fun f => { f with exit := block }
    | none => (b, none)

/-- Marks a block as ending execution. -/
def markUnreachable (b : Builder) (block : BlockId) : Attempt Unit :=
  b.setExit block .unreachable

/-- Marks a block as leaving its function by unwinding. -/
def markUnwind (b : Builder) (block : BlockId) : Attempt Unit :=
  b.setExit block .unwind

/-! ## The program -/

/-- The program built so far, not validated. Its entry is the first function when
none was chosen. -/
def current (b : Builder) : Program :=
  if b.program.entry < 0 ∧ 0 < b.program.functions.size then { b.program with entry := 0 }
  else b.program

/-- The program built so far, if it is fit for the analysis. -/
def build (b : Builder) : Except Problem Program :=
  match b.current.validate with
  | none => .ok b.current
  | some problem => .error problem

end Builder

end CapLiveness
