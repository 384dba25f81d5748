import CapLiveness.Capability.Linux
import CapLiveness.Program.Validation
import CapLiveness.Text.Integer

/-!
# Descriptions of programs

A program as people write it: functions and blocks have names, and successors,
callees and the entry refer to these names. A description denotes a program
(`Description.program`) in which functions and blocks are numbered in the order in
which they are written.
-/

set_option autoImplicit false

namespace CapLiveness

/-- The capabilities of a description. -/
inductive CapabilityList where
  /-- A built-in enumeration, by its name. -/
  | builtIn (name : String)
  /-- The names of the capabilities. -/
  | listed (names : List String)
deriving DecidableEq

/-- An argument as it is written, and its line. -/
structure ArgumentText where
  text : String
  line : Nat
deriving DecidableEq

/-- A call as it is written. -/
structure CallDescription where
  /-- The function that is called directly, if the name is not empty. -/
  direct : String := ""
  candidates : List String := []
  complete : Bool := false
  unresolved : Bool := false
deriving DecidableEq

/-- A block as it is written. -/
structure BlockDescription where
  name : String := ""
  raised : List ArgumentText := []
  uses : List ArgumentText := []
  call : Option CallDescription := none
  successors : List String := []
  exit : String := ""
  size : Int := 0
deriving DecidableEq

/-- A function as it is written. -/
structure FunctionDescription where
  name : String := ""
  addressTaken : Bool := false
  blocks : List BlockDescription := []
deriving DecidableEq

/-- A program as it is written. -/
structure Description where
  capabilities : CapabilityList := .builtIn ""
  entry : String := ""
  raisePrimitive : String := ""
  declared : List String := []
  functions : List FunctionDescription := []
deriving DecidableEq

/-! ## Parts of the program -/

/-- The enumeration that a list of capabilities stands for. -/
def CapabilityList.enumeration : CapabilityList → Except Problem Enumeration
  | .listed names => (Enumeration.ofNames names).mapError fun e => .plain e.message
  | .builtIn name =>
    if name = "" ∨ name = Enumeration.linuxLabel then .ok Enumeration.linux
    else .error (.plain s!"unknown capability enumeration {Text.quoted name}")

/-- The first name that is empty or stands in the list before. -/
def firstBadName (seen : List String) : List String → Option String
  | [] => none
  | name :: rest =>
    if name = "" ∨ name ∈ seen then some name else firstBadName (name :: seen) rest

/-- The argument that a text stands for: a question mark for one that is not a
constant, a decimal number, or the name of a capability. -/
def ArgumentText.argument (caps : Enumeration) (a : ArgumentText) : Except Problem Argument :=
  if a.text = "?" then .ok .variable
  else
    match Text.Integer.parseSigned (.fixed 10) a.text.toList with
    | .ok value => .ok (.constant value)
    | .error _ =>
      match caps.lookup a.text with
      | some kind => .ok (.constant (Int.ofNat kind))
      | none => .error (.plain s!"line {a.line}: unknown capability {Text.quoted a.text}")

namespace Description

/-- The id of the function with a name. -/
def functionId? (d : Description) (name : String) : Option FunctionId :=
  (d.functions.findIdx? (·.name == name)).map Int.ofNat

/-- The id of a called function. -/
def callee (d : Description) (name : String) : Except Problem FunctionId :=
  match d.functionId? name with
  | some f => .ok f
  | none => .error (.plain s!"call to undefined function {Text.quoted name}")

/-- The target of a call. -/
def target (d : Description) (call : CallDescription) : Except Problem CallTarget :=
  if call.direct ≠ "" then (d.callee call.direct).map .direct
  else if call.unresolved then
    if call.candidates.isEmpty then .ok .unresolved
    else .error (.plain "unresolved call lists candidates")
  else (call.candidates.mapM d.callee).map fun candidates => .resolved candidates call.complete

/-- Names the block that a problem is in. -/
def inBlock {α : Type} (f : FunctionDescription) (b : BlockDescription)
    (outcome : Except Problem α) : Except Problem α :=
  outcome.mapError (.wrap s!"function {f.name}, block {b.name}")

/-- What a block does, with the arguments it raises and its call target. -/
def action (d : Description) (b : BlockDescription) (raised : List Argument) :
    Except Problem (BlockKind × CallTarget) :=
  match b.call with
  | some call =>
    if raised.isEmpty then (d.target call).map fun target => (.call, target)
    else .error (.plain "both raises and calls")
  | none => .ok (if raised.isEmpty then .plain else .raise, .direct 0)

/-- A block without its successors and its exit. -/
def blockBody (d : Description) (caps : Enumeration) (f : FunctionDescription) (id : BlockId)
    (function : FunctionId) (b : BlockDescription) : Except Problem Block := do
  let raised ← inBlock f b (b.raised.mapM (·.argument caps))
  let uses ← inBlock f b (b.uses.mapM (·.argument caps))
  let (kind, target) ← inBlock f b (d.action b raised)
  return { id := id, function := function, name := b.name, kind := kind, raised := raised
           target := target, uses := uses, size := b.size }

/-- The bodies of the blocks of a function, which are numbered from `first`. A bad
name is reported when its block is reached. -/
def blockBodies (d : Description) (caps : Enumeration) (f : FunctionDescription) (first : Nat)
    (function : FunctionId) (seen : List String) :
    List BlockDescription → Except Problem (List Block)
  | [] => .ok []
  | b :: rest => do
    if b.name = "" ∨ b.name ∈ seen then
      .error (.plain s!"function {f.name}: block name {Text.quoted b.name} is empty or repeated")
    else
      let body ← d.blockBody caps f (Int.ofNat (first + seen.length)) function b
      let others ← blockBodies d caps f first function (b.name :: seen) rest
      return body :: others

/-- The id of a successor of a block. -/
def successor (f : FunctionDescription) (first : Nat) (b : BlockDescription) (name : String) :
    Except Problem BlockId :=
  match f.blocks.findIdx? (·.name == name) with
  | some index => .ok (Int.ofNat (first + index))
  | none =>
    inBlock f b (.error (.plain s!"undefined successor {Text.quoted name}"))

/-- The exit that a word stands for. -/
def exitKind (f : FunctionDescription) (b : BlockDescription) : Except Problem ExitKind :=
  match b.exit with
  | "" => .ok .none
  | "return" => .ok .return
  | "unreachable" => .ok .unreachable
  | "unwind" => .ok .unwind
  | word => inBlock f b (.error (.plain s!"unknown exit kind {Text.quoted word}"))

/-- A block with its successors and its exit. -/
def finishBlock (f : FunctionDescription) (first : Nat) (entry : BlockDescription × Block) :
    Except Problem Block := do
  let successors ← entry.1.successors.mapM (successor f first entry.1)
  let exit ← exitKind f entry.1
  return { entry.2 with successors := successors, exit := exit }

/-- The blocks of a function, which are numbered from `first`. -/
def functionBlocks (d : Description) (caps : Enumeration) (first : Nat) (function : FunctionId)
    (f : FunctionDescription) : Except Problem (List Block) := do
  let bodies ← d.blockBodies caps f first function [] f.blocks
  (f.blocks.zip bodies).mapM (finishBlock f first)

/-- The blocks of several functions, the first of which has the given id and whose
blocks are numbered from `first`. -/
def allBlocks (d : Description) (caps : Enumeration) (first index : Nat) :
    List FunctionDescription → Except Problem (List Block)
  | [] => .ok []
  | f :: rest => do
    let blocks ← d.functionBlocks caps first (Int.ofNat index) f
    let others ← allBlocks d caps (first + f.blocks.length) (index + 1) rest
    return blocks ++ others

/-- The functions, given all blocks. The last block that returns is the exit block. -/
def functionEntries (blocks : List Block) (index first : Nat) :
    List FunctionDescription → List Function
  | [] => []
  | f :: rest =>
    let returning := blocks.filter fun b => b.function == Int.ofNat index && b.exit == .return
    { id := Int.ofNat index
      name := f.name
      blocks := (List.range f.blocks.length).map fun i => Int.ofNat (first + i)
      exit := (returning.getLast?.map (·.id)).getD BlockId.absent
      addressTaken := f.addressTaken } ::
      functionEntries blocks (index + 1) (first + f.blocks.length) rest

/-- The entry function: the named one or, without a name, the first function called
`main`, or else the first. -/
def entryId (d : Description) : Except Problem FunctionId :=
  if d.entry = "" then
    .ok (if d.functions.isEmpty then -1 else (d.functionId? "main").getD 0)
  else
    match d.functionId? d.entry with
    | some f => .ok f
    | none => .error (.plain s!"entry function {Text.quoted d.entry} is not defined")

/-- The declared symbols, each once. A program with a block that raises privileges
refers to the primitive. -/
def symbols (d : Description) (blocks : List Block) : List String :=
  let primitive := if d.raisePrimitive = "" then defaultRaisePrimitive else d.raisePrimitive
  let declared := d.declared.eraseDups
  if blocks.any (·.kind == .raise) && !declared.contains primitive then declared ++ [primitive]
  else declared

/-- The program that a description denotes, before it is validated. -/
def draft (d : Description) : Except Problem Program := do
  let caps ← d.capabilities.enumeration
  match firstBadName [] (d.functions.map (·.name)) with
  | some name => .error (.plain s!"function name {Text.quoted name} is empty or repeated")
  | none =>
    let entry ← d.entryId
    let blocks ← d.allBlocks caps 0 0 d.functions
    return { capabilities := some caps
             functions := (functionEntries blocks 0 0 d.functions).toArray
             blocks := blocks.toArray
             entry := entry
             raisePrimitive := d.raisePrimitive
             declared := d.symbols blocks }

/-- The program that a description denotes. -/
def program (d : Description) : Except Problem Program := do
  let p ← d.draft
  match p.validate with
  | some problem => .error problem
  | none => return p

end Description

end CapLiveness
