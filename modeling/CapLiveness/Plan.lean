import CapLiveness.Analysis.Result
import CapLiveness.Text.Columns
import CapLiveness.Text.Json

/-!
# Revocation plans

A plan lists the calls of the revocation primitive that an analysed program needs:
one at the start of the process for the entry drop, and one for each drop set at
the start or the end of a block. A plan may be restricted to some capabilities;
calls left with nothing to revoke are omitted.

The call at the start of the process comes first, then the others by block, the
start of a block before its end (`Insertion.compare`).
-/

set_option autoImplicit false

namespace CapLiveness

/-- Where in a block a call goes. -/
inductive Position where
  /-- The start of the first block of the entry function, before anything runs. -/
  | processStart
  /-- The start of a block, before its first instruction. -/
  | blockStart
  /-- The end of a block, just before control leaves it. -/
  | blockEnd
  | unknown (code : Int)
deriving DecidableEq

namespace Position

/-- The position with a given number. -/
def ofCode : Int → Position
  | 0 => .processStart
  | 1 => .blockStart
  | 2 => .blockEnd
  | code => .unknown code

/-- The number of a position. -/
def code : Position → Int
  | .processStart => 0
  | .blockStart => 1
  | .blockEnd => 2
  | .unknown code => code

/-- The word for a position. -/
def text : Position → String
  | .processStart => "process-start"
  | .blockStart => "block-start"
  | .blockEnd => "block-end"
  | .unknown code => s!"Position({code})"

end Position

/-- One revocation call. -/
structure Insertion where
  position : Position
  function : FunctionId
  block : BlockId
  /-- The capabilities to revoke. -/
  kinds : CapSet
deriving DecidableEq

namespace Insertion

/-- The arguments of the call: the number of kinds, then the kinds. -/
def arguments (i : Insertion) : List Nat := i.kinds.count :: i.kinds.kinds

/-- The call at the start of the process comes first, then calls by block, and the
calls of a block by position. -/
def compare (a b : Insertion) : Ordering :=
  let byPosition := Ord.compare a.position.code b.position.code
  let byBlock := (Ord.compare a.block b.block).then byPosition
  if a.position = .processStart ∨ b.position = .processStart then byPosition.then byBlock
  else byBlock

end Insertion

/-- The revocation calls for a program. -/
structure Plan where
  program : Program
  /-- The symbol of the revocation primitive. -/
  primitive : String
  insertions : List Insertion

/-- What a plan is to contain. -/
structure PlanOptions where
  primitive : String
  /-- The only capabilities to revoke, if they are restricted. -/
  only : Option CapSet

/-- The symbol of the revocation primitive when none is given. -/
def defaultRevocationPrimitive : String := "priv_remove"

namespace Plan

/-- A call that revokes the wanted part of a set, if there is any. -/
def insertion? (p : Program) (options : PlanOptions) (position : Position)
    (entry : BlockId × CapSet) : Option Insertion :=
  let kinds := match options.only with
    | some wanted => entry.2 ∩ wanted
    | none => entry.2
  if kinds.isEmpty then none
  else
    (p.block? entry.1).map fun block => ⟨position, block.function, entry.1, kinds⟩

/-- The first block of the entry function with the entry drop. -/
def entryDrops (r : Result) : List (BlockId × CapSet) :=
  match r.program.function? r.program.entry with
  | some f => f.blocks.head?.toList.map fun b => (b, r.entryDrop)
  | none => []

/-- The plan for a result. -/
def ofResult (r : Result) (options : PlanOptions) : Plan :=
  let calls := (entryDrops r).filterMap (insertion? r.program options .processStart) ++
    r.dropStart.entries.filterMap (insertion? r.program options .blockStart) ++
    r.dropEnd.entries.filterMap (insertion? r.program options .blockEnd)
  { program := r.program
    primitive := options.primitive
    insertions := calls.mergeSort fun a b => a.compare b != .gt }

/-- Whether an entry has nothing to revoke or belongs to a block of the program. -/
def hasPlace (p : Program) (options : PlanOptions) (entry : BlockId × CapSet) : Bool :=
  p.hasBlock entry.1 ||
    match options.only with
    | some wanted => (entry.2 ∩ wanted).isEmpty
    | none => entry.2.isEmpty

/-- Whether everything that a plan is to revoke belongs to a block of the program. -/
def isPlaceable (r : Result) (options : PlanOptions) : Bool :=
  (r.dropStart.entries ++ r.dropEnd.entries).all (hasPlace r.program options)

/-! ## Applying a plan -/

/-- Hands the calls to whoever inserts them, in order. The recipient is given the
number of the call, and says what is wrong with a call that it refuses; the first
refusal ends the work. The outcome is the accepted calls and the problem. -/
def applyFrom (p : Plan) (refusal : Nat → Insertion → Option String) :
    Nat → List Insertion → List Insertion × Option String
  | _, [] => ([], none)
  | number, i :: rest =>
    match refusal number i with
    | some cause =>
      ([], some (s!"inserting {p.primitive} at {i.position.text} of " ++
        s!"{p.program.blockName i.block}: {cause}"))
    | none =>
      let applied := applyFrom p refusal (number + 1) rest
      (i :: applied.1, applied.2)

/-- Hands every call of the plan to whoever inserts it, up to the first refusal. -/
def apply (p : Plan) (refusal : Nat → Insertion → Option String) :
    List Insertion × Option String :=
  p.applyFrom refusal 0 p.insertions

/-! ## Written plans -/

/-- The row of a call. -/
def row (p : Plan) (i : Insertion) : String :=
  "\t".intercalate [i.position.text, p.program.blockName i.block,
    p.primitive ++ "(" ++ ", ".intercalate (i.arguments.map toString) ++ ")",
    "# " ++ p.program.enumeration.format i.kinds] ++ "\n"

/-- The plan as a table of calls. -/
def text (p : Plan) : String := Text.Columns.layout (String.join (p.insertions.map p.row))

open Text in
/-- A call as a JSON value. -/
def insertionJson (p : Plan) (i : Insertion) : Json :=
  .object [("position", .text i.position.text),
    ("function", .text (p.program.functionName i.function)),
    ("block", .text (p.program.blockName i.block)),
    ("capabilities", .array ((p.program.enumeration.namesOf i.kinds).map .text)),
    ("args", .array (i.arguments.map fun n => .number (Int.ofNat n)))]

open Text in
/-- The plan as a JSON value. -/
def json (p : Plan) : Json :=
  .object [("primitive", .text p.primitive),
    ("insertions", .array (p.insertions.map p.insertionJson))]

end Plan

end CapLiveness
