import CapLiveness.Analysis.Result
import CapLiveness.Text.Columns

/-!
# Listing of a result

The sets of every function and block, and the drop sets, as tables for people to
read. A listing may use colours: headings are bold, and the entry drop is red.
-/

set_option autoImplicit false

namespace CapLiveness

/-- How some parts of a listing are marked. -/
structure Marking where
  bold : String → String
  red : String → String

namespace Marking

/-- No marks. -/
def plain : Marking := ⟨id, id⟩

/-- Marks of a colour terminal. -/
def coloured : Marking :=
  ⟨fun text => "\x1b[1m" ++ text ++ "\x1b[22m", fun text => "\x1b[31m" ++ text ++ "\x1b[0m"⟩

end Marking

/-- The label of a block: its name, or its id. -/
def Block.label (b : Block) : String := if b.name = "" then BlockId.text b.id else b.name

/-- A set by the names of its kinds. -/
def Enumeration.listed (e : Enumeration) (s : CapSet) : String :=
  if s.isEmpty then "-" else e.format s

namespace Result

/-- A set by the names of its kinds. -/
def listed (r : Result) (s : Option CapSet) : String :=
  r.program.enumeration.listed (s.getD ∅)

/-- The heading of a function. -/
def functionHeading (r : Result) (f : Function) : String :=
  "== function " ++ f.name ++
    if f.isDeclaration then " (declaration)"
    else if r.isOpaque? f.id = some true then " (opaque)"
    else ""

/-- The row of a block. -/
def blockRow (r : Result) (b : Block) : String :=
  "\t".intercalate [b.label, b.kind.text, r.listed (r.liveIn? b.id), r.listed (r.liveOut? b.id),
    r.listed (r.dropEnd.get b.id), r.listed (r.dropStart.get b.id)]

/-- The lines of a function. -/
def functionLines (r : Result) (marking : Marking) (f : Function) : List String :=
  [marking.bold (r.functionHeading f),
    "required in:  " ++ r.listed (r.requiredIn? f.id),
    "required out: " ++ r.listed (r.requiredOut? f.id),
    "return live:  " ++ r.listed (r.returnLive? f.id)] ++
    if f.isDeclaration then []
    else
      "block\tkind\tin\tout\tdrop end\tdrop start" ::
        (f.blocks.filterMap r.program.block?).map r.blockRow

/-- The lines of code outside the program. -/
def sentinelLines (r : Result) (marking : Marking) (f : FunctionId) : List String :=
  [marking.bold ("== " ++ FunctionId.text f),
    "required in:  " ++ r.listed (r.requiredIn? f),
    "return live:  " ++ r.listed (r.returnLive? f)]

/-- The lines of the diagnostics, if there are any. -/
def diagnosticLines (r : Result) (marking : Marking) : List String :=
  if r.diagnostics.isEmpty then []
  else marking.bold "== diagnostics" :: r.diagnostics.map Problem.message

/-- The lines of a listing before layout. -/
def listingLines (r : Result) (marking : Marking) : List String :=
  if r.skipped then ["skipped: " ++ r.program.primitive ++ " is not referenced"]
  else
    ["entry drop: " ++ marking.red (r.listed (some r.entryDrop))] ++
      r.program.functions.toList.flatMap (r.functionLines marking) ++
      r.sentinelLines marking FunctionId.callsExternal ++
      r.sentinelLines marking FunctionId.callingExternal ++
      r.diagnosticLines marking

/-- The listing of a result. -/
def listing (r : Result) (marking : Marking) : String :=
  Text.Columns.layout (String.join ((r.listingLines marking).map (· ++ "\n")))

end Result

end CapLiveness
