import CapLiveness.Analysis.Exposure
import CapLiveness.Analysis.Listing
import CapLiveness.Text.Double
import CapLiveness.Text.Json

/-!
# Reports of the command line

The reports of an analysis as text for people and as JSON values for programs, and
the lines of its log.
-/

set_option autoImplicit false

namespace CapLiveness.Command

open CapLiveness.Text

/-! ## Drop sets -/

/-- The drop sets of a block, not both empty. -/
structure DropRow where
  block : BlockId
  start : CapSet
  finish : CapSet
deriving DecidableEq

/-- The blocks with a drop set, in order. -/
def dropRows (r : Result) : List DropRow :=
  (List.range r.program.blocks.size).filterMap fun b =>
    let row : DropRow := ⟨Int.ofNat b, r.dropStart.get (Int.ofNat b), r.dropEnd.get (Int.ofNat b)⟩
    if row.start.isEmpty && row.finish.isEmpty then none else some row

/-! ## JSON values -/

/-- The names of the members of a set. -/
def namesJson (e : Enumeration) (s : CapSet) : Json := .array ((e.namesOf s).map .text)

/-- A member of an object, left out when a condition fails. -/
def memberIf (present : Bool) (key : String) (value : Json) : List (String × Json) :=
  if present then [(key, value)] else []

/-- A row of drop sets. -/
def dropRowJson (r : Result) (row : DropRow) : Json :=
  .object ([("block", Json.text (r.program.blockName row.block))] ++
    memberIf (!row.start.isEmpty) "start" (namesJson r.program.enumeration row.start) ++
    memberIf (!row.finish.isEmpty) "end" (namesJson r.program.enumeration row.finish))

/-- A count. -/
def countJson (n : Nat) : Json := .number (Int.ofNat n)

/-- The counts of a run. -/
def statsJson (s : Stats) : Json :=
  .object [("Functions", countJson s.functions), ("Blocks", countJson s.blocks),
    ("Visits", countJson s.visits), ("Updates", countJson s.updates),
    ("IndirectCalls", countJson s.indirectCalls), ("CompleteCalls", countJson s.completeCalls),
    ("ExternalCalls", countJson s.externalCalls), ("Opaque", countJson s.opaqueFunctions)]

/-- An entry of the exposure report. -/
def exposureJson (r : Result) (e : Exposure) : Json :=
  .object [("live", namesJson r.program.enumeration e.set), ("blocks", countJson e.blocks),
    ("instructions", .number e.instructions)]

/-- The exposure report, if it is wanted and there is something to report. -/
def wantedExposure (r : Result) (exposure : Bool) : List Exposure :=
  if exposure && !r.skipped then r.exposure else []

/-- The report of an analysis. -/
def analysisJson (r : Result) (exposure : Bool) : Json :=
  let exposed := wantedExposure r exposure
  .object (memberIf r.skipped "skipped" (.bool true) ++
    [("entry_drop", namesJson r.program.enumeration r.entryDrop),
      ("drops", .array ((dropRows r).map (dropRowJson r))), ("stats", statsJson r.stats)] ++
    memberIf (!r.diagnostics.isEmpty) "diagnostics"
      (.array (r.diagnostics.map fun problem => .text problem.message)) ++
    memberIf (!exposed.isEmpty) "exposure" (.array (exposed.map (exposureJson r))))

/-- A successful response with what it is about, and the id of the run if there was
one. -/
def successJson (data : Json) (runId : Option String) : Json :=
  .object ([("status", Json.text "ok"), ("data", data)] ++
    match runId with
    | some id => [("run_id", .text id)]
    | none => [])

/-- A response about a failure. -/
def failureJson (code message : String) : Json :=
  .object [("status", .text "error"),
    ("error", .object [("code", .text code), ("message", .text message)])]

/-! ## Text -/

/-- The row of a block with drop sets. -/
def dropRowText (r : Result) (row : DropRow) : String :=
  "\t".intercalate [r.program.blockName row.block, r.program.enumeration.listed row.start,
    r.program.enumeration.listed row.finish]

/-- The row of an entry of the exposure report. -/
def exposureText (r : Result) (e : Exposure) : String :=
  "\t".intercalate [toString e.instructions, toString e.blocks,
    r.program.enumeration.listed e.set]

/-- Rows under a heading, if there are any. -/
def underHeading (heading : String) (rows : List String) : List String :=
  if rows.isEmpty then [] else heading :: rows

/-- The report of an analysis as text. -/
def analysisText (r : Result) (exposure : Bool) : String :=
  if r.skipped then s!"skipped: {r.program.primitive} is not referenced\n"
  else
    let lines := ["entry drop: " ++ r.program.enumeration.listed r.entryDrop] ++
      underHeading "block\tdrop start\tdrop end" ((dropRows r).map (dropRowText r)) ++
      underHeading "instructions\tblocks\tlive"
        ((wantedExposure r exposure).map (exposureText r)) ++
      r.diagnostics.map fun problem => "diagnostic: " ++ problem.message
    Columns.layout (String.join (lines.map (· ++ "\n")))

/-- The capabilities of a set, with their kinds. -/
def capabilitiesJson (e : Enumeration) (s : CapSet) : Json :=
  .array (s.kinds.map fun kind =>
    .object [("kind", countJson kind), ("name", .text (e.name (Int.ofNat kind)))])

/-- The capabilities of a set as a table. -/
def capabilitiesText (e : Enumeration) (s : CapSet) : String :=
  Columns.layout (String.join (s.kinds.map fun kind =>
    s!"{kind}\t{e.name (Int.ofNat kind)}\n"))

/-! ## Log lines -/

/-- Whether a text in a log line needs quotes because of a character. -/
def needsQuotes (c : Char) : Bool :=
  if c.toNat < 0x80 then c.toNat ≤ 0x20 || c == '"' || c == '='
  else c.toNat == 0xfffd || isBlank c || !Printable.isPrintable c

/-- A text in a log line. -/
def logText (text : String) : String :=
  if text = "" ∨ text.any needsQuotes then quoted text else text

/-- A value in a log line. -/
def logValueText : LogValue → String
  | .text value => logText value
  | .count n => toString n
  | .ratio part whole => (Double.ofRatio part whole).text

/-- The line of a log record. -/
def logLine (record : LogRecord) : String :=
  " ".intercalate (["level=" ++ record.level.text, "msg=" ++ logText record.message] ++
    record.values.map fun value => value.1 ++ "=" ++ logValueText value.2) ++ "\n"

/-- The lines of the records that are shown: all of them, or only warnings. -/
def logText? (verbose : Bool) (records : List LogRecord) : String :=
  String.join ((records.filter fun record => verbose || record.level == .warn).map logLine)

end CapLiveness.Command
