import CapLiveness.Analysis.Drops
import CapLiveness.Analysis.Fixpoint
import CapLiveness.Analysis.Log
import CapLiveness.Program.Validation

/-!
# The analysis and its result

`Program.analyze` checks a program, extracts what each block uses itself, solves
the equations, and derives the drop sets. Its outcome is a problem or a result;
either way it comes with the log records of the run, in order.

A result keeps the program, the graph and the local uses it was computed from, so
that it can be checked again later.
-/

set_option autoImplicit false

namespace CapLiveness

/-- The work done by a run. -/
structure Stats where
  functions : Nat
  blocks : Nat
  /-- How many entities were visited. -/
  visits : Nat
  /-- How often a set grew. -/
  updates : Nat
  indirectCalls : Nat
  /-- How many indirect calls have a complete resolution. -/
  completeCalls : Nat
  /-- How many call sites may reach code outside their known targets. -/
  externalCalls : Nat
  /-- How many functions were given up on after structural errors. -/
  opaqueFunctions : Nat
deriving DecidableEq

/-- The outcome of an analysis. -/
structure Result where
  setting : Setting
  tables : Tables
  /-- Whether there was nothing to analyze, so that every set is empty. -/
  skipped : Bool
  dropEnd : Drops
  dropStart : Drops
  entryDrop : CapSet
  diagnostics : List Problem
  stats : Stats
  trace : List Update

/-- A problem or a result, with the log records of the run. -/
structure Report where
  log : List LogRecord
  outcome : Except Problem Result

namespace Result

/-- The program as it is now. -/
def program (r : Result) : Program := r.setting.program

/-- The same result about an edited program. Nothing is computed again. -/
def withProgram (r : Result) (change : Program → Program) : Result :=
  { r with setting := { r.setting with program := change r.setting.program } }

/-- The slot of a function id, if it has one. -/
def slot? (r : Result) (f : FunctionId) : Option Nat := slotOf? r.setting.graph.functionCount f

/-- Everything a function and its callees may need. -/
def requiredIn? (r : Result) (f : FunctionId) : Option CapSet :=
  (r.slot? f).map fun slot => r.tables.get ⟨.requiredIn, slot⟩

/-- The part of it that the callees contribute. -/
def requiredOut? (r : Result) (f : FunctionId) : Option CapSet :=
  (r.slot? f).map fun slot => r.tables.get ⟨.requiredOut, slot⟩

/-- What the callers of a function may need after it returns. -/
def returnLive? (r : Result) (f : FunctionId) : Option CapSet :=
  (r.slot? f).map fun slot => r.tables.get ⟨.returnLive, slot⟩

/-- Whether a function was given up on after structural errors. -/
def isOpaque? (r : Result) (f : FunctionId) : Option Bool :=
  (r.slot? f).map r.setting.uses.isOpaque

/-- What is live on entry to a block. -/
def liveIn? (r : Result) (b : BlockId) : Option CapSet := entryAt? r.tables.liveIn b

/-- What is live on exit from a block. -/
def liveOut? (r : Result) (b : BlockId) : Option CapSet := entryAt? r.tables.liveOut b

/-- What a block uses itself. -/
def localUses? (r : Result) (b : BlockId) : Option CapSet := entryAt? r.setting.uses.ofBlock b

/-- The diagnostics as one problem, if there are any. -/
def problem? (r : Result) : Option Problem := Problem.ofCauses r.diagnostics

end Result

namespace Setting

/-- The counts of a run. -/
def stats (s : Setting) (visits updates : Nat) : Stats :=
  { functions := s.program.functions.size
    blocks := s.program.blocks.size
    visits := visits
    updates := updates
    indirectCalls := s.graph.indirect
    completeCalls := s.graph.complete
    externalCalls := (s.graph.callersOf s.graph.callsExternal).length
    opaqueFunctions := s.uses.opaqueCount }

/-- The result without any set. -/
def skippedResult (s : Setting) : Result :=
  { setting := s
    tables := Tables.empty s.graph.slotCount s.program.blocks.size
    skipped := true
    dropEnd := ∅
    dropStart := ∅
    entryDrop := ∅
    diagnostics := []
    stats := s.stats 0 0
    trace := [] }

/-- The result of solved equations. -/
def resultOf {σ : Type} (s : Setting) (solved : Progress σ) : Result :=
  { setting := s
    tables := solved.tables
    skipped := false
    dropEnd := s.dropsAtEnd solved.tables
    dropStart := s.dropsAtStart solved.tables
    entryDrop := s.dropAtEntry solved.tables
    diagnostics := s.uses.diagnostics
    stats := s.stats solved.visits solved.updates
    trace := solved.trace.toList }

/-! ## Log records of a run -/

/-- The record for a run with nothing to analyze. -/
def skippedRecord (s : Setting) : LogRecord :=
  ⟨.info, "privilege-raise primitive not referenced, nothing to analyze",
    [("primitive", .text s.program.primitive)]⟩

/-- The record before extraction. -/
def extractionRecord (s : Setting) : LogRecord :=
  ⟨.debug, "extracting local capability uses",
    [("functions", .count s.program.functions.size), ("blocks", .count s.program.blocks.size)]⟩

/-- The records of the functions that became opaque. -/
def opaqueRecords (s : Setting) : List LogRecord :=
  s.uses.findings.map fun finding =>
    ⟨.warn, "function made opaque after structural errors",
      [("function", .text finding.1.name), ("errors", .count finding.2.length)]⟩

/-- The record about indirect calls, if there are any. -/
def indirectRecords (s : Setting) : List LogRecord :=
  if s.graph.indirect = 0 then []
  else
    [⟨.debug, "indirect call resolution",
      [("indirect", .count s.graph.indirect), ("complete", .count s.graph.complete),
        ("ratio", .ratio s.graph.complete s.graph.indirect)]⟩]

/-- The record about call sites with unknown targets, if there are any. -/
def externalRecords (s : Setting) : List LogRecord :=
  let sites := (s.graph.callersOf s.graph.callsExternal).length
  if sites = 0 then []
  else
    [⟨.warn, "call sites with unknown targets use conservative requirements",
      [("sites", .count sites)]⟩]

/-- The record of a finished run. -/
def finishedRecord (result : Result) : LogRecord :=
  ⟨.info, "analysis converged",
    [("visits", .count result.stats.visits), ("updates", .count result.stats.updates),
      ("drop_end", .count result.dropEnd.size), ("drop_start", .count result.dropStart.size),
      ("entry_drop", .count result.entryDrop.count)]⟩

end Setting

/-! ## The analysis -/

namespace Program

/-- The setting in which nothing has been extracted. -/
def bareSetting (p : Program) : Setting :=
  let graph := Graph.ofProgram p
  ⟨p, graph, Uses.none graph.slotCount p.blocks.size⟩

/-- Analyzes a program that passes validation and refers to the raise primitive,
with any source of choices. -/
def analyzeUses {σ : Type} (source : Source σ) (choices : σ) (config : Config) (s : Setting) :
    Report :=
  match Uses.extract config.strictness s.program with
  | .error problem => ⟨[s.extractionRecord], .error problem⟩
  | .ok uses =>
    let s := { s with uses := uses }
    let result := s.resultOf (s.solve source config.order choices)
    ⟨s.extractionRecord :: s.opaqueRecords ++ s.indirectRecords ++ s.externalRecords ++
        [Setting.finishedRecord result],
      .ok result⟩

/-- Analyzes a program, with any source of choices. -/
def analyzeWith {σ : Type} (source : Source σ) (choices : σ) (config : Config) (p : Program) :
    Report :=
  match p.validate with
  | some cause =>
    ⟨[], .error (.analysis .invalidStructure ⟨"", ""⟩ "program fails validation" (some cause))⟩
  | none =>
    if p.hasRaisePrimitive then analyzeUses source choices config p.bareSetting
    else if config.missingRaise = .fail then
      ⟨[], .error (.analysis .missingRaise ⟨"", ""⟩
        ("program does not reference " ++ p.primitive) none)⟩
    else ⟨[p.bareSetting.skippedRecord], .ok p.bareSetting.skippedResult⟩

/-- Analyzes a program. A random order is drawn from the seed of the configuration. -/
def analyze (config : Config) (p : Program) : Report :=
  analyzeWith Generator.source (Generator.ofSeed config.seed) config p

end Program

end CapLiveness
