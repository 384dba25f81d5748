import CapLiveness.Analysis.Verification
import CapLiveness.Command.Choice
import CapLiveness.Command.Report
import CapLiveness.Plan
import CapLiveness.Program.Document

/-!
# The command line

A command line is read first (`Invocation.ofArguments`) and then run
(`Invocation.run`). Reading checks the flags, the number of arguments and the
output format, in this order. Running a command may need the text of a program,
which is found under the name that the invocation gives (`Invocation.source?`).

The outcome of a command is what it writes, the problem that it ends with, if any,
and its exit status.
-/

set_option autoImplicit false

namespace CapLiveness.Command

open CapLiveness.Text

/-- What a command line leads to. -/
structure Outcome where
  status : Nat
  problem : Option String
  output : String
  log : String
deriving DecidableEq

/-- The status of a command that fails. -/
def failureStatus : Nat := 1

/-- The status of a command with bad flags or an unreadable program. -/
def usageStatus : Nat := 2

/-! ## Failures of commands -/

/-- Why a command fails. -/
structure CommandFailure where
  status : Nat
  /-- The code in a JSON response. -/
  code : String
  message : String

namespace CommandFailure

/-- A bad flag or an unreadable program. -/
def usage (what cause : String) : CommandFailure :=
  ⟨usageStatus, "USAGE", what ++ ": " ++ cause⟩

/-- A failed analysis or verification. -/
def analysis (what : String) (cause : Problem) : CommandFailure :=
  ⟨failureStatus, (cause.code?.map ErrorCode.text).getD "FAILURE", what ++ ": " ++ cause.message⟩

end CommandFailure

/-! ## Invocations -/

/-- The flags of the commands that run the analysis. -/
structure AnalysisFlags where
  strict : String
  missingRaise : String
  order : String
  seed : UInt64
  verify : Bool
  raisePrimitive : String
  declared : List String
  /-- Where the program is: the name of a file, or a dash for the standard input. -/
  source : String

/-- What a command is to do. -/
inductive Job where
  | analyze (flags : AnalysisFlags) (exposure : Bool)
  | plan (flags : AnalysisFlags) (primitive : String) (only : Option String)
  | dump (flags : AnalysisFlags)
  | caps (list : String)

/-- A command line that has been read. -/
structure Invocation where
  verbose : Bool
  json : Bool
  job : Job

/-- The flags that every command has. -/
def commonFlags : List FlagSpec := [⟨"verbose", some 'v', .toggle⟩, ⟨"format", none, .text⟩]

/-- The flag that asks for help. -/
def helpFlag : FlagSpec := ⟨"help", some 'h', .toggle⟩

/-- The flags of the commands that run the analysis. -/
def analysisFlags : List FlagSpec :=
  [⟨"strict", none, .text⟩, ⟨"missing-raise", none, .text⟩, ⟨"order", none, .text⟩,
    ⟨"seed", none, .number⟩, ⟨"verify", none, .toggle⟩, ⟨"raise-primitive", none, .text⟩,
    ⟨"declare", none, .list⟩]

/-- The flags of a command. -/
def flagsOf (name : CommandName) : List FlagSpec :=
  helpFlag :: commonFlags ++
    match name with
    | .analyze => analysisFlags ++ [⟨"exposure", none, .toggle⟩]
    | .plan => analysisFlags ++ [⟨"only", none, .text⟩, ⟨"primitive", none, .text⟩]
    | .dump => analysisFlags
    | .caps => [⟨"list", none, .text⟩]
    | .help | .completion => []

/-- The values of the flags of an analysis. -/
def AnalysisFlags.of (values : FlagValues) (source : String) : AnalysisFlags :=
  { strict := values.text "strict" "run"
    missingRaise := values.text "missing-raise" "proceed"
    order := values.text "order" "fifo"
    seed := values.number "seed"
    verify := values.toggle "verify"
    raisePrimitive := values.text "raise-primitive" ""
    declared := values.list "declare"
    source := source }

/-- The job of a command that runs the analysis on one program. -/
def analysisJob (name : CommandName) (values : FlagValues) (source : String) : Job :=
  let flags := AnalysisFlags.of values source
  match name with
  | .plan =>
    .plan flags (values.text "primitive" defaultRevocationPrimitive)
      (if values.isGiven "only" then some (values.text "only" "") else none)
  | .dump => .dump flags
  | _ => .analyze flags (values.toggle "exposure")

/-- The job of a command, by the number of its arguments. -/
def jobOf (name : CommandName) (line : ParsedLine) : Except String Job :=
  match name, line.arguments with
  | .caps, [] => .ok (.caps (line.values.text "list" ""))
  | .caps, word :: _ =>
    let path := programName ++ " " ++ name.text
    .error s!"unknown command {quoted word} for {quoted path}"
  | _, [source] => .ok (analysisJob name line.values source)
  | _, arguments => .error s!"accepts 1 arg(s), received {arguments.length}"

/-- The outcome of a command line that asks for nothing that can be run: how to use
the program. -/
def helpOutcome : Outcome :=
  let commands := ", ".intercalate (CommandName.all.map (·.text))
  ⟨0, none, s!"usage: {programName} command [flags] [program]\ncommands: {commands}\n", ""⟩

/-- The outcome of a command line that is refused. -/
def refusal (status : Nat) (message : String) : Outcome := ⟨status, some message, "", ""⟩

namespace Invocation

/-- Reads the arguments of a command. -/
def ofCommand (name : CommandName) (arguments : List String) : Except Outcome Invocation :=
  match parseLine (flagsOf name) arguments ⟨[], []⟩ with
  | .error message => .error (refusal failureStatus message)
  | .ok line =>
    if line.values.toggle "help" then .error helpOutcome
    else
      match jobOf name line with
      | .error message => .error (refusal failureStatus message)
      | .ok job =>
        let format := line.values.text "format" "text"
        if format = "text" ∨ format = "json" then
          .ok ⟨line.values.toggle "verbose", format = "json", job⟩
        else
          .error (refusal usageStatus
            s!"invalid format {quoted format}: must be one of [text json]")

/-- The outcome of a command line without a command. -/
def withoutCommand (arguments : List String) : Outcome :=
  match parseLine (helpFlag :: commonFlags) arguments ⟨[], []⟩ with
  | .error message => { refusal failureStatus message with log := "Error: " ++ message ++ "\n" }
  | .ok _ => helpOutcome

/-- Reads a command line; what cannot be run has its outcome at once. -/
def ofArguments (arguments : List String) : Except Outcome Invocation :=
  match choose commonFlags arguments with
  | .none => .error (withoutCommand arguments)
  | .unknown word =>
    let message := unknownCommandText word
    .error { refusal failureStatus message with
      log := s!"Error: {message}\nRun '{programName} --help' for usage.\n" }
  | .command .help _ => .error helpOutcome
  | .command .completion _ => .error helpOutcome
  | .command name arguments => ofCommand name arguments

/-- Where the program of an invocation is, if it needs one. -/
def source? (invocation : Invocation) : Option String :=
  match invocation.job with
  | .analyze flags _ | .plan flags _ _ | .dump flags => some flags.source
  | .caps _ => none

end Invocation

/-! ## Running -/

/-- The name of the standard input as a source. -/
def standardInput : String := "-"

/-- Reads the program of a command. `text` is the text of its source, if the source
can be read. -/
def loadProgram (flags : AnalysisFlags) (text : Option String) : Except Problem Program := do
  let context := if flags.source = standardInput then "stdin" else flags.source
  match text with
  | none => .error (.plain s!"open {flags.source}: no such file or directory")
  | some text =>
    let p ← (Program.ofYaml text).mapError (.wrap context)
    let p := { p with
      raisePrimitive := if flags.raisePrimitive = "" then p.raisePrimitive else flags.raisePrimitive
      declared := p.declared ++ flags.declared }
    match p.validate with
    | some problem => .error (.wrap flags.source problem)
    | none => return p

/-- The configuration of an analysis. -/
def configOf (flags : AnalysisFlags) : Except CommandFailure Config := do
  let strictness ← (Strictness.parse flags.strict).mapError (.usage "invalid --strict")
  let missingRaise ←
    (MissingRaise.parse flags.missingRaise).mapError (.usage "invalid --missing-raise")
  let order ← (Order.parse flags.order).mapError (.usage "invalid --order")
  return ⟨strictness, missingRaise, order, flags.seed⟩

/-- Runs the analysis of a command. The log is there whether or not it succeeds. -/
def runAnalysis (flags : AnalysisFlags) (text : Option String) :
    List LogRecord × Except CommandFailure Result :=
  match configOf flags with
  | .error failure => ([], .error failure)
  | .ok config =>
    match loadProgram flags text with
    | .error problem => ([], .error (.usage "loading program" problem.message))
    | .ok p =>
      let report := p.analyze config
      (report.log,
        match report.outcome with
        | .error problem => .error (.analysis "analysis failed" problem)
        | .ok result =>
          match if flags.verify then result.verify else none with
          | some problem => .error (.analysis "verification failed" problem)
          | none => .ok result)

/-- The output of a plan command. -/
def planOutput (json : Bool) (result : Result) (primitive : String) (only : Option String) :
    Except CommandFailure String := do
  let only ← match only with
    | some list =>
      ((result.program.enumeration.parse list).mapError fun e =>
        CommandFailure.usage "invalid --only" e.message).map some
    | none => pure none
  let plan := Plan.ofResult result ⟨primitive, only⟩
  return if json then plan.json.document else plan.text

/-- The output of a job on the result of its analysis. -/
def jobOutput (json : Bool) (runId : String) (result : Result) : Job → Except CommandFailure String
  | .analyze _ exposure =>
    .ok (if json then (successJson (analysisJson result exposure) (some runId)).document
      else analysisText result exposure)
  | .plan _ primitive only => planOutput json result primitive only
  | .dump _ => .ok (result.listing .plain)
  | .caps _ => .ok ""

/-- The output of a list of capabilities. -/
def capsOutput (json : Bool) (list : String) : Except CommandFailure String := do
  let e := Enumeration.linux
  let s ← (e.parse list).mapError fun error =>
    CommandFailure.usage "invalid --list" error.message
  return if json then (successJson (capabilitiesJson e s) none).document
    else capabilitiesText e s

/-- The outcome of a command with its log. A failure is also written as a response
when the output is JSON. -/
def outcomeOf (json : Bool) (log : String) : Except CommandFailure String → Outcome
  | .ok output => ⟨0, none, output, log⟩
  | .error failure =>
    let output := if json then (failureJson failure.code failure.message).document else ""
    ⟨failure.status, some failure.message, output, log⟩

/-- Runs a command, given the text of its source and the id of the run. -/
def Invocation.run (invocation : Invocation) (text : Option String) (runId : String) : Outcome :=
  let analysed (flags : AnalysisFlags) : Outcome :=
    let (records, result) := runAnalysis flags text
    outcomeOf invocation.json (logText? invocation.verbose records)
      (result >>= fun result => jobOutput invocation.json runId result invocation.job)
  match invocation.job with
  | .analyze flags _ | .plan flags _ _ | .dump flags => analysed flags
  | .caps list => outcomeOf invocation.json "" (capsOutput invocation.json list)

end CapLiveness.Command
