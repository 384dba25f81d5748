import CapLiveness.Analysis.Agenda
import CapLiveness.Analysis.Drops
import CapLiveness.Analysis.Equations
import CapLiveness.Analysis.Exposure
import CapLiveness.Analysis.Fixpoint
import CapLiveness.Analysis.Generator
import CapLiveness.Analysis.Graph
import CapLiveness.Analysis.Listing
import CapLiveness.Analysis.Log
import CapLiveness.Analysis.Options
import CapLiveness.Analysis.Reachability
import CapLiveness.Analysis.Result
import CapLiveness.Analysis.Tables
import CapLiveness.Analysis.Uses
import CapLiveness.Analysis.Verification
import CapLiveness.Analysis.Worklist
import CapLiveness.Capability.Enumeration
import CapLiveness.Capability.Linux
import CapLiveness.Capability.Set
import CapLiveness.Capability.Words
import CapLiveness.Command.Choice
import CapLiveness.Command.Flag
import CapLiveness.Command.Report
import CapLiveness.Command.Run
import CapLiveness.Main
import CapLiveness.Plan
import CapLiveness.Problem
import CapLiveness.Program.Basic
import CapLiveness.Program.Builder
import CapLiveness.Program.Description
import CapLiveness.Program.Document
import CapLiveness.Program.Validation
import CapLiveness.Proofs.Drops
import CapLiveness.Proofs.Execution
import CapLiveness.Proofs.Flow
import CapLiveness.Proofs.Imprecision
import CapLiveness.Proofs.Indexing
import CapLiveness.Proofs.LeastSolution
import CapLiveness.Proofs.LeastPrivilege
import CapLiveness.Proofs.Levels
import CapLiveness.Proofs.LivenessPaths
import CapLiveness.Proofs.Outcome
import CapLiveness.Proofs.Plans
import CapLiveness.Proofs.Requirements
import CapLiveness.Proofs.RevocationSafety
import CapLiveness.Proofs.Solved
import CapLiveness.Proofs.Verification
import CapLiveness.Proofs.WellFormed
import CapLiveness.Proofs.Worklist
import CapLiveness.Text.Base64
import CapLiveness.Text.Blank
import CapLiveness.Text.Columns
import CapLiveness.Text.Csv
import CapLiveness.Text.Double
import CapLiveness.Text.Instant
import CapLiveness.Text.Integer
import CapLiveness.Text.Json
import CapLiveness.Text.Pieces
import CapLiveness.Text.Printable
import CapLiveness.Text.Quoted
import CapLiveness.Text.Uppercase
import CapLiveness.Yaml.Cursor
import CapLiveness.Yaml.Failure
import CapLiveness.Yaml.Meaning
import CapLiveness.Yaml.Node
import CapLiveness.Yaml.Node.Compose
import CapLiveness.Yaml.Shape
import CapLiveness.Yaml.Token
import CapLiveness.Yaml.Token.Scalar
import CapLiveness.Yaml.Token.Scan
import CapLiveness.Proofs.Rounds
import CapLiveness.Proofs.History
import CapLiveness.Proofs.Callbacks
import CapLiveness.Proofs.CallbackConflicts
import CapLiveness.Proofs.Checked.Lookup
import CapLiveness.Proofs.Checked.Setting
import CapLiveness.Proofs.Checked.Equations
import CapLiveness.Proofs.Checked.Solver
import CapLiveness.Proofs.Checked.Analysis
import CapLiveness.Proofs.Checked.Reports
import CapLiveness.Proofs.Checked.Reachability
import CapLiveness.Proofs.IndexSafety
import CapLiveness.Proofs.Checked.Validation
import CapLiveness.Proofs.Consistency
import CapLiveness.Proofs.BreadthFirst
import CapLiveness.Proofs.WitnessPaths
import CapLiveness.Proofs.PlanOrder
import CapLiveness.Proofs.Numerals
import CapLiveness.Proofs.BlockMeaning
import CapLiveness.Proofs.EntryDrop
import CapLiveness.Proofs.Faults
import CapLiveness.Proofs.Extraction
import CapLiveness.Proofs.Strictness
import CapLiveness.Proofs.ErrorCodes
import CapLiveness.Proofs.FiniteSets
import CapLiveness.Proofs.SetOrder
import CapLiveness.Proofs.SetReports
import CapLiveness.Proofs.ExposureAmounts
import CapLiveness.Proofs.OrderlyPrograms
import CapLiveness.Proofs.BuilderEffects
import CapLiveness.Proofs.BuilderSessions
import CapLiveness.Proofs.BuilderScripts
import CapLiveness.Proofs.DescriptionSessions
import CapLiveness.Proofs.Denotation
import CapLiveness.Proofs.GraphBuilding
import CapLiveness.Proofs.GraphInversion
import CapLiveness.Proofs.EnumerationIndex
import CapLiveness.Proofs.CapabilityLists
import CapLiveness.Proofs.RevocationArguments
import CapLiveness.Proofs.AgendaSessions
