import CapLiveness.Capability.Enumeration
import CapLiveness.Yaml.Failure

/-!
# Problems

Everything that can go wrong is reported as a problem: a tree whose leaves are
causes and whose inner nodes put a context in front of a cause, join several
causes, or say which check of the analysis failed. The text of a problem is one
function of the tree (`Problem.message`).

Questions about a problem look through contexts and joins, from left to right
and each node before what is below it. The code of a problem is that of the
*first* analysis error met on this walk (`Problem.code?`); the other questions
ask whether any node is of a given kind (`Problem.any`).
-/

set_option autoImplicit false

namespace CapLiveness

/-- The categories of analysis errors. -/
inductive ErrorCode where
  /-- A block leaves its function by unwinding. -/
  | unwindExit
  /-- A capability number is outside the enumeration. -/
  | outOfRange
  /-- A capability argument is not a compile-time constant. -/
  | nonConstant
  /-- The program never refers to the primitive that raises privileges. -/
  | missingRaise
  /-- The program is not well formed. -/
  | invalidStructure
  /-- A category that the analysis does not use itself. -/
  | other (text : String)
deriving DecidableEq

/-- The text of a category. -/
def ErrorCode.text : ErrorCode → String
  | .unwindExit => "UNWIND_EXIT"
  | .outOfRange => "CAPABILITY_OUT_OF_RANGE"
  | .nonConstant => "NON_CONSTANT_ARGUMENT"
  | .missingRaise => "MISSING_RAISE_PRIMITIVE"
  | .invalidStructure => "INVALID_STRUCTURE"
  | .other text => text

/-- The categories that the analysis uses, in the order in which they are listed. -/
def ErrorCode.known : List ErrorCode :=
  [.unwindExit, .outOfRange, .nonConstant, .missingRaise, .invalidStructure]

/-- The category with the given text. -/
def ErrorCode.ofText (text : String) : ErrorCode :=
  (ErrorCode.known.find? (·.text == text)).getD (.other text)

/-- The place of an error: a function and a block by name, each empty when
there is none. -/
structure Location where
  function : String := ""
  block : String := ""
deriving DecidableEq

/-- What went wrong. -/
inductive Problem where
  /-- A message on its own. -/
  | plain (message : String)
  /-- A cause with a context in front of it. -/
  | wrap (context : String) (cause : Problem)
  /-- Several causes. -/
  | join (causes : List Problem)
  /-- An error of the analysis, with the cause below it if there is one. -/
  | analysis (code : ErrorCode) (location : Location) (message : String) (cause : Option Problem)
  /-- A program that is not well formed. -/
  | malformed (location : Location) (message : String)
  /-- A number that is no capability kind. -/
  | range (error : RangeError)
  /-- A YAML text that could not be read. -/
  | document (failure : Yaml.Failure)

namespace Problem

/-! ## Text -/

/-- The text of a malformed program: the block if there is one, else the
function, else the message alone. -/
def malformedText (location : Location) (message : String) : String :=
  if location.block ≠ "" then s!"invalid program: block {location.block}: {message}"
  else if location.function ≠ "" then
    s!"invalid program: function {location.function}: {message}"
  else "invalid program: " ++ message

/-- The text of an analysis error around its message. -/
def analysisText (code : ErrorCode) (location : Location) (message : String) : String :=
  if location.block ≠ "" then
    s!"{code.text}: {message} (function={location.function}, block={location.block})"
  else if location.function ≠ "" then
    s!"{code.text}: {message} (function={location.function})"
  else s!"{code.text}: {message}"

/-- A message in front of the text of a cause, either of which may be missing. -/
def withCause (message : String) : Option String → String
  | none => message
  | some cause => if message = "" then cause else message ++ ": " ++ cause

mutual

/-- The text of a problem. Joined causes stand on lines of their own. -/
def message : Problem → String
  | .plain text => text
  | .wrap context cause => context ++ ": " ++ cause.message
  | .join causes => "\n".intercalate (messages causes)
  | .analysis code location text cause =>
    analysisText code location (withCause text (causeMessage cause))
  | .malformed location text => malformedText location text
  | .range error => error.message
  | .document failure => failure.message

/-- The texts of several problems. -/
def messages : List Problem → List String
  | [] => []
  | problem :: rest => problem.message :: messages rest

/-- The text of a cause, if there is one. -/
def causeMessage : Option Problem → Option String
  | none => none
  | some problem => some problem.message

end

/-! ## Looking through a problem -/

mutual

/-- The code of the first analysis error in the tree. -/
def code? : Problem → Option ErrorCode
  | .analysis code _ _ _ => some code
  | .wrap _ cause => cause.code?
  | .join causes => firstCode? causes
  | .plain _ | .malformed _ _ | .range _ | .document _ => none

/-- The code of the first analysis error in several trees. -/
def firstCode? : List Problem → Option ErrorCode
  | [] => none
  | problem :: rest => problem.code?.or (firstCode? rest)

end

mutual

/-- Whether some node of the tree passes a test. -/
def any (test : Problem → Bool) : Problem → Bool
  | .wrap context cause => test (.wrap context cause) || cause.any test
  | .join causes => test (.join causes) || anyOf test causes
  | .analysis code location text cause =>
    test (.analysis code location text cause) || anyCause test cause
  | .plain text => test (.plain text)
  | .malformed location text => test (.malformed location text)
  | .range error => test (.range error)
  | .document failure => test (.document failure)

/-- Whether some node of several trees passes a test. -/
def anyOf (test : Problem → Bool) : List Problem → Bool
  | [] => false
  | problem :: rest => problem.any test || anyOf test rest

/-- Whether some node of a cause passes a test. -/
def anyCause (test : Problem → Bool) : Option Problem → Bool
  | none => false
  | some problem => problem.any test

end

/-- Whether the problem is a program or function that the analysis cannot handle. -/
def isStructural (problem : Problem) : Bool :=
  match problem.code? with
  | some code => code != .missingRaise
  | none => false

/-- Whether the problem is a program without the primitive that raises privileges. -/
def isMissingRaise (problem : Problem) : Bool := problem.code? == some .missingRaise

/-- Whether the problem has the given code. -/
def hasCode (problem : Problem) (code : ErrorCode) : Bool := problem.code? == some code

/-- Whether a program that is not well formed is part of the problem. -/
def mentionsMalformed (problem : Problem) : Bool :=
  problem.any fun | .malformed _ _ => true | _ => false

/-- Whether a number outside the enumeration is part of the problem. -/
def mentionsRange (problem : Problem) : Bool :=
  problem.any fun | .range _ => true | _ => false

/-- The problem made of several causes, if there is any. -/
def ofCauses (causes : List Problem) : Option Problem :=
  if causes.isEmpty then none else some (.join causes)

end Problem

end CapLiveness
