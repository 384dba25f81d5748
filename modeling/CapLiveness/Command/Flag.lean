import CapLiveness.Text.Csv
import CapLiveness.Text.Integer
import CapLiveness.Text.Quoted

/-!
# Flags of a command line

Flags may stand anywhere among the arguments, up to two dashes on their own. A
flag has a name, and some flags have a letter too. A toggle takes a value only
after an equals sign; every other flag takes one after an equals sign or as the
next argument. Flags with a letter are toggles, so letters can be put together.

A flag that is given several times keeps its last value, except that lists grow.
-/

set_option autoImplicit false

namespace CapLiveness.Command

open CapLiveness.Text

/-- What a flag takes. -/
inductive FlagKind where
  | toggle
  | text
  | number
  | list
deriving DecidableEq

/-- A flag that a command knows. -/
structure FlagSpec where
  name : String
  letter : Option Char
  kind : FlagKind
deriving DecidableEq

/-- The value of a flag. -/
inductive FlagValue where
  | toggle (value : Bool)
  | text (value : String)
  | number (value : UInt64)
  | list (values : List String)
deriving DecidableEq

/-- The flag as messages name it. -/
def FlagSpec.title (spec : FlagSpec) : String :=
  match spec.letter with
  | some letter => "-" ++ String.singleton letter ++ ", --" ++ spec.name
  | none => "--" ++ spec.name

/-- The values of the flags that were given, the latest first. -/
abbrev FlagValues := List (String × FlagValue)

namespace FlagValues

/-- Whether a flag was given. -/
def isGiven (values : FlagValues) (name : String) : Bool := (values.lookup name).isSome

/-- The value of a toggle. -/
def toggle (values : FlagValues) (name : String) : Bool :=
  match values.lookup name with
  | some (.toggle value) => value
  | _ => false

/-- The text of a flag, or a default. -/
def text (values : FlagValues) (name default : String) : String :=
  match values.lookup name with
  | some (.text value) => value
  | _ => default

/-- The number of a flag, or zero. -/
def number (values : FlagValues) (name : String) : UInt64 :=
  match values.lookup name with
  | some (.number value) => value
  | _ => 0

/-- The items of a list. -/
def list (values : FlagValues) (name : String) : List String :=
  match values.lookup name with
  | some (.list values) => values
  | _ => []

end FlagValues

/-! ## Values -/

/-- The truth value that a word stands for. -/
def toggleWord? (word : String) : Option Bool :=
  if word ∈ ["1", "t", "T", "TRUE", "true", "True"] then some true
  else if word ∈ ["0", "f", "F", "FALSE", "false", "False"] then some false
  else none

/-- The wording of a fault in a number. -/
def integerFaultText : IntegerFault → String
  | .malformed => "invalid syntax"
  | .tooLarge => "value out of range"

/-- Reads the value of a flag from a word. -/
def FlagKind.read (kind : FlagKind) (before : List String) (word : String) :
    Except String FlagValue :=
  match kind with
  | .text => .ok (.text word)
  | .toggle =>
    match toggleWord? word with
    | some value => .ok (.toggle value)
    | none => .error s!"strconv.ParseBool: parsing {quoted word}: invalid syntax"
  | .number =>
    match Integer.parseUnsigned .announced word.toList with
    | .ok n => .ok (.number (UInt64.ofNat n))
    | .error fault =>
      .error s!"strconv.ParseUint: parsing {quoted word}: {integerFaultText fault}"
  | .list =>
    if word = "" then .ok (.list before)
    else
      match Csv.read word with
      | .ok items => .ok (.list (before ++ items))
      | .error fault => .error fault.message

/-- Gives a flag a value. -/
def assign (spec : FlagSpec) (word : String) (values : FlagValues) : Except String FlagValues :=
  match spec.kind.read (values.list spec.name) word with
  | .ok value => .ok ((spec.name, value) :: values)
  | .error cause =>
    .error s!"invalid argument {quoted word} for {quoted spec.title} flag: {cause}"

/-! ## Reading a command line -/

/-- The flags and the other arguments of a command line. -/
structure ParsedLine where
  values : FlagValues
  arguments : List String

/-- The flag with a name. -/
def flagNamed? (specs : List FlagSpec) (name : String) : Option FlagSpec :=
  specs.find? (·.name == name)

/-- The flag with a letter. -/
def flagLettered? (specs : List FlagSpec) (letter : Char) : Option FlagSpec :=
  specs.find? (·.letter == some letter)

/-- Reads flags that are given by letters. Letters that begin with `test.` are
left alone. -/
def readLetters (specs : List FlagSpec) : List Char → FlagValues → Except String FlagValues
  | [], values => .ok values
  | letter :: rest, values =>
    if "test.".toList.isPrefixOf (letter :: rest) then .ok values
    else
      match flagLettered? specs letter with
      | none =>
        let shown := ((String.singleton letter).toUTF8.data.toList.headD 0).toNat
        .error (s!"unknown shorthand flag: {quotedChar (Char.ofNat shown)} in -" ++
          String.ofList (letter :: rest))
      | some spec =>
        match rest with
        | '=' :: c :: value => assign spec (String.ofList (c :: value)) values
        | _ =>
          match assign spec "true" values with
          | .ok values => readLetters specs rest values
          | .error message => .error message

/-- What a flag that is given by its name says: the flag, and its value if the flag
does not take the next argument. -/
def readName (specs : List FlagSpec) (argument : String) (name : List Char) :
    Except String (FlagSpec × Option String) :=
  let word := String.ofList (name.takeWhile (· != '='))
  let after := name.dropWhile (· != '=')
  if name.head? = some '-' ∨ name.head? = some '=' then
    .error ("bad flag syntax: " ++ argument)
  else
    match flagNamed? specs word with
    | none => .error ("unknown flag: --" ++ word)
    | some spec =>
      match after with
      | _ :: value => .ok (spec, some (String.ofList value))
      | [] => .ok (spec, if spec.kind = .toggle then some "true" else none)

/-- Reads a command line. -/
def parseLine (specs : List FlagSpec) : List String → ParsedLine → Except String ParsedLine
  | [], line => .ok line
  | argument :: rest, line =>
    match argument.toList with
    | ['-', '-'] => .ok { line with arguments := line.arguments ++ rest }
    | '-' :: '-' :: name =>
      match readName specs argument name with
      | .error message => .error message
      | .ok (spec, some value) =>
        match assign spec value line.values with
        | .error message => .error message
        | .ok values => parseLine specs rest { line with values := values }
      | .ok (spec, none) =>
        match rest with
        | [] => .error ("flag needs an argument: " ++ argument)
        | value :: rest =>
          match assign spec value line.values with
          | .error message => .error message
          | .ok values => parseLine specs rest { line with values := values }
    | '-' :: letter :: letters =>
      match readLetters specs (letter :: letters) line.values with
      | .error message => .error message
      | .ok values => parseLine specs rest { line with values := values }
    | _ => parseLine specs rest { line with arguments := line.arguments ++ [argument] }

end CapLiveness.Command
