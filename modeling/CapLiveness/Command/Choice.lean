import CapLiveness.Command.Flag

/-!
# Choosing a command

The command is the first argument that is neither a flag nor the value of a flag.
At this point only the flags that every command has are known, and any other flag
is taken to have the next argument as its value.

A name that is no command is reported with the names of commands that it may have
been meant for: those that start with it, and those at an edit distance of at most
two.
-/

set_option autoImplicit false

namespace CapLiveness.Command

open CapLiveness.Text

/-- The name of the program. -/
def programName : String := "capdrop"

/-- The commands. -/
inductive CommandName where
  | analyze
  | plan
  | dump
  | caps
  /-- Help on the program and its commands. -/
  | help
  /-- Scripts that complete command lines. -/
  | completion
deriving DecidableEq

/-- The word for a command. -/
def CommandName.text : CommandName → String
  | .analyze => "analyze"
  | .plan => "plan"
  | .dump => "dump"
  | .caps => "caps"
  | .help => "help"
  | .completion => "completion"

/-- All commands. -/
def CommandName.all : List CommandName := [.analyze, .plan, .dump, .caps, .help, .completion]

/-- The command that a word stands for. -/
def CommandName.ofText? (word : String) : Option CommandName :=
  CommandName.all.find? (·.text == word)

/-! ## Words that are not flags -/

/-- Whether an argument is a flag whose value is the next argument. -/
def takesNext (specs : List FlagSpec) (argument : String) : Bool :=
  !argument.contains '=' &&
    match argument.toList with
    | '-' :: '-' :: name =>
      match flagNamed? specs (String.ofList name) with
      | some spec => spec.kind != .toggle
      | none => true
    | ['-', letter] =>
      letter.utf8Size == 1 &&
        match flagLettered? specs letter with
        | some spec => spec.kind != .toggle
        | none => true
    | _ => false

/-- The arguments that are neither flags nor their values. -/
def plainWords (specs : List FlagSpec) : List String → List String
  | [] => []
  | argument :: rest =>
    if argument = "--" then []
    else if takesNext specs argument then
      match rest with
      | _ :: next :: rest => plainWords specs (next :: rest)
      | _ => []
    else if argument = "" ∨ argument.startsWith "-" then plainWords specs rest
    else argument :: plainWords specs rest

/-- The arguments without the first occurrence of a word that is neither a flag nor
the value of one. -/
def withoutWord (specs : List FlagSpec) (word : String) : List String → List String
  | [] => []
  | argument :: rest =>
    if argument = "--" then argument :: rest
    else if takesNext specs argument then
      match rest with
      | value :: rest => argument :: value :: withoutWord specs word rest
      | [] => [argument]
    else if argument = word then rest
    else argument :: withoutWord specs word rest

/-! ## Suggestions -/

/-- The next row of the table of edit distances between the starts of two texts:
for the text on top extended by nothing, one character, and so on. -/
def nextDistances (c : UInt8) : List UInt8 → List Nat → Nat → List Nat
  | t :: top, diagonal :: above :: row, left =>
    let here := if c = t then diagonal else min (min above left) diagonal + 1
    here :: nextDistances c top (above :: row) here
  | _, _, _ => []

/-- The number of bytes to insert, delete or replace to get from one text to
another. -/
def editDistance (a b : List UInt8) : Nat :=
  let first := List.range (b.length + 1)
  let last := a.foldl
    (fun row c => let start := row.headD 0 + 1; start :: nextDistances c b row start) first
  last.getLastD 0

/-- The largest edit distance of a suggestion. -/
def suggestionDistance : Nat := 2

/-- Whether a command is suggested for a word. -/
def isSuggested (word : String) (command : CommandName) : Bool :=
  let word := word.toLower
  command != .help &&
    (decide (editDistance word.toUTF8.data.toList command.text.toUTF8.data.toList ≤
        suggestionDistance) || command.text.startsWith word)

/-- The text of the suggestions for a word. -/
def suggestionsText (word : String) : String :=
  let suggested := CommandName.all.filter (isSuggested word)
  if suggested.isEmpty then ""
  else
    "\n\nDid you mean this?\n" ++
      String.join (suggested.map fun command => "\t" ++ command.text ++ "\n")

/-- The message about a word that is no command. -/
def unknownCommandText (word : String) : String :=
  s!"unknown command {quoted word} for {quoted programName}" ++ suggestionsText word

/-! ## The choice -/

/-- What a command line asks for. -/
inductive Choice where
  /-- No command at all. -/
  | none
  /-- A command with its arguments. -/
  | command (name : CommandName) (arguments : List String)
  /-- A word that is no command. -/
  | unknown (word : String)

/-- Chooses the command of a command line, given the flags of every command. -/
def choose (specs : List FlagSpec) (arguments : List String) : Choice :=
  match plainWords specs arguments with
  | [] => .none
  | word :: _ =>
    match CommandName.ofText? word with
    | some name => .command name (withoutWord specs word arguments)
    | Option.none => .unknown word

end CapLiveness.Command
