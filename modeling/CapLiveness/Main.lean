import CapLiveness.Command.Run

/-!
# The program

Reads the command line and the text of the program that it names, and writes the
outcome of the command.
-/

set_option autoImplicit false

namespace CapLiveness.Main

open CapLiveness.Command

/-- The text of a source, if it can be read. -/
def readSource (name : String) : IO (Option String) := do
  if name = standardInput then
    return some (← (← IO.getStdin).readToEnd)
  else
    try
      return some (← IO.FS.readFile name)
    catch _ => return none

/-- The text of an id of sixteen bytes, in groups of four, two, two, two and six
bytes. The first digit of the third group says that the id is random, and the
first two bits of the fourth give its layout. -/
def idText (bytes : List Nat) : String :=
  let marked := (bytes.modify 6 (· % 16 + 64)).modify 8 (· % 64 + 128)
  let group (start length : Nat) : String :=
    String.ofList (((marked.drop start).take length).flatMap (Text.hexDigits 2))
  String.intercalate "-" [group 0 4, group 4 2, group 6 2, group 8 2, group 10 6]

/-- An id for a run. -/
def newRunId : IO String := do
  let bytes ← IO.getRandomBytes 16
  return idText (bytes.data.toList.map UInt8.toNat)

/-- Writes an outcome and gives its status. -/
def finish (outcome : Outcome) : IO UInt32 := do
  IO.print outcome.output
  IO.eprint outcome.log
  match outcome.problem with
  | some message => IO.eprintln s!"{programName}: {message}"
  | none => pure ()
  return UInt32.ofNat outcome.status

end CapLiveness.Main

open CapLiveness.Command CapLiveness.Main in
/-- Runs the command line. -/
def main (arguments : List String) : IO UInt32 := do
  match Invocation.ofArguments arguments with
  | .error outcome => finish outcome
  | .ok invocation =>
    let text ← match invocation.source? with
      | some name => readSource name
      | none => pure none
    finish (invocation.run text (← newRunId))
