/-!
# Records of comma-separated values

A record is one line of fields with commas between them. A field in double quotes
may hold commas, line breaks, and quotes that are written twice. Empty lines
before the record are skipped, and what follows the record is not looked at.

Faults are reported with the line and the column, counted from one, of a text
whose columns are bytes.
-/

set_option autoImplicit false

namespace CapLiveness.Text.Csv

/-- What is wrong with a record. -/
inductive Fault where
  /-- There is no record. -/
  | noRecord
  /-- A quote stands in a field without quotes. -/
  | bareQuote (startLine line column : Nat)
  /-- A closing quote is missing, or something follows it. -/
  | badQuote (startLine line column : Nat)
deriving DecidableEq

/-- The place of a fault in a record. -/
def placeText (startLine line column : Nat) : String :=
  if startLine = line then s!"parse error on line {line}, column {column}"
  else s!"record on line {startLine}; parse error on line {line}, column {column}"

/-- The wording of a fault. -/
def Fault.message : Fault → String
  | .noRecord => "EOF"
  | .bareQuote startLine line column =>
    placeText startLine line column ++ ": bare \" in non-quoted-field"
  | .badQuote startLine line column =>
    placeText startLine line column ++ ": extraneous or missing \" in quoted-field"

/-- The number of bytes of some characters. -/
def byteLength (text : List Char) : Nat := text.foldl (fun n c => n + c.utf8Size) 0

/-- The lines of a text, each with its line feed if it has one. -/
def lines : List Char → List (List Char)
  | [] => []
  | '\n' :: rest => ['\n'] :: lines rest
  | c :: rest =>
    match rest, lines rest with
    | [], _ => [[c]]
    | _, line :: others => (c :: line) :: others
    | _, [] => [[c]]

/-- A line whose carriage return, before its line feed or at its end, is dropped. -/
def withoutReturn (line : List Char) : List Char :=
  match line.reverse with
  | '\n' :: '\r' :: rest => (('\n' :: rest).reverse)
  | '\r' :: rest => rest.reverse
  | _ => line

/-- A line without its line feed. -/
def withoutFeed (line : List Char) : List Char :=
  if line.getLast? = some '\n' then line.dropLast else line

/-- Where a field starts: the rest of its line, the lines after it, the number of
the line, and the column. -/
structure Place where
  rest : List Char
  following : List (List Char)
  line : Nat
  column : Nat

/-- How a field ends. -/
inductive FieldEnd where
  /-- A comma follows, and a field after it. -/
  | comma (next : Place)
  /-- The record ends. -/
  | record

/-- Reads a field without quotes. -/
def readBare (startLine : Nat) (place : Place) : Except Fault (List Char × FieldEnd) :=
  let field := place.rest.takeWhile (· != ',')
  let after := place.rest.dropWhile (· != ',')
  let field := if after.isEmpty then withoutFeed field else field
  if field.contains '"' then
    .error (.bareQuote startLine place.line
      (place.column + byteLength (field.takeWhile (· != '"'))))
  else
    match after with
    | [] => .ok (field, .record)
    | _ :: rest =>
      .ok (field, .comma { place with rest := rest, column := place.column + byteLength field + 1 })

/-- Reads the rest of a quoted field. The first argument bounds the number of
quotes and lines. -/
def readQuoted (startLine : Nat) : Nat → List Char → Place → Except Fault (List Char × FieldEnd)
  | 0, _, place => .error (.badQuote startLine place.line place.column)
  | bound + 1, field, place =>
    let part := place.rest.takeWhile (· != '"')
    let field := field ++ part
    match place.rest.dropWhile (· != '"') with
    | _ :: rest =>
      let column := place.column + byteLength part + 1
      match rest with
      | '"' :: rest =>
        readQuoted startLine bound (field ++ ['"'])
          { place with rest := rest, column := column + 1 }
      | ',' :: rest => .ok (field, .comma { place with rest := rest, column := column + 1 })
      | rest =>
        if rest.isEmpty ∨ rest = ['\n'] then .ok (field, .record)
        else .error (.badQuote startLine place.line (column - 1))
    | [] =>
      match place.following with
      | line :: following =>
        readQuoted startLine bound field ⟨line, following, place.line + 1, 1⟩
      | [] => .error (.badQuote startLine place.line (place.column + byteLength part))

/-- Reads the fields of a record. The first argument bounds their number. -/
def readFields (startLine : Nat) : Nat → Place → Except Fault (List String)
  | 0, _ => .ok []
  | bound + 1, place => do
    let (field, fieldEnd) ←
      match place.rest with
      | '"' :: rest =>
        let size := rest.length + (place.following.map List.length).sum + 2
        readQuoted startLine size [] { place with rest := rest, column := place.column + 1 }
      | _ => readBare startLine place
    match fieldEnd with
    | .record => return [String.ofList field]
    | .comma next => return String.ofList field :: (← readFields startLine bound next)

/-- Reads the first record among lines of which the first has the given number. -/
def readRecord (bound : Nat) : Nat → List (List Char) → Except Fault (List String)
  | _, [] => .error .noRecord
  | number, line :: following =>
    if (withoutFeed line).isEmpty then readRecord bound (number + 1) following
    else readFields number bound ⟨line, following, number, 1⟩

/-- Reads the first record of a text. -/
def read (text : String) : Except Fault (List String) :=
  readRecord (text.length + 1) 1 ((lines text.toList).map withoutReturn)

end CapLiveness.Text.Csv
