import CapLiveness.Text.Pieces

/-!
# Aligned columns

Text is laid out as a table by its own marks. Lines are cut into cells at tabs,
horizontal or vertical, and every cell but the last of a line is padded with
blanks to the width of its column. A column is a run of neighbouring lines that
have, at one position, a cell that is not their last. It is two blanks wider than
its widest cell.

A form feed ends a line, and also all columns: the lines before it and after it
are laid out apart.
-/

set_option autoImplicit false

namespace CapLiveness.Text.Columns

/-- The blanks between a column and the next. -/
def padding : Nat := 2

/-- A line of a table: the text laid out so far, and the cells still to come. -/
structure Line where
  text : List Char
  cells : List (List Char)

namespace Line

/-- A line before layout. -/
def ofText (text : List Char) : Line :=
  ⟨[], pieces '\t' (text.map fun c => if c = '\x0b' then '\t' else c)⟩

/-- Whether the next cell of a line is not its last, so that it is in a column. -/
def hasColumn (line : Line) : Bool := 1 < line.cells.length

/-- Moves the next cell to the text, with blanks up to a width, unless the cell is
the last. -/
def advance (width : Nat) (line : Line) : Line :=
  match line.cells with
  | cell :: next :: rest =>
    ⟨line.text ++ cell ++ List.replicate (width - cell.length) ' ', next :: rest⟩
  | _ => line

/-- A line with its last cell, which is never padded. -/
def finished (line : Line) : List Char := line.text ++ line.cells.headD []

end Line

/-- The width of the column of a run of lines. -/
def widthOf (run : List Line) : Nat :=
  run.foldl (fun width line => max width ((line.cells.headD []).length + padding)) padding

/-- Lays out the columns at the next position. -/
def nextColumn (lines : List Line) : List Line :=
  (lines.splitBy fun a b => a.hasColumn == b.hasColumn).flatMap fun run =>
    run.map (Line.advance (widthOf run))

/-- Lays out the columns at several positions. -/
def nextColumns : Nat → List Line → List Line
  | 0, lines => lines
  | count + 1, lines => nextColumns count (nextColumn lines)

/-- Lays out lines that share their columns. -/
def layoutLines (text : List Char) : List Char :=
  let lines := (pieces '\n' text).map Line.ofText
  let positions := lines.foldl (fun most line => max most line.cells.length) 0
  joined '\n' ((nextColumns positions lines).map Line.finished)

/-- Lays out a text. -/
def layout (text : String) : String :=
  String.ofList (joined '\n' ((pieces '\x0c' text.toList).map layoutLines))

end CapLiveness.Text.Columns
