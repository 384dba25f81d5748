/-!
# Characters of a YAML text

A YAML text may hold tabs, line breaks and printable characters. Before it is cut
into tokens, line breaks of one or two characters are written in one way
(`unifyBreaks`); the two Unicode separators keep their identity, since they stay
in scalars as they are.

A cursor is a place in the text: the characters that follow, and how far the place
is from the start of the text and from the start of its line.
-/

set_option autoImplicit false

namespace CapLiveness.Yaml

/-! ## Classes of characters -/

/-- Whether a character may stand in a YAML text. -/
def isAllowed (c : Char) : Bool :=
  let n := c.toNat
  n == 0x09 || n == 0x0a || n == 0x0d || (0x20 ≤ n && n ≤ 0x7e) || n == 0x85 ||
    (0xa0 ≤ n && n ≤ 0xd7ff) || (0xe000 ≤ n && n ≤ 0xfffd) || 0x10000 ≤ n

/-- The mark that may start a text and its lines. -/
def byteOrderMark : Char := '\ufeff'

/-- Whether a character is a space or a tab. -/
def isBlank (c : Char) : Bool := c == ' ' || c == '\t'

/-- Whether a character ends a line. -/
def isBreak (c : Char) : Bool := c == '\n' || c == '\u2028' || c == '\u2029'

/-- Whether a character is blank or ends a line. -/
def isSpace (c : Char) : Bool := isBlank c || isBreak c

/-- Whether a character may stand in the name of an anchor or a tag handle. -/
def isWordChar (c : Char) : Bool :=
  ('0' ≤ c && c ≤ '9') || ('a' ≤ c && c ≤ 'z') || ('A' ≤ c && c ≤ 'Z') || c == '_' || c == '-'

/-- Writes all line breaks but the Unicode separators as line feeds. -/
def unifyBreaks : List Char → List Char
  | [] => []
  | '\r' :: '\n' :: rest => '\n' :: unifyBreaks rest
  | c :: rest => (if c = '\r' ∨ c = '\u0085' then '\n' else c) :: unifyBreaks rest

/-! ## Cursors -/

/-- A place in a text. -/
structure Mark where
  index : Nat
  line : Nat
  column : Nat
deriving DecidableEq

/-- A place in a text with the characters that follow. -/
structure Cursor where
  rest : List Char
  mark : Mark

namespace Cursor

/-- The start of a text. -/
def start (text : List Char) : Cursor := ⟨text, ⟨0, 0, 0⟩⟩

/-- The next character, if there is one. -/
def next? (c : Cursor) : Option Char := c.rest.head?

/-- Whether the next character is a given one. -/
def isAt (c : Cursor) (char : Char) : Bool := c.next? == some char

/-- Whether the character after some others is blank or ends a line or the text. -/
def spaceAfter (c : Cursor) (count : Nat) : Bool :=
  match c.rest[count]? with
  | some char => isSpace char
  | none => true

/-- Goes over a character, which may end a line. -/
def step (c : Cursor) : Cursor :=
  match c.rest with
  | [] => c
  | char :: rest =>
    if isBreak char then ⟨rest, ⟨c.mark.index + 1, c.mark.line + 1, 0⟩⟩
    else ⟨rest, ⟨c.mark.index + 1, c.mark.line, c.mark.column + 1⟩⟩

/-- Goes over several characters. -/
def steps : Nat → Cursor → Cursor
  | 0, c => c
  | count + 1, c => steps count c.step

/-- The characters up to the first that fails a test. -/
def span (c : Cursor) (test : Char → Bool) : List Char := c.rest.takeWhile test

/-- Goes to the first character that fails a test. -/
def skipWhile (c : Cursor) (test : Char → Bool) : Cursor := steps (c.span test).length c

/-- Goes to the end of the line. -/
def skipToBreak (c : Cursor) : Cursor := c.skipWhile (!isBreak ·)

/-- Whether a document marker made of a character three times stands here. -/
def isAtMarker (c : Cursor) (char : Char) : Bool :=
  c.mark.column == 0 && c.rest.take 3 == [char, char, char] && c.spaceAfter 3

/-- Whether a document starts or ends here. -/
def isAtDocumentBorder (c : Cursor) : Bool := c.isAtMarker '-' || c.isAtMarker '.'

end Cursor

end CapLiveness.Yaml
