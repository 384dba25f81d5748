import CapLiveness.Yaml.Cursor

/-!
# Scalars in a YAML text

Plain, quoted and block scalars. Each reader starts at the first character of a
scalar and gives its text and the place after it, or nothing when the scalar is
not well formed.

Inside plain and quoted scalars a single line break is read as a space, and of
several the first is dropped (`folded`). Block scalars keep their line breaks or
fold them, as their first line says.

Readers of scalars over several lines go on for at most as many rounds as there
are characters left; every round reads at least one.
-/

set_option autoImplicit false

namespace CapLiveness.Yaml

/-- The text that blanks and line breaks between two words stand for. When the
first break is escaped, all others are kept. -/
def folded (escaped : Bool) (gap : List Char) : List Char :=
  let breaks := gap.filter isBreak
  if escaped then breaks
  else
    match breaks with
    | [] => gap
    | '\n' :: [] => [' ']
    | '\n' :: others => others
    | breaks => breaks

/-! ## Plain scalars -/

/-- The characters that end a plain scalar inside a flow collection. -/
def flowIndicators : List Char := [',', '?', '[', ']', '{', '}']

/-- The characters of a plain scalar up to the next space. -/
def plainWord (inFlow : Bool) : List Char → List Char
  | [] => []
  | c :: rest =>
    if isSpace c then []
    else if c = ':' ∧ (rest.head?.all isSpace) then []
    else if inFlow ∧ c ∈ flowIndicators then []
    else c :: plainWord inFlow rest

/-- Whether a tab stands left of an indentation, after a line break. -/
def hasTabInIndent (indent : Int) (afterBreak : Bool) (column : Nat) : List Char → Bool
  | [] => false
  | c :: rest =>
    if isBreak c then hasTabInIndent indent true 0 rest
    else (afterBreak && decide (Int.ofNat column < indent) && c == '\t') ||
      hasTabInIndent indent afterBreak (column + 1) rest

/-- A plain scalar, the place after it and after the space that follows, and
whether a line ended in between. -/
structure PlainScalar where
  text : List Char
  after : Cursor
  lineEnded : Bool

/-- Reads a plain scalar from a place where a word of it may start. `gap` is the
space before that place. -/
def readPlainFrom (inFlow : Bool) (indent : Int) :
    Nat → List Char → List Char → Cursor → Option PlainScalar
  | 0, text, gap, c => some ⟨text, c, gap.any isBreak⟩
  | rounds + 1, text, gap, c =>
    let finished : PlainScalar := ⟨text, c, gap.any isBreak⟩
    if c.isAtDocumentBorder || c.isAt '#' then some finished
    else
      let word := plainWord inFlow c.rest
      if word.isEmpty then some finished
      else
        let text := text ++ folded false gap ++ word
        let c := c.steps word.length
        let gap := c.span isSpace
        if gap.isEmpty then some ⟨text, c, false⟩
        else if hasTabInIndent indent false c.mark.column gap then none
        else
          let c := c.steps gap.length
          if !inFlow && decide (Int.ofNat c.mark.column < indent) then
            some ⟨text, c, gap.any isBreak⟩
          else readPlainFrom inFlow indent rounds text gap c

/-- Reads a plain scalar. Its further lines have to reach an indentation, unless it
stands in a flow collection. -/
def readPlain (inFlow : Bool) (indent : Int) (c : Cursor) : Option PlainScalar :=
  readPlainFrom inFlow indent c.rest.length [] [] c

/-! ## Quoted scalars -/

/-- The characters that a letter after a backslash stands for. -/
def namedEscapes : List (Char × Char) :=
  [('0', '\x00'), ('a', '\x07'), ('b', '\x08'), ('t', '\t'), ('\t', '\t'), ('n', '\n'),
    ('v', '\x0b'), ('f', '\x0c'), ('r', '\r'), ('e', '\x1b'), (' ', ' '), ('"', '"'),
    ('\'', '\''), ('\\', '\\'), ('N', '\u0085'), ('_', '\u00a0'), ('L', '\u2028'),
    ('P', '\u2029')]

/-- The letters that announce a code, with the number of its digits. -/
def codeEscapes : List (Char × Nat) := [('x', 2), ('u', 4), ('U', 8)]

/-- The value of a hexadecimal digit. -/
def hexValue? (c : Char) : Option Nat :=
  if '0' ≤ c ∧ c ≤ '9' then some (c.toNat - '0'.toNat)
  else if 'a' ≤ c ∧ c ≤ 'f' then some (c.toNat - 'a'.toNat + 10)
  else if 'A' ≤ c ∧ c ≤ 'F' then some (c.toNat - 'A'.toNat + 10)
  else none

/-- The number that hexadecimal digits write. -/
def hexNumber? (digits : List Char) : Option Nat :=
  digits.foldlM (fun n c => (hexValue? c).map (n * 16 + ·)) 0

/-- The character with a code, if there is one. -/
def charOfCode? (code : Nat) : Option Char :=
  if code.isValidChar then some (Char.ofNat code) else none

/-- The character that an escape stands for, and the length of the escape after
its backslash. -/
def readEscape : List Char → Option (Char × Nat)
  | [] => none
  | letter :: rest =>
    match namedEscapes.lookup letter with
    | some c => some (c, 1)
    | none => do
      let length ← codeEscapes.lookup letter
      if rest.length < length then none
      else
        let code ← hexNumber? (rest.take length)
        let c ← charOfCode? code
        return (c, length + 1)

/-- A part of a quoted scalar without space in it. -/
structure QuotedPart where
  text : List Char
  /-- The number of characters read. -/
  length : Nat
  /-- Whether an escaped line break ended the part. -/
  escapedBreak : Bool

/-- Reads a part of a quoted scalar up to a space or the closing quote. The first
argument bounds the number of characters. -/
def readQuotedPart (single : Bool) : Nat → List Char → Option QuotedPart
  | 0, _ => some ⟨[], 0, false⟩
  | _, [] => some ⟨[], 0, false⟩
  | bound + 1, c :: rest =>
    let extended (added : List Char) (length : Nat) (rest : List Char) : Option QuotedPart :=
      (readQuotedPart single bound rest).map fun part =>
        { part with text := added ++ part.text, length := part.length + length }
    if isSpace c then some ⟨[], 0, false⟩
    else if single then
      if c = '\'' then
        if rest.head? = some '\'' then extended ['\''] 2 rest.tail else some ⟨[], 0, false⟩
      else extended [c] 1 rest
    else if c = '"' then some ⟨[], 0, false⟩
    else if c = '\\' then
      if rest.head?.any isBreak then some ⟨[], 2, true⟩
      else
        match readEscape rest with
        | some (char, length) => extended [char] (length + 1) (rest.drop length)
        | none => none
    else extended [c] 1 rest

/-- Reads the rest of a quoted scalar after its opening quote. -/
def readQuotedFrom (single : Bool) : Nat → List Char → Cursor → Option (List Char × Cursor)
  | 0, _, _ => none
  | rounds + 1, text, c =>
    if c.isAtDocumentBorder then none
    else if c.rest.isEmpty then none
    else
      match readQuotedPart single c.rest.length c.rest with
      | none => none
      | some part =>
        let text := text ++ part.text
        let c := c.steps part.length
        if c.isAt (if single then '\'' else '"') then some (text, c.step)
        else
          let gap := c.span isSpace
          readQuotedFrom single rounds (text ++ folded part.escapedBreak gap)
            (c.steps gap.length)

/-- Reads a quoted scalar. -/
def readQuoted (single : Bool) (c : Cursor) : Option (List Char × Cursor) :=
  readQuotedFrom single (c.rest.length + 1) [] c.step

/-! ## Block scalars -/

/-- What becomes of the line breaks at the end of a block scalar. -/
inductive Chomping where
  /-- None is kept. -/
  | strip
  /-- One is kept. -/
  | clip
  /-- All are kept. -/
  | keep
deriving DecidableEq

/-- The chomping that a character asks for. -/
def chomping? : Option Char → Option Chomping
  | some '+' => some .keep
  | some '-' => some .strip
  | _ => none

/-- The indentation that a character asks for; nothing for a zero. -/
def increment? (c : Option Char) : Option (Option Nat) :=
  match c with
  | some digit =>
    if '1' ≤ digit ∧ digit ≤ '9' then some (some (digit.toNat - '0'.toNat))
    else if digit = '0' then none
    else some none
  | none => some none

/-- Reads what follows the indicator of a block scalar: chomping and indentation,
in either order. The indentation is zero when it is not given. -/
def readBlockHeader (c : Cursor) : Option (Chomping × Nat × Cursor) :=
  match chomping? c.next? with
  | some chomping =>
    match increment? c.step.next? with
    | none => none
    | some none => some (chomping, 0, c.step)
    | some (some increment) => some (chomping, increment, c.step.step)
  | none =>
    match increment? c.next? with
    | none => none
    | some none => some (.clip, 0, c)
    | some (some increment) =>
      match chomping? c.step.next? with
      | some chomping => some (chomping, increment, c.step.step)
      | none => some (.clip, increment, c.step)

/-- Empty lines before a line of a block scalar: the place after them, the deepest
indentation met, and the line breaks. -/
structure BlockGap where
  after : Cursor
  deepest : Nat
  breaks : List Char

/-- Reads indentation and empty lines. An indentation of zero is one that is still
to be found out. -/
def readBlockGap (indent : Nat) : Nat → BlockGap → Option BlockGap
  | 0, gap => some gap
  | rounds + 1, gap =>
    let c := gap.after
    let spaces := (c.span (· == ' ')).length
    let c := c.steps (if indent = 0 then spaces else min spaces (indent - c.mark.column))
    let deepest := max gap.deepest c.mark.column
    if (indent = 0 ∨ c.mark.column < indent) ∧ c.isAt '\t' then none
    else
      match c.next? with
      | some char =>
        if isBreak char then
          readBlockGap indent rounds ⟨c.step, deepest, gap.breaks ++ [char]⟩
        else some ⟨c, deepest, gap.breaks⟩
      | none => some ⟨c, deepest, gap.breaks⟩

/-- What has been read of a block scalar. -/
structure BlockState where
  text : List Char
  /-- The line break after the last line. -/
  lineBreak : List Char
  /-- The line breaks of the empty lines after it. -/
  emptyLines : List Char
  /-- Whether the last line starts with a blank. -/
  startsBlank : Bool
  after : Cursor

/-- The text between the last line and the next. -/
def BlockState.separator (isFolded nextBlank : Bool) (state : BlockState) : List Char :=
  if isFolded && !state.startsBlank && !nextBlank && state.lineBreak.head? == some '\n' then
    if state.emptyLines.isEmpty then [' '] else state.emptyLines
  else state.lineBreak ++ state.emptyLines

/-- Reads the lines of a block scalar. -/
def readBlockLines (isFolded : Bool) (indent : Nat) : Nat → BlockState → Option BlockState
  | 0, state => some state
  | rounds + 1, state =>
    let c := state.after
    if c.mark.column ≠ indent ∨ c.rest.isEmpty then some state
    else
      let blank := c.next?.any isBlank
      let line := c.span (!isBreak ·)
      let lineEnd := c.steps line.length
      let lineBreak := lineEnd.rest.take 1
      let start := lineEnd.steps lineBreak.length
      match readBlockGap indent (lineEnd.rest.length + 1) ⟨start, 0, []⟩ with
      | none => none
      | some gap =>
        readBlockLines isFolded indent rounds
          { text := state.text ++ state.separator isFolded blank ++ line
            lineBreak := lineBreak
            emptyLines := gap.breaks
            startsBlank := blank
            after := gap.after }

/-- Reads a block scalar inside a given indentation. -/
def readBlock (isFolded : Bool) (parentIndent : Int) (c : Cursor) :
    Option (List Char × Cursor) := do
  let (chomping, increment, c) ← readBlockHeader c.step
  let c := c.skipWhile isBlank
  let c := if c.isAt '#' then c.skipToBreak else c
  if c.next?.any (!isBreak ·) then none
  else
    let c := c.step
    let base := if 0 ≤ parentIndent then parentIndent.toNat else 0
    let given := if increment = 0 then 0 else base + increment
    let gap ← readBlockGap given (c.rest.length + 1) ⟨c, 0, []⟩
    let indent :=
      if given = 0 then max (max gap.deepest (parentIndent + 1).toNat) 1 else given
    let state ← readBlockLines isFolded indent (c.rest.length + 1)
      ⟨[], [], gap.breaks, false, gap.after⟩
    let tail := match chomping with
      | .strip => []
      | .clip => state.lineBreak
      | .keep => state.lineBreak ++ state.emptyLines
    return (state.text ++ tail, state.after)

end CapLiveness.Yaml
