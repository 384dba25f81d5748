import CapLiveness.Yaml.Token
import CapLiveness.Yaml.Token.Scalar

/-!
# Cutting a YAML text into tokens

A scanner goes over the text and collects tokens. It keeps the indentations of the
open blocks, the depth of flow collections, and for each depth the place where a
key without a mark of its own may have started: such a key is recognised only by
the colon after it, and then its token is put where it started.

A reader of tokens needs to see two tokens beyond the one it takes, and it cannot
take a token that may still turn out to start a key. So when a text goes wrong at
some place, only the tokens before it for which this holds can be used
(`Scanner.usable`).
-/

set_option autoImplicit false

namespace CapLiveness.Yaml

/-- A place where a key may have started. -/
structure PossibleKey where
  /-- The number of the token at that place. -/
  token : Nat
  /-- Whether nothing but a key can stand there. -/
  required : Bool
  mark : Mark

/-- How far a text has been cut into tokens. -/
structure Scanner where
  cursor : Cursor
  tokens : Array Token
  /-- The indentation of the innermost open block. -/
  indent : Int
  /-- The indentations of the blocks around it, the innermost first. -/
  outer : List Int
  /-- The possible key of each open flow collection, the innermost first, then
  that of the text around them. -/
  keys : List (Option PossibleKey)
  /-- Whether a key may start here. -/
  keyAllowed : Bool

namespace Scanner

/-- A scanner at the start of a text. -/
def start (text : List Char) : Scanner :=
  { cursor := Cursor.start text
    tokens := #[⟨.streamStart, 0⟩]
    indent := -1
    outer := []
    keys := [none]
    keyAllowed := true }

/-- The number of open flow collections. -/
def flowDepth (s : Scanner) : Nat := s.keys.length - 1

/-- Whether the scanner is inside a flow collection. -/
def inFlow (s : Scanner) : Bool := 0 < s.flowDepth

/-- Where the scanner is. -/
def mark (s : Scanner) : Mark := s.cursor.mark

/-- Adds a token that starts at a line. -/
def addAt (s : Scanner) (kind : TokenKind) (line : Nat) : Scanner :=
  { s with tokens := s.tokens.push ⟨kind, line⟩ }

/-- Adds a token that starts here and goes over its characters. -/
def take (s : Scanner) (kind : TokenKind) (length : Nat) : Scanner :=
  { s.addAt kind s.mark.line with cursor := s.cursor.steps length }

/-! ## Possible keys -/

/-- The longest distance between the start of a key and its colon. -/
def maxKeyLength : Nat := 1024

/-- Whether a possible key is out of reach: on an earlier line or too far back. -/
def isStale (s : Scanner) (key : PossibleKey) : Bool :=
  decide (key.mark.line < s.mark.line) || decide (key.mark.index + maxKeyLength < s.mark.index)

/-- Gives up the innermost possible key, which must not be required. -/
def dropKey (s : Scanner) : Option Scanner :=
  match s.keys with
  | some key :: others => if key.required then none else some { s with keys := none :: others }
  | _ => some s

/-- Notes that a key may start here, if it may. -/
def saveKey (s : Scanner) : Option Scanner :=
  if s.keyAllowed then
    s.dropKey.map fun dropped =>
      let key : PossibleKey :=
        ⟨s.tokens.size, !s.inFlow && decide (s.indent = Int.ofNat s.mark.column), s.mark⟩
      { dropped with keys := some key :: dropped.keys.tail }
  else some s

/-! ## Indentation -/

/-- Opens a block at a column, unless one is open there. Its token is put at a
place among the tokens, or at the end. -/
def openBlock (s : Scanner) (column : Nat) (place : Option Nat) (kind : TokenKind)
    (line : Nat) : Scanner :=
  if !s.inFlow && decide (s.indent < Int.ofNat column) then
    let token : Token := ⟨kind, line⟩
    { s with
      outer := s.indent :: s.outer
      indent := Int.ofNat column
      tokens :=
        match place with
        | some number => s.tokens.insertIdxIfInBounds number token
        | none => s.tokens.push token }
  else s

/-- Closes the blocks that are indented more than a column. -/
def closeBlocksFrom (column : Int) (line : Nat) :
    List Int → Int → Array Token → List Int × Int × Array Token
  | [], indent, tokens => ([], indent, tokens)
  | around :: outer, indent, tokens =>
    if column < indent then
      closeBlocksFrom column line outer around (tokens.push ⟨.blockEnd, line⟩)
    else (around :: outer, indent, tokens)

/-- Closes the blocks that are indented more than a column, outside flow
collections. -/
def closeBlocks (s : Scanner) (column : Int) : Scanner :=
  if s.inFlow then s
  else
    let (outer, indent, tokens) := closeBlocksFrom column s.mark.line s.outer s.indent s.tokens
    { s with outer := outer, indent := indent, tokens := tokens }

/-! ## Space and comments -/

/-- How far the scanner looks for a comment after another. -/
def commentReach : Nat := 512

/-- Goes over a comment and the comments on the lines after it, up to the end of
the line of the last. -/
def skipComments : Nat → Cursor → Cursor
  | 0, c => c
  | rounds + 1, c =>
    let c := c.skipToBreak
    let distance := 1 + (c.rest.tail.takeWhile fun char => isBlank char || char == '\n').length
    if distance < commentReach ∧ c.rest[distance]? = some '#' then
      skipComments rounds (c.steps distance)
    else c

/-- Whether a character is space that may stand before a token here. -/
def isSkipped (s : Scanner) (c : Char) : Bool :=
  c == ' ' || ((s.inFlow || !s.keyAllowed) && c == '\t')

/-- Goes to the next token. -/
def toToken : Nat → Scanner → Scanner
  | 0, s => s
  | rounds + 1, s =>
    let c := if s.mark.column = 0 ∧ s.cursor.isAt byteOrderMark then s.cursor.step else s.cursor
    let c := c.skipWhile s.isSkipped
    let c := if c.isAt '#' then skipComments c.rest.length c else c
    if c.next?.any isBreak then
      toToken rounds { s with cursor := c.step, keyAllowed := s.keyAllowed || !s.inFlow }
    else { s with cursor := c }

/-- Goes over a comment on the rest of the line. -/
def skipLineComment (s : Scanner) : Scanner :=
  let blanks := (s.cursor.span isBlank).length
  if blanks < commentReach ∧ s.cursor.rest[blanks]? = some '#' then
    { s with cursor := s.cursor.skipToBreak }
  else s

/-! ## Directives -/

/-- Reads a number of at most two digits. -/
def versionNumber? (digits : List Char) : Option Nat :=
  if digits.isEmpty ∨ 2 < digits.length then none
  else some (digits.foldl (fun n c => n * 10 + (c.toNat - '0'.toNat)) 0)

/-- Reads the version after its directive. -/
def readVersion (c : Cursor) : Option (TokenKind × Cursor) := do
  let c := c.skipWhile isBlank
  let major ← versionNumber? (c.span Char.isDigit)
  let c := c.skipWhile Char.isDigit
  if c.isAt '.' then
    let c := c.step
    let minor ← versionNumber? (c.span Char.isDigit)
    return (.versionDirective major minor, c.skipWhile Char.isDigit)
  else none

/-- The characters that may stand in a tag, apart from those of words. -/
def uriMarks : List Char :=
  [';', '/', '?', ':', '@', '&', '=', '+', '$', ',', '.', '!', '~', '*', '\'', '(', ')', '[', ']']

/-- Reads the bytes of a character that is written as percent escapes, of which a
number is still to come. -/
def readEscapedBytes : Nat → List Char → Option (List UInt8)
  | 0, _ => some []
  | count + 1, '%' :: high :: low :: rest => do
    let byte ← hexNumber? [high, low]
    let bytes ← readEscapedBytes count rest
    return UInt8.ofNat byte :: bytes
  | _ + 1, _ => none

/-- The number of bytes of a character, by its first byte. -/
def byteCount? (first : Nat) : Option Nat :=
  if first < 0x80 then some 1
  else if 0xc0 ≤ first ∧ first < 0xe0 then some 2
  else if 0xe0 ≤ first ∧ first < 0xf0 then some 3
  else if 0xf0 ≤ first ∧ first < 0xf8 then some 4
  else none

/-- Reads a character that is written as percent escapes, with the length of the
escapes. -/
def readUriEscape (text : List Char) : Option (List Char × Nat) := do
  let first ← readEscapedBytes 1 text
  let count ← byteCount? (first.headD 0).toNat
  let bytes ← readEscapedBytes count text
  let decoded ← String.fromUTF8? (ByteArray.mk bytes.toArray)
  return (decoded.toList, 3 * count)

/-- Reads the characters of a tag and their length. -/
def readUri : Nat → List Char → Option (List Char × Nat)
  | 0, _ => some ([], 0)
  | _, [] => some ([], 0)
  | bound + 1, c :: rest =>
    if isWordChar c || uriMarks.contains c then
      (readUri bound rest).map fun (text, length) => (c :: text, length + 1)
    else if c = '%' then do
      let (char, escape) ← readUriEscape (c :: rest)
      let (text, length) ← readUri bound ((c :: rest).drop escape)
      return (char ++ text, length + escape)
    else some ([], 0)

/-- The length of a tag handle: an exclamation mark, a word, and a second mark if
there is one. -/
def handleLength (c : Cursor) : Nat :=
  let word := c.step.span isWordChar
  let length := 1 + word.length
  if c.rest[length]? = some '!' then length + 1 else length

/-- Reads the handle and what it stands for, after the directive for tags. -/
def readTagDirective (c : Cursor) : Option (TokenKind × Cursor) := do
  let c := c.skipWhile isBlank
  if !c.isAt '!' then none
  else
    let handle := c.rest.take (handleLength c)
    if handle.length ≠ 1 ∧ handle.getLast? ≠ some '!' then none
    else
      let c := c.steps handle.length
      if !c.next?.any isBlank then none
      else
        let c := c.skipWhile isBlank
        let (stem, length) ← readUri c.rest.length c.rest
        if length = 0 ∨ !(c.steps length).spaceAfter 0 then none
        else
          return (.tagDirective (String.ofList handle) (String.ofList stem), c.steps length)

/-- Reads a directive with the rest of its line. -/
def readDirective (c : Cursor) : Option (TokenKind × Cursor) := do
  let name := c.step.span isWordChar
  let c := c.step.steps name.length
  if !c.spaceAfter 0 then none
  else
    let (kind, c) ←
      if name = ['Y', 'A', 'M', 'L'] then readVersion c
      else if name = ['T', 'A', 'G'] then readTagDirective c
      else none
    let c := c.skipWhile isBlank
    let c := if c.isAt '#' then c.skipToBreak else c
    if c.next?.any (!isBreak ·) then none else return (kind, c.step)

/-! ## Tags and anchors -/

/-- The characters that may follow the name of an anchor. -/
def anchorEnds : List Char := ['?', ':', ',', ']', '}', '%', '@', '\x60']

/-- Reads the name of an anchor or an alias after its mark. -/
def readAnchor (c : Cursor) : Option (String × Cursor) :=
  let name := c.step.span isWordChar
  let c := c.step.steps name.length
  if name.isEmpty then none
  else if c.spaceAfter 0 || c.next?.any anchorEnds.contains then some (String.ofList name, c)
  else none

/-- Reads a tag: in full between angle brackets, or by a handle and a suffix. -/
def readTag (c : Cursor) : Option (TokenKind × Cursor) := do
  let (kind, c) ←
    if c.step.isAt '<' then do
      let c := c.step.step
      let (uri, length) ← readUri c.rest.length c.rest
      let c := c.steps length
      if length = 0 ∨ !c.isAt '>' then none else some (TokenKind.tag "" (String.ofList uri), c.step)
    else do
      let handle := c.rest.take (handleLength c)
      let c := c.steps handle.length
      let (uri, length) ← readUri c.rest.length c.rest
      let c := c.steps length
      if 1 < handle.length ∧ handle.getLast? = some '!' then
        if length = 0 then none else some (.tag (String.ofList handle) (String.ofList uri), c)
      else
        let suffix := handle.tail ++ uri
        if suffix.isEmpty then some (.tag "" "!", c) else some (.tag "!" (String.ofList suffix), c)
  if c.spaceAfter 0 then return (kind, c) else none

/-! ## Tokens -/

/-- Ends all blocks and gives up the possible key, before a token that stands
outside every document. -/
def leaveBlocks (s : Scanner) : Option Scanner :=
  (s.closeBlocks (-1)).dropKey.map fun s => { s with keyAllowed := false }

/-- The end of the text. -/
def scanEnd (s : Scanner) : Option Scanner :=
  let line := if s.mark.column = 0 then s.mark.line else s.mark.line + 1
  let s := { s with cursor := ⟨[], ⟨s.mark.index, line, 0⟩⟩ }
  s.leaveBlocks.map fun s => s.addAt .streamEnd line

/-- A directive. -/
def scanDirective (s : Scanner) : Option Scanner := do
  let s ← s.leaveBlocks
  let (kind, after) ← readDirective s.cursor
  return { s.addAt kind s.mark.line with cursor := after }

/-- The marker at the start or the end of a document. -/
def scanMarker (kind : TokenKind) (s : Scanner) : Option Scanner :=
  s.leaveBlocks.map (·.take kind 3)

/-- The start of a flow collection. -/
def scanFlowStart (kind : TokenKind) (s : Scanner) : Option Scanner :=
  s.saveKey.map fun s => ({ s with keys := none :: s.keys, keyAllowed := true }).take kind 1

/-- The end of a flow collection. -/
def scanFlowEnd (kind : TokenKind) (s : Scanner) : Option Scanner :=
  s.dropKey.map fun s =>
    ({ s with keys := if s.inFlow then s.keys.tail else s.keys, keyAllowed := false }).take kind 1

/-- The mark between entries of a flow collection. -/
def scanFlowEntry (s : Scanner) : Option Scanner :=
  s.dropKey.map fun s => ({ s with keyAllowed := true }).take .flowEntry 1

/-- The mark of an entry of a block sequence. -/
def scanBlockEntry (s : Scanner) : Option Scanner :=
  if !s.inFlow && !s.keyAllowed then none
  else
    (s.openBlock s.mark.column none .blockSequenceStart s.mark.line).dropKey.map fun s =>
      ({ s with keyAllowed := true }).take .blockEntry 1

/-- The mark of a key. -/
def scanKey (s : Scanner) : Option Scanner :=
  if !s.inFlow && !s.keyAllowed then none
  else
    (s.openBlock s.mark.column none .blockMappingStart s.mark.line).dropKey.map fun s =>
      ({ s with keyAllowed := !s.inFlow }).take .key 1

/-- The mark of a value after a key that had a mark of its own, or none at all. -/
def scanValueAlone (s : Scanner) : Option Scanner :=
  if !s.inFlow && !s.keyAllowed then none
  else
    let s := s.openBlock s.mark.column none .blockMappingStart s.mark.line
    some (({ s with keyAllowed := !s.inFlow }).take .value 1)

/-- The mark of a value after a key without a mark. -/
def scanValueOf (key : PossibleKey) (s : Scanner) : Scanner :=
  let token : Token := ⟨.key, key.mark.line⟩
  let s := { s with tokens := s.tokens.insertIdxIfInBounds key.token token }
  let s := s.openBlock key.mark.column (some key.token) .blockMappingStart key.mark.line
  ({ s with keys := none :: s.keys.tail, keyAllowed := false }).take .value 1

/-- The mark of a value. -/
def scanValue (s : Scanner) : Option Scanner :=
  match s.keys with
  | some key :: others =>
    if s.isStale key then
      if key.required then none else scanValueAlone { s with keys := none :: others }
    else some (s.scanValueOf key)
  | _ => s.scanValueAlone

/-- A token that may be a key, read from here. -/
def scanRead (read : Cursor → Option (TokenKind × Cursor)) (s : Scanner) : Option Scanner := do
  let saved ← s.saveKey
  let (kind, after) ← read s.cursor
  return { saved.addAt kind s.mark.line with cursor := after, keyAllowed := false }

/-- A block scalar. -/
def scanBlock (isFolded : Bool) (s : Scanner) : Option Scanner := do
  let dropped ← s.dropKey
  let (text, after) ← readBlock isFolded s.indent s.cursor
  return { dropped.addAt (.scalar false (String.ofList text)) s.mark.line with
    cursor := after, keyAllowed := true }

/-- A plain scalar. -/
def scanPlain (s : Scanner) : Option Scanner := do
  let saved ← s.saveKey
  let scalar ← readPlain s.inFlow (s.indent + 1) s.cursor
  let scanned := { saved.addAt (.scalar true (String.ofList scalar.text)) s.mark.line with
    cursor := scalar.after, keyAllowed := scalar.lineEnded }
  return if scalar.lineEnded then scanned else scanned.skipLineComment

/-- The characters that cannot start a plain scalar. -/
def indicators : List Char :=
  ['-', '?', ':', ',', '[', ']', '{', '}', '#', '&', '*', '!', '|', '>', '\'', '"', '%', '@',
    '\x60']

/-- Whether a plain scalar starts here. -/
def startsPlain (s : Scanner) (c : Char) : Bool :=
  (!isSpace c && !indicators.contains c) ||
    (c == '-' && !(s.cursor.rest[1]?).any isBlank) ||
    (!s.inFlow && (c == '?' || c == ':') && !s.cursor.spaceAfter 1)

/-- A token inside a document that starts with a character, followed by a comment
on the rest of the line. -/
def scanContent (s : Scanner) (c : Char) : Option Scanner :=
  let commented := fun (scanned : Option Scanner) => scanned.map skipLineComment
  if c = '[' then commented (s.scanFlowStart .flowSequenceStart)
  else if c = '{' then commented (s.scanFlowStart .flowMappingStart)
  else if c = ']' then commented (s.scanFlowEnd .flowSequenceEnd)
  else if c = '}' then commented (s.scanFlowEnd .flowMappingEnd)
  else if c = ',' then commented s.scanFlowEntry
  else if c = '-' ∧ s.cursor.spaceAfter 1 then s.scanBlockEntry
  else if c = '?' ∧ (s.inFlow || s.cursor.spaceAfter 1) then commented s.scanKey
  else if c = ':' ∧ (s.inFlow || s.cursor.spaceAfter 1) then commented s.scanValue
  else if c = '*' then
    commented (s.scanRead fun c => (readAnchor c).map fun (name, c) => (.alias name, c))
  else if c = '&' then
    commented (s.scanRead fun c => (readAnchor c).map fun (name, c) => (.anchor name, c))
  else if c = '!' then commented (s.scanRead readTag)
  else if c = '|' ∧ !s.inFlow then s.scanBlock false
  else if c = '>' ∧ !s.inFlow then s.scanBlock true
  else if c = '\'' ∨ c = '"' then
    commented (s.scanRead fun cursor =>
      (readQuoted (c == '\'') cursor).map fun (text, after) =>
        (.scalar false (String.ofList text), after))
  else if s.startsPlain c then s.scanPlain
  else none

/-- Scans the next token. -/
def scanNext (s : Scanner) : Option Scanner :=
  let s := toToken (s.cursor.rest.length + 1) s
  let s := s.closeBlocks (Int.ofNat s.mark.column)
  match s.cursor.next? with
  | none => s.scanEnd
  | some c =>
    if s.mark.column = 0 ∧ c = '%' then s.scanDirective
    else if s.cursor.isAtMarker '-' then s.scanMarker .documentStart
    else if s.cursor.isAtMarker '.' then s.scanMarker .documentEnd
    else s.scanContent c

/-! ## The whole text -/

/-- Whether the text has been scanned to its end. -/
def isFinished (s : Scanner) : Bool :=
  match s.tokens.back? with
  | some token => token.kind == .streamEnd
  | none => false

/-- Scans token after token, up to the end of the text or a fault. -/
def scanAll : Nat → Scanner → Scanner
  | 0, s => s
  | rounds + 1, s =>
    if s.isFinished then s
    else
      match s.scanNext with
      | some s => scanAll rounds s
      | none => s

/-- The numbers of the tokens that may still turn out to start a key. -/
def unsettled (s : Scanner) : List Nat :=
  s.keys.filterMap fun key? =>
    match key? with
    | some key => if s.isStale key && !key.required then none else some key.token
    | none => none

/-- The tokens that can be used: all of them when the text was scanned to its end. -/
def usable (s : Scanner) : List Token :=
  if s.isFinished then s.tokens.toList
  else
    let limit := s.unsettled.foldl min (s.tokens.size - 2)
    s.tokens.toList.take limit

end Scanner

/-- The usable tokens of a text. -/
def tokensOf (text : List Char) : List Token :=
  let text := if text.head? = some byteOrderMark then text.tail else text
  ((Scanner.start (unifyBreaks text)).scanAll (text.length + 3)).usable

end CapLiveness.Yaml
