/-!
# Integers in text

Whole numbers that fit 64 bits, in a given base or with the base taken from the
text: `0x`, `0o` and `0b` announce hexadecimal, octal and binary digits, and a
leading zero announces octal digits. Only when the base is taken from the text may
underscores stand between digits.

Reading stops at the first fault, so a number that is too large is reported before
a later character that is no digit.
-/

set_option autoImplicit false

namespace CapLiveness.Text

/-- Why a text is no integer. -/
inductive IntegerFault where
  /-- The text is not written as an integer. -/
  | malformed
  /-- The integer does not fit. -/
  | tooLarge
deriving DecidableEq

namespace Integer

/-- The base of the digits: fixed, or announced by the text. -/
inductive Base where
  | fixed (base : Nat)
  | announced
deriving DecidableEq

/-- The value of a digit of any base up to thirty-six. -/
def digit? (c : Char) : Option Nat :=
  if '0' ≤ c ∧ c ≤ '9' then some (c.toNat - '0'.toNat)
  else if 'a' ≤ c ∧ c ≤ 'z' then some (c.toNat - 'a'.toNat + 10)
  else if 'A' ≤ c ∧ c ≤ 'Z' then some (c.toNat - 'A'.toNat + 10)
  else none

/-- The base that a text announces and the digits that follow. -/
def announced : List Char → Nat × List Char
  | '0' :: mark :: digit :: rest =>
    if mark = 'b' ∨ mark = 'B' then (2, digit :: rest)
    else if mark = 'o' ∨ mark = 'O' then (8, digit :: rest)
    else if mark = 'x' ∨ mark = 'X' then (16, digit :: rest)
    else (8, mark :: digit :: rest)
  | '0' :: rest => (8, rest)
  | text => (10, text)

/-- Adds digits to a number up to a limit. -/
def addDigits (limit base : Nat) (underscores : Bool) : Nat → List Char → Except IntegerFault Nat
  | n, [] => .ok n
  | n, c :: rest =>
    if underscores ∧ c = '_' then addDigits limit base underscores n rest
    else
      match digit? c with
      | none => .error .malformed
      | some d =>
        if base ≤ d then .error .malformed
        else if limit < n * base + d then .error .tooLarge
        else addDigits limit base underscores (n * base + d) rest

/-- What stands before a character, as far as underscores are concerned. -/
inductive Before where
  | start
  | digit
  | underscore
  | other
deriving DecidableEq

/-- Whether every underscore stands between digits. -/
def underscoresFit (hex : Bool) : Before → List Char → Bool
  | before, [] => before != .underscore
  | before, c :: rest =>
    if ('0' ≤ c ∧ c ≤ '9') ∨ (hex ∧ (('a' ≤ c ∧ c ≤ 'f') ∨ ('A' ≤ c ∧ c ≤ 'F'))) then
      underscoresFit hex .digit rest
    else if c = '_' then before == .digit && underscoresFit hex .underscore rest
    else before != .underscore && underscoresFit hex .other rest

/-- Whether the underscores of an unsigned number are well placed. An announced
base counts as a digit. -/
def underscoresAllowed : List Char → Bool
  | '0' :: mark :: rest =>
    if mark = 'x' ∨ mark = 'X' then underscoresFit true .digit rest
    else if mark = 'b' ∨ mark = 'B' ∨ mark = 'o' ∨ mark = 'O' then underscoresFit false .digit rest
    else underscoresFit false .start ('0' :: mark :: rest)
  | text => underscoresFit false .start text

/-- The largest unsigned 64-bit number. -/
def maxUnsigned : Nat := (1 <<< 64) - 1

/-- Reads an unsigned number. -/
def parseUnsigned (base : Base) (text : List Char) : Except IntegerFault Nat :=
  if text.isEmpty then .error .malformed
  else
    match base with
    | .fixed base => addDigits maxUnsigned base false 0 text
    | .announced => do
      let (base, digits) := announced text
      let n ← addDigits maxUnsigned base true 0 digits
      if digits.contains '_' && !underscoresAllowed text then .error .malformed else .ok n

/-- Reads a magnitude that has to stay below a limit. -/
def parseMagnitude (base : Base) (text : List Char) (limit : Nat) : Except IntegerFault Nat := do
  let n ← parseUnsigned base text
  if limit < n then .error .tooLarge else .ok n

/-- Reads a signed number. -/
def parseSigned (base : Base) : List Char → Except IntegerFault Int
  | '-' :: rest => (parseMagnitude base rest (1 <<< 63)).map fun n => - Int.ofNat n
  | '+' :: rest => (parseMagnitude base rest ((1 <<< 63) - 1)).map Int.ofNat
  | text => (parseMagnitude base text ((1 <<< 63) - 1)).map Int.ofNat

end Integer

end CapLiveness.Text
