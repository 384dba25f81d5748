/-!
# Dates and times in text

A text is a date when it has a year of four digits, a month and a day, with
hyphens between them, and the day exists. A time of day may follow: after a `T`,
with a zone, or after spaces, without one. Seconds may have a fraction.
-/

set_option autoImplicit false

namespace CapLiveness.Text.Instant

/-- Whether a year has a leap day. -/
def isLeap (year : Nat) : Bool := year % 4 == 0 && (year % 100 != 0 || year % 400 == 0)

/-- The number of days of a month, zero for a number that is no month. -/
def daysIn (year month : Nat) : Nat :=
  match month with
  | 1 | 3 | 5 | 7 | 8 | 10 | 12 => 31
  | 4 | 6 | 9 | 11 => 30
  | 2 => if isLeap year then 29 else 28
  | _ => 0

/-- The number that digits write. -/
def number (digits : List Char) : Nat :=
  digits.foldl (fun n c => n * 10 + (c.toNat - '0'.toNat)) 0

/-- Reads a number of one or two digits, as many as there are. -/
def readShort : List Char → Option (Nat × List Char)
  | a :: b :: rest =>
    if a.isDigit then
      if b.isDigit then some (number [a, b], rest) else some (number [a], b :: rest)
    else none
  | [a] => if a.isDigit then some (number [a], []) else none
  | [] => none

/-- Reads a number of one or two digits below a limit. -/
def readBelow (limit : Nat) (text : List Char) : Option (List Char) :=
  match readShort text with
  | some (n, rest) => if n < limit then some rest else none
  | none => none

/-- Reads a given character. -/
def readChar (c : Char) (text : List Char) : Option (List Char) :=
  if text.head? = some c then some text.tail else none

/-- Goes over a fraction, if there is one. -/
def skipFraction : List Char → List Char
  | mark :: digit :: rest =>
    if (mark = '.' ∨ mark = ',') ∧ digit.isDigit then rest.dropWhile Char.isDigit
    else mark :: digit :: rest
  | text => text

/-- Reads a date. -/
def readDate (text : List Char) : Option (List Char) := do
  let year := text.takeWhile Char.isDigit
  if year.length ≠ 4 then none
  else
    let (month, rest) ← readChar '-' (text.drop 4) >>= readShort
    let (day, rest) ← readChar '-' rest >>= readShort
    if 1 ≤ day ∧ day ≤ daysIn (number year) month then some rest else none

/-- Reads a time of day. -/
def readTime (text : List Char) : Option (List Char) := do
  let rest ← readBelow 24 text >>= readChar ':' >>= readBelow 60 >>= readChar ':' >>= readBelow 60
  return skipFraction rest

/-- Whether a text is a zone: the letter `Z`, or hours and minutes with a sign. -/
def isZone : List Char → Bool
  | ['Z'] => true
  | [sign, a, b, ':', c, d] =>
    (sign == '+' || sign == '-') && [a, b, c, d].all Char.isDigit &&
      decide (number [a, b] ≤ 24) && decide (number [c, d] ≤ 60)
  | _ => false

/-- Whether what follows a date is nothing or a time of day. -/
def isTimeAfterDate : List Char → Bool
  | [] => true
  | 'T' :: rest | 't' :: rest => ((readTime rest).map isZone).getD false
  | ' ' :: rest => ((readTime (rest.dropWhile (· == ' '))).map List.isEmpty).getD false
  | _ => false

/-- Whether a text is a date, with or without a time of day. -/
def isInstant (text : List Char) : Bool := ((readDate text).map isTimeAfterDate).getD false

end CapLiveness.Text.Instant
