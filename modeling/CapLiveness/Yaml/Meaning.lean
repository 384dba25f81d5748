import CapLiveness.Text.Instant
import CapLiveness.Text.Integer

/-!
# What a scalar means

A plain scalar is null, a truth value, a number, a date or a text, by the way it
is written. The same reading decides whether a scalar fits a tag that is given
explicitly.
-/

set_option autoImplicit false

namespace CapLiveness.Yaml

open CapLiveness.Text

/-- The short form of a tag: tags of the YAML language start with two marks. -/
def shortTag (tag : String) : String :=
  let stem := "tag:yaml.org,2002:"
  if tag.startsWith stem then "!!" ++ tag.drop stem.length else tag

/-! ## Floating-point numbers -/

/-- A floating-point number, as far as its whole part matters. -/
inductive FloatMeaning where
  | finite (value : Float)
  | infinity (negative : Bool)
  | nan

/-- A decimal number: its digits without the point, and a power of ten. -/
structure Decimal where
  negative : Bool
  digits : Nat
  exponent : Int

/-- Reads the exponent of a decimal number, which may be missing. -/
def readExponent : List Char → Option Int
  | [] => some 0
  | mark :: rest =>
    if mark = 'e' ∨ mark = 'E' then
      let (negative, digits) := match rest with
        | '-' :: digits => (true, digits)
        | '+' :: digits => (false, digits)
        | digits => (false, digits)
      if digits.isEmpty ∨ !digits.all Char.isDigit then none
      else
        let n := Int.ofNat (Instant.number digits)
        some (if negative then -n else n)
    else none

/-- Reads a decimal number: digits with at most one point among them, and an
exponent. -/
def readDecimal (text : List Char) : Option Decimal := do
  let (negative, text) := match text with
    | '-' :: rest => (true, rest)
    | '+' :: rest => (false, rest)
    | text => (false, text)
  let whole := text.takeWhile Char.isDigit
  let rest := text.dropWhile Char.isDigit
  let (fraction, rest) := match rest with
    | '.' :: rest => (rest.takeWhile Char.isDigit, rest.dropWhile Char.isDigit)
    | rest => ([], rest)
  if whole.isEmpty ∧ fraction.isEmpty then none
  else
    let exponent ← readExponent rest
    return ⟨negative, Instant.number (whole ++ fraction), exponent - Int.ofNat fraction.length⟩

/-- The nearest floating-point number to a decimal number, if it is finite. -/
def Decimal.toFloat? (d : Decimal) : Option Float :=
  let magnitude := Int.ofNat (toString d.digits).length + d.exponent
  if d.digits = 0 ∨ magnitude < -400 then some 0.0
  else if 400 < magnitude then none
  else
    let value := Float.ofScientific d.digits (d.exponent < 0) d.exponent.natAbs
    if value.isFinite then some (if d.negative then -value else value) else none

/-- The whole number that a floating-point number is cut to, as a signed 64-bit
word. Numbers beyond the upper limit, and what is no number, have none; what lies
outside the words otherwise becomes the lowest word. -/
def FloatMeaning.toWord? : FloatMeaning → Option Int
  | .finite value =>
    if value ≤ 9223372036854775808.0 then
      if value < 9223372036854775808.0 ∧ -9223372036854775808.0 ≤ value then
        some value.toInt64.toInt
      else some (-9223372036854775808)
    else none
  | .infinity negative => if negative then some (-9223372036854775808) else none
  | .nan => none

/-! ## Meanings -/

/-- What a scalar means. -/
inductive Meaning where
  | null
  | bool (value : Bool)
  | integer (value : Int)
  | float (value : FloatMeaning)
  | instant
  | text (value : String)

/-- The tag of a meaning. -/
def Meaning.tag : Meaning → String
  | .null => "!!null"
  | .bool _ => "!!bool"
  | .integer _ => "!!int"
  | .float _ => "!!float"
  | .instant => "!!timestamp"
  | .text _ => "!!str"

/-- The words with a meaning of their own. -/
def wordMeaning? (text : String) : Option Meaning :=
  match text with
  | "" | "~" | "null" | "Null" | "NULL" => some .null
  | "true" | "True" | "TRUE" => some (.bool true)
  | "false" | "False" | "FALSE" => some (.bool false)
  | ".nan" | ".NaN" | ".NAN" => some (.float .nan)
  | ".inf" | ".Inf" | ".INF" | "+.inf" | "+.Inf" | "+.INF" => some (.float (.infinity false))
  | "-.inf" | "-.Inf" | "-.INF" => some (.float (.infinity true))
  | _ => none

/-- The number that digits of a base write after an announcement that stands where
it is no part of the usual notation. -/
def announcedInteger? (text : List Char) : Option Int :=
  let signed (base : Nat) (digits : List Char) : Option Int :=
    (Integer.parseSigned (.fixed base) digits).toOption
  let either (base : Nat) (digits : List Char) : Option Int :=
    (signed base digits).or
      ((Integer.parseUnsigned (.fixed base) digits).toOption.map Int.ofNat)
  match text with
  | '0' :: 'b' :: digits => either 2 digits
  | '-' :: '0' :: 'b' :: digits => signed 2 ('-' :: digits)
  | '0' :: 'o' :: digits => either 8 digits
  | '-' :: '0' :: 'o' :: digits => signed 8 ('-' :: digits)
  | _ => none

/-- The integer that a text without underscores writes. -/
def integer? (text : List Char) : Option Int :=
  (Integer.parseSigned .announced text).toOption.or
    ((Integer.parseUnsigned .announced text).toOption.map Int.ofNat)

/-- The decimal number that a text without underscores writes, as a floating-point
number. -/
def float? (text : List Char) : Option FloatMeaning :=
  (readDecimal text >>= Decimal.toFloat?).map .finite

/-- The decimal number that a text with a point at its start writes. Underscores
may stand between its digits. -/
def pointFloat? (text : List Char) : Option FloatMeaning :=
  if text.contains '_' && !Integer.underscoresFit false .start text then none
  else float? (text.filter (· != '_'))

/-- The number that a text writes, if it writes one. Underscores do not count. -/
def numberMeaning? (text : List Char) : Option Meaning :=
  let digits := text.filter (· != '_')
  (((integer? digits).map Meaning.integer).or ((float? digits).map .float)).or
    ((announcedInteger? digits).map .integer)

/-- Whether a text may start a number. -/
def startsNumber (text : List Char) : Bool :=
  match text with
  | c :: _ => c.isDigit || c == '+' || c == '-'
  | [] => false

/-- What a text means as a plain scalar, where dates may be recognised or not. -/
def plainMeaning (dates : Bool) (text : String) : Meaning :=
  match wordMeaning? text with
  | some meaning => meaning
  | none =>
    let chars := text.toList
    if chars.head? = some '.' then ((pointFloat? chars).map Meaning.float).getD (.text text)
    else if startsNumber chars then
      if dates && Instant.isInstant chars then .instant
      else (numberMeaning? chars).getD (.text text)
    else .text text

/-- The tags that a plain scalar can be checked against. -/
def checkedTags : List String := ["!!bool", "!!int", "!!float", "!!null", "!!timestamp"]

/-- What a scalar means under a tag, if it fits the tag. A scalar with a tag of its
own kind is a text. -/
def meaning? (tag text : String) : Option Meaning :=
  if tag ∈ checkedTags then
    let meaning := plainMeaning (tag == "!!timestamp") text
    if meaning.tag = tag then some meaning
    else
      match meaning with
      | .integer value =>
        if tag = "!!float" ∧ value < 9223372036854775808 then
          some (.float (.finite (Float.ofInt value)))
        else none
      | _ => none
  else some (.text text)

end CapLiveness.Yaml
