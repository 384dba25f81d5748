import CapLiveness.Text.Printable

/-!
# Quoted text

A text in double quotes, on one line. The quote and the backslash are written
after a backslash, the seven usual control characters by their letter, every
other printable character as it is, and what remains by its code: two
hexadecimal digits below U+0080, four up to U+FFFF, eight above.
-/

set_option autoImplicit false

namespace CapLiveness.Text

open Printable (isPrintable)

/-- The lower-case hexadecimal digit of a number below sixteen. -/
def hexDigit (n : Nat) : Char :=
  if n < 10 then Char.ofNat (48 + n) else Char.ofNat (87 + n)

/-- The lowest `width` hexadecimal digits of a number, most significant first. -/
def hexDigits : Nat → Nat → List Char
  | 0, _ => []
  | width + 1, n => hexDigits width (n / 16) ++ [hexDigit (n % 16)]

/-- A character that cannot stand as it is, by its code. -/
def escapeByCode (c : Char) : List Char :=
  if c.toNat < 0x80 then '\\' :: 'x' :: hexDigits 2 c.toNat
  else if c.toNat < 0x10000 then '\\' :: 'u' :: hexDigits 4 c.toNat
  else '\\' :: 'U' :: hexDigits 8 c.toNat

/-- One character inside quotes of the given kind. -/
def escapeWithin (quote c : Char) : List Char :=
  if c = quote || c = '\\' then ['\\', c]
  else if isPrintable c then [c]
  else match c.toNat with
    | 0x07 => ['\\', 'a']
    | 0x08 => ['\\', 'b']
    | 0x0c => ['\\', 'f']
    | 0x0a => ['\\', 'n']
    | 0x0d => ['\\', 'r']
    | 0x09 => ['\\', 't']
    | 0x0b => ['\\', 'v']
    | _ => escapeByCode c

/-- The characters of a text in double quotes. -/
def quotedChars (text : List Char) : List Char :=
  '"' :: text.flatMap (escapeWithin '"') ++ ['"']

/-- A text in double quotes: `a"b` becomes `"a\"b"`. -/
def quoted (text : String) : String :=
  String.ofList (quotedChars text.toList)

/-- A character in single quotes: `x` becomes `'x'`. -/
def quotedChar (c : Char) : String :=
  String.ofList ('\'' :: escapeWithin '\'' c ++ ['\''])

end CapLiveness.Text
