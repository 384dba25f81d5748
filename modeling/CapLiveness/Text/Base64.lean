/-!
# Base 64

Bytes written with sixty-four characters, four of them for three bytes. Line
breaks between the characters do not count, and the last group is filled up with
equals signs.
-/

set_option autoImplicit false

namespace CapLiveness.Text.Base64

/-- The six bits that a character stands for. -/
def bits? (c : Char) : Option Nat :=
  if 'A' ≤ c ∧ c ≤ 'Z' then some (c.toNat - 'A'.toNat)
  else if 'a' ≤ c ∧ c ≤ 'z' then some (c.toNat - 'a'.toNat + 26)
  else if '0' ≤ c ∧ c ≤ '9' then some (c.toNat - '0'.toNat + 52)
  else if c = '+' then some 62
  else if c = '/' then some 63
  else none

/-- The bytes of groups of four characters. -/
def decodeGroups : List Char → Option (List UInt8)
  | [] => some []
  | [a, b, '=', '='] => do
    let n := (← bits? a) * 64 + (← bits? b)
    return [UInt8.ofNat (n / 16)]
  | [a, b, c, '='] => do
    let n := ((← bits? a) * 64 + (← bits? b)) * 64 + (← bits? c)
    return [UInt8.ofNat (n / 1024), UInt8.ofNat (n / 4)]
  | a :: b :: c :: d :: rest => do
    let n := (((← bits? a) * 64 + (← bits? b)) * 64 + (← bits? c)) * 64 + (← bits? d)
    let bytes ← decodeGroups rest
    return UInt8.ofNat (n / 65536) :: UInt8.ofNat (n / 256) :: UInt8.ofNat n :: bytes
  | _ => none

/-- The text that is written in base 64, if there is one. -/
def decode (text : String) : Option String := do
  let bytes ← decodeGroups (text.toList.filter fun c => c != '\n' && c != '\r')
  String.fromUTF8? (ByteArray.mk bytes.toArray)

end CapLiveness.Text.Base64
