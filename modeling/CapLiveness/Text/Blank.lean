/-!
# Blanks

The white-space characters of Unicode: the ASCII blanks with the vertical tab
and the form feed, the next-line control, the no-break space, and the spaces
and separators of the general punctuation blocks. Trimming removes them from
both ends of a text.
-/

set_option autoImplicit false

namespace CapLiveness.Text

/-- White space: `\t`, `\n`, `\v`, `\f`, `\r`, the space, and the non-ASCII
blanks U+0085, U+00A0, U+1680, U+2000 to U+200A, U+2028, U+2029, U+202F, U+205F
and U+3000. -/
def isBlank (c : Char) : Bool :=
  let code := c.toNat
  (0x09 ≤ code && code ≤ 0x0d) || code == 0x20 || code == 0x85 || code == 0xa0 ||
    code == 0x1680 || (0x2000 ≤ code && code ≤ 0x200a) || code == 0x2028 || code == 0x2029 ||
    code == 0x202f || code == 0x205f || code == 0x3000

/-- A text without the blanks at its two ends. -/
def trim (text : List Char) : List Char :=
  (((text.dropWhile isBlank).reverse).dropWhile isBlank).reverse

end CapLiveness.Text
