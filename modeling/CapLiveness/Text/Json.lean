import CapLiveness.Text.Quoted

/-!
# JSON values and their text

Values are written over several lines: each element of an array and each member
of an object has a line of its own, indented by two blanks for each level. An
empty array or object is written without a line break.

Texts are written so that they can stand inside a web page: angle brackets,
ampersands and the two Unicode line separators are written as escapes.
-/

set_option autoImplicit false

namespace CapLiveness.Text

/-- A JSON value. The members of an object keep their order. -/
inductive Json where
  | null
  | bool (value : Bool)
  | number (value : Int)
  | text (value : String)
  | array (elements : List Json)
  | object (members : List (String × Json))

namespace Json

/-- The characters that have a short escape, with its letter. -/
def shortEscapes : List (Char × Char) :=
  [('"', '"'), ('\\', '\\'), ('\x08', 'b'), ('\x0c', 'f'), ('\n', 'n'), ('\r', 'r'), ('\t', 't')]

/-- Whether a character is written as an escape with four digits. -/
def needsEscape (c : Char) : Bool :=
  c.toNat < 0x20 || c == '<' || c == '>' || c == '&' || c.toNat == 0x2028 || c.toNat == 0x2029

/-- A character inside a written text. -/
def escapedChar (c : Char) : List Char :=
  match shortEscapes.lookup c with
  | some letter => ['\\', letter]
  | none => if needsEscape c then '\\' :: 'u' :: hexDigits 4 c.toNat else [c]

/-- A written text. -/
def escapedText (text : String) : String :=
  String.ofList ('"' :: text.toList.flatMap escapedChar ++ ['"'])

/-- A line break and the indentation of a level. -/
def newLine (level : Nat) : String := String.ofList ('\n' :: List.replicate (2 * level) ' ')

/-- Items with commas between them, each on a line of its own. -/
def block (opening closing : String) (level : Nat) (items : List String) : String :=
  if items.isEmpty then opening ++ closing
  else
    opening ++ newLine (level + 1) ++ ("," ++ newLine (level + 1)).intercalate items ++
      newLine level ++ closing

mutual

/-- The text of a value at a level of indentation. -/
def render (level : Nat) : Json → String
  | .null => "null"
  | .bool value => if value then "true" else "false"
  | .number value => toString value
  | .text value => escapedText value
  | .array elements => block "[" "]" level (renderElements (level + 1) elements)
  | .object members => block "\x7b" "\x7d" level (renderMembers (level + 1) members)

/-- The texts of the elements of an array. -/
def renderElements (level : Nat) : List Json → List String
  | [] => []
  | element :: rest => render level element :: renderElements level rest

/-- The texts of the members of an object. -/
def renderMembers (level : Nat) : List (String × Json) → List String
  | [] => []
  | (key, value) :: rest =>
    (escapedText key ++ ": " ++ render level value) :: renderMembers level rest

end

/-- The text of a value, with a line break at its end. -/
def document (value : Json) : String := value.render 0 ++ "\n"

end Json

end CapLiveness.Text
