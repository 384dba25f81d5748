import CapLiveness.Text.Quoted

/-!
# Failures of reading YAML

Reading a value of a known shape from a YAML text fails in three ways: the text
has no document, the text cannot be read at all, or values of the document do
not fit the shape. Misfits are collected over the whole document, each with its
line, so that one reading reports all of them.
-/

set_option autoImplicit false

namespace CapLiveness.Yaml

/-- A place where a document does not fit the expected shape. -/
inductive Mismatch where
  /-- A value of one type stands where another is expected. The text of a
  collection is empty. -/
  | wrongType (line : Nat) (tag value expected : String)
  /-- A mapping has a key that its record has no field for. -/
  | unknownField (line : Nat) (field record : String)
  /-- A mapping has one key twice. -/
  | repeatedKey (line : Nat) (key : String) (firstLine : Nat)
  /-- Two different keys of a mapping name one field. -/
  | repeatedField (line : Nat) (field record : String)
deriving DecidableEq

/-- The characters that fit into `room` bytes; a character that is cut leaves one
replacement character for each of its bytes. -/
def cutToBytes : Nat → List Char → List Char
  | _, [] => []
  | room, c :: rest =>
    if c.utf8Size ≤ room then c :: cutToBytes (room - c.utf8Size) rest
    else List.replicate room '�'

/-- A value as messages show it: at most ten bytes, otherwise the first seven
followed by dots. -/
def excerpt (value : String) : String :=
  if value.utf8ByteSize ≤ 10 then value
  else String.ofList (cutToBytes 7 value.toList) ++ "..."

/-- Whether a tag claims that its value is a collection. The text of such a value
follows its tag bare, and it is not empty for a scalar with a wrong tag. -/
def claimsCollection (tag : String) : Bool :=
  tag == "!!seq" || tag == "!!map"

/-- The wording of a mismatch. -/
def Mismatch.message : Mismatch → String
  | .wrongType line tag value expected =>
    let shown := if claimsCollection tag then value else " `" ++ excerpt value ++ "`"
    s!"line {line}: cannot unmarshal {tag}{shown} into {expected}"
  | .unknownField line field record => s!"line {line}: field {field} not found in type {record}"
  | .repeatedKey line key firstLine =>
    s!"line {line}: mapping key {Text.quoted key} already defined at line {firstLine}"
  | .repeatedField line field record =>
    s!"line {line}: field {field} already set in type {record}"

/-- Why no value was read. -/
inductive Failure where
  /-- The text has no document. -/
  | noDocument
  /-- The text is not well formed, or a tag, an alias or a merge in it has no meaning. -/
  | unreadable
  /-- Values of the document do not fit. -/
  | mismatched (details : List Mismatch)
deriving DecidableEq

/-- The wording of a failure. -/
def Failure.message : Failure → String
  | .noDocument => "EOF"
  | .unreadable => "yaml: the text cannot be read"
  | .mismatched details =>
    "yaml: unmarshal errors:" ++ String.join (details.map fun d => "\n  " ++ d.message)

end CapLiveness.Yaml
