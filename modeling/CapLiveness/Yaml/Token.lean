/-!
# YAML tokens

The marks and scalars that a YAML text consists of, each with the line on which it
starts. Blocks that are shown by indentation alone have tokens of their own for
their starts and ends.
-/

set_option autoImplicit false

namespace CapLiveness.Yaml

/-- What a token is. -/
inductive TokenKind where
  | streamStart
  | streamEnd
  | versionDirective (major minor : Nat)
  | tagDirective (handle stem : String)
  | documentStart
  | documentEnd
  | blockSequenceStart
  | blockMappingStart
  | blockEnd
  | flowSequenceStart
  | flowSequenceEnd
  | flowMappingStart
  | flowMappingEnd
  | blockEntry
  | flowEntry
  | key
  | value
  | alias (name : String)
  | anchor (name : String)
  /-- A tag; the handle is empty when the suffix is the whole tag. -/
  | tag (handle suffix : String)
  | scalar (isPlain : Bool) (text : String)
deriving DecidableEq

/-- A token and the line on which it starts, counted from zero. -/
structure Token where
  kind : TokenKind
  line : Nat
deriving DecidableEq

end CapLiveness.Yaml
