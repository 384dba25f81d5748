import CapLiveness.Yaml.Meaning

/-!
# YAML nodes

The tree that a YAML document stands for. A node knows the line on which it
starts, counted from one, and its tag in short form. An alias names the node it
stands for by the number of that node's anchor, so a node can contain an alias of
itself; aliases are numbered too, so that such circles can be noticed.
-/

set_option autoImplicit false

namespace CapLiveness.Yaml

/-- A node of a document. -/
inductive Node where
  | scalar (line : Nat) (tag value : String)
  | sequence (line : Nat) (tag : String) (items : List Node)
  | mapping (line : Nat) (tag : String) (pairs : List (Node × Node))
  | alias (line : Nat) (name : String) (number anchor : Nat)

namespace Node

instance : Inhabited Node := ⟨.scalar 0 "!!null" ""⟩

/-- The line on which a node starts. -/
def line : Node → Nat
  | .scalar line _ _ | .sequence line _ _ | .mapping line _ _ | .alias line _ _ _ => line

/-- The kinds of nodes. -/
inductive Kind where
  | scalar
  | sequence
  | mapping
  | alias
deriving DecidableEq

/-- The kind of a node. -/
def kind : Node → Kind
  | .scalar _ _ _ => .scalar
  | .sequence _ _ _ => .sequence
  | .mapping _ _ _ => .mapping
  | .alias _ _ _ _ => .alias

/-- The text of a scalar or the name of an alias; collections have none. -/
def value : Node → String
  | .scalar _ _ value => value
  | .alias _ name _ _ => name
  | .sequence _ _ _ | .mapping _ _ _ => ""

/-- The tag of a node; an alias has none. -/
def tag : Node → String
  | .scalar _ tag _ | .sequence _ tag _ | .mapping _ tag _ => tag
  | .alias _ _ _ _ => ""

/-- The tag of keys that merge the fields of another mapping. -/
def mergeTag : String := "!!merge"

/-- Whether a key stands for the fields of another mapping. -/
def isMerge : Node → Bool
  | .scalar _ tag value => value == "<<" && tag == mergeTag
  | _ => false

end Node

/-- A document: its root, and its nodes with anchors by their numbers. -/
structure Document where
  root : Node
  anchors : Array Node

end CapLiveness.Yaml
