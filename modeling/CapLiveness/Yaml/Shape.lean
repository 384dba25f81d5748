import CapLiveness.Text.Base64
import CapLiveness.Yaml.Failure
import CapLiveness.Yaml.Node

/-!
# Shapes of documents

A shape reads a value from a node. A node that does not fit is noted, and reading
goes on, so that all mismatches of a document are reported together. A null leaves
its place unset. Only some faults stop the reading at once (`Stop`).

Records are read from mappings by the names of their fields. A merge key stands
for the fields of other mappings; they are read after the fields of the mapping
itself and never replace them, and of several mappings the first to give a field
wins.
-/

set_option autoImplicit false

namespace CapLiveness.Yaml

/-- Why reading stops at once. -/
inductive Stop where
  /-- A tag, an alias or a merge has no meaning. -/
  | unreadable
  /-- A value is refused for a reason of its own. -/
  | refused (message : String)

/-- What reading depends on. -/
structure ReadingContext where
  anchors : Array Node
  /-- The numbers of the aliases that are being followed. -/
  active : List Nat
  /-- Whether fields that a record does not have are reported. -/
  strict : Bool
  /-- A bound on the depth of merges. -/
  mergeDepth : Nat

/-- What reading has found so far. -/
structure ReadingState where
  mismatches : List Mismatch
  /-- The number of nodes read, each time they are read. -/
  nodes : Nat
  /-- The number of them that were read through an alias. -/
  aliased : Nat

/-- A step of reading. -/
abbrev Reading (α : Type) := ReaderT ReadingContext (StateT ReadingState (Except Stop)) α

/-- Reads a value from a node, if the node fits and is not null. -/
abbrev Shape (α : Type) := Node → Reading (Option α)

namespace Shape

variable {α σ : Type}

/-- Stops the reading. -/
def stop (reason : Stop) : Reading α := fun _ _ => .error reason

/-- Notes a mismatch. -/
def note (mismatch : Mismatch) : Reading Unit :=
  modify fun state => { state with mismatches := state.mismatches ++ [mismatch] }

/-- Notes that a node has the wrong type. -/
def noteWrongType (expected : String) (node : Node) : Reading Unit :=
  note (.wrongType node.line node.tag node.value expected)

/-- Counts a node. A document in which nearly everything is read through aliases is
refused. -/
def count : Reading Unit := do
  let context ← read
  let state ← get
  let aliased := if context.active.isEmpty then state.aliased else state.aliased + 1
  let nodes := state.nodes + 1
  set { state with nodes := nodes, aliased := aliased }
  if 100 < aliased ∧ 1000 < nodes ∧ 99 * nodes < 100 * aliased then stop .unreadable

/-- Reads the node that a node stands for. An alias inside the node that it stands
for is refused. -/
def followed (shape : Shape α) : Shape α := fun node => do
  count
  match node with
  | .alias _ _ number anchor =>
    let context ← read
    if number ∈ context.active then stop .unreadable
    else
      withReader (fun context => { context with active := number :: context.active }) do
        count
        shape (context.anchors.getD anchor default)
  | node => shape node

/-! ## Scalars -/

/-- What a scalar means under its tag. -/
def meaningOf (tag value : String) : Reading Meaning :=
  let meaning :=
    if tag = "!!binary" then (Text.Base64.decode value).map Meaning.text else meaning? tag value
  match meaning with
  | some meaning => pure meaning
  | none => stop .unreadable

/-- The keys of a mapping that stand in it twice, each pair of them. -/
def repeatedKeys : List Node → List Mismatch
  | [] => []
  | key :: others =>
    (others.filter fun other => other.kind == key.kind && other.value == key.value).map
      (fun other => .repeatedKey other.line other.value key.line) ++ repeatedKeys others

/-- Notes repeated keys, and says whether there are any. -/
def noteRepeatedKeys (pairs : List (Node × Node)) : Reading Bool := do
  let found := repeatedKeys (pairs.map (·.1))
  found.forM note
  return !found.isEmpty

/-- Notes that a collection stands where it is not expected. -/
def unexpected (expected : String) (node : Node) : Reading (Option α) := do
  match node with
  | .mapping _ _ pairs =>
    if ← noteRepeatedKeys pairs then return none
  | _ => pure ()
  noteWrongType expected node
  return none

/-- Reads a scalar by its meaning and its text. -/
def scalar (expected : String) (accept : Meaning → String → Option α) : Shape α :=
  followed fun node => do
    match node with
    | .scalar _ tag value =>
      match ← meaningOf tag value with
      | .null => return none
      | meaning =>
        match accept meaning value with
        | some result => return some result
        | none =>
          noteWrongType expected node
          return none
    | _ => unexpected expected node

/-- Any scalar that is not null, by its text. -/
def text : Shape String :=
  scalar "string" fun meaning value =>
    match meaning with
    | .text text => some text
    | _ => some value

/-- The words for truth values that are texts otherwise. -/
def flagWord? (word : String) : Option Bool :=
  if word ∈ ["y", "Y", "yes", "Yes", "YES", "on", "On", "ON"] then some true
  else if word ∈ ["n", "N", "no", "No", "NO", "off", "Off", "OFF"] then some false
  else none

/-- A truth value. -/
def flag : Shape Bool :=
  scalar "bool" fun meaning _ =>
    match meaning with
    | .bool value => some value
    | .text word => flagWord? word
    | _ => none

/-- A whole number that fits 64 bits. Numbers with a fraction are cut. -/
def integer : Shape Int :=
  scalar "int" fun meaning _ =>
    match meaning with
    | .integer value => if value < 9223372036854775808 then some value else none
    | .float value => value.toWord?
    | _ => none

/-! ## Lists -/

/-- A sequence, without the items that are null or do not fit. -/
def list (expected : String) (item : Shape α) : Shape (List α) :=
  followed fun node => do
    match node with
    | .sequence _ _ items => return some (← items.filterMapM item)
    | .scalar _ tag value =>
      match ← meaningOf tag value with
      | .null => return none
      | _ =>
        noteWrongType expected node
        return none
    | _ => unexpected expected node

/-! ## Records -/

/-- A field of a record. -/
structure RecordField (σ : Type) where
  name : String
  read : Node → σ → Reading σ

/-- A field that takes a value of a shape, and stays as it is without one. -/
def RecordField.of (name : String) (shape : Shape α) (put : α → σ → σ) : RecordField σ :=
  ⟨name, fun node record => do
    match ← shape node with
    | some value => return put value record
    | none => return record⟩

/-- How far a mapping has been read into a record. -/
structure RecordState (σ : Type) where
  record : σ
  /-- The fields that this mapping has given. -/
  given : List String
  /-- The keys that merged mappings must not give again, while merging. -/
  settled : Option (List String)
  /-- The value of the last merge key. -/
  merged : Option Node

/-- Reads the value of a key into its field. -/
def readField (expected : String) (fields : List (RecordField σ)) (key : Node) (name : String)
    (value : Node) (state : RecordState σ) : Reading (RecordState σ) := do
  match fields.find? (·.name == name) with
  | some field =>
    if name ∈ state.given then
      note (.repeatedField key.line name expected)
      return state
    else
      let record ← field.read value state.record
      return { state with record := record, given := name :: state.given }
  | none =>
    if (← read).strict then note (.unknownField key.line name expected)
    return state

/-- Reads a pair of a mapping into a record. -/
def readPair (expected : String) (fields : List (RecordField σ)) (state : RecordState σ)
    (pair : Node × Node) : Reading (RecordState σ) := do
  if pair.1.isMerge then return { state with merged := some pair.2 }
  else
    match ← text pair.1 with
    | none => return state
    | some name =>
      match state.settled with
      | some settled =>
        if name ∈ settled then return state
        else
          readField expected fields pair.1 name pair.2
            { state with settled := some (name :: settled) }
      | none => readField expected fields pair.1 name pair.2 state

/-- The keys of a mapping that are texts. -/
def textKeys (pairs : List (Node × Node)) : Reading (List String) :=
  pairs.filterMapM fun pair =>
    followed (fun node => do
      match node with
      | .scalar _ tag value =>
        match ← meaningOf tag value with
        | .text key => return some key
        | _ => return none
      | _ => return none) pair.1

/-- The nodes that a merge key stands for. -/
def mergedNodes : Node → List Node
  | .sequence _ _ items => items
  | node => [node]

/-- Requires a node to be a mapping or an alias of one. -/
def requireMapping (node : Node) : Reading Unit := do
  let anchors := (← read).anchors
  let target := match node with
    | .alias _ _ _ anchor => anchors.getD anchor default
    | node => node
  if target.kind != .mapping then stop .unreadable

/-- Reads the pairs of a mapping into a record, and then those of the mappings that
it merges. The outcome is the record and the keys that are settled. -/
def readPairs (expected : String) (fields : List (RecordField σ)) :
    Nat → List (Node × Node) → Option (List String) → σ → Reading (σ × Option (List String))
  | 0, _, _, _ => stop .unreadable
  | depth + 1, pairs, settled, record => do
    let state ← pairs.foldlM (readPair expected fields) ⟨record, [], settled, none⟩
    match state.merged with
    | none => return (state.record, state.settled)
    | some node =>
      let keys ← match state.settled with
        | some keys => pure keys
        | none => textKeys pairs
      let (record, keys) ← (mergedNodes node).foldlM
        (fun (record, keys) mapping => do
          requireMapping mapping
          let read : Shape (σ × List String) := followed fun node => do
            match node with
            | .mapping _ _ pairs =>
              if ← noteRepeatedKeys pairs then return none
              else
                let (record, settled) ← readPairs expected fields depth pairs (some keys) record
                return some (record, settled.getD keys)
            | _ => return none
          return (← read mapping).getD (record, keys))
        (state.record, keys)
      return (record, state.settled.map fun _ => keys)

/-- A mapping, read into a record that has default values. -/
def record (expected : String) (fields : List (RecordField σ)) (initial : σ) : Shape σ :=
  followed fun node => do
    match node with
    | .mapping _ _ pairs =>
      if ← noteRepeatedKeys pairs then return none
      else
        let (record, _) ← readPairs expected fields (← read).mergeDepth pairs none initial
        return some record
    | .scalar _ tag value =>
      match ← meaningOf tag value with
      | .null => return none
      | _ =>
        noteWrongType expected node
        return none
    | _ => unexpected expected node

/-! ## Values with a shape of their own -/

/-- A value that is read apart from what surrounds it: fields that a record does
not have are not reported in it. -/
def apart (shape : Shape α) : Shape α := fun node => do
  let state ← get
  set { state with nodes := 0, aliased := 0 }
  let result ← withReader
    (fun context => { context with active := [], strict := false }) (shape node)
  let inner ← get
  set { inner with nodes := state.nodes, aliased := state.aliased }
  return result

/-- A value whose shape depends on the node. A null leaves it unset. -/
def custom (expected : String) (shape : Shape α) : Shape α :=
  followed fun node => do
    if node.tag = "!!null" then
      match node with
      | .scalar _ tag value =>
        let _ ← meaningOf tag value
        return none
      | _ => unexpected expected node
    else shape node

/-! ## Documents -/

mutual

/-- The number of nodes in a tree. -/
def size : Node → Nat
  | .scalar _ _ _ | .alias _ _ _ _ => 1
  | .sequence _ _ items => 1 + sizeOfItems items
  | .mapping _ _ pairs => 1 + sizeOfPairs pairs

/-- The number of nodes in several trees. -/
def sizeOfItems : List Node → Nat
  | [] => 0
  | item :: rest => size item + sizeOfItems rest

/-- The number of nodes in pairs of trees. -/
def sizeOfPairs : List (Node × Node) → Nat
  | [] => 0
  | (key, value) :: rest => size key + size value + sizeOfPairs rest

end

/-- Reads a document. A merge goes to a node inside another or follows an alias,
and no alias is followed inside itself, which bounds the depth of merges. -/
def readDocument (shape : Shape α) (document : Document) :
    Except Stop (Option α × List Mismatch) :=
  let nodes := size document.root + 1
  let context : ReadingContext := ⟨document.anchors, [], true, nodes * nodes⟩
  (((do count; shape document.root) : Reading (Option α)) context ⟨[], 0, 0⟩).map
    fun (result, state) => (result, state.mismatches)

end Shape

end CapLiveness.Yaml
