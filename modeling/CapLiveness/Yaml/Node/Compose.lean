import CapLiveness.Yaml.Node
import CapLiveness.Yaml.Token.Scan

/-!
# Nodes from tokens

The first document of a text, composed from its tokens. Every function takes
tokens from the front of a list; when the tokens do not fit, or run out, there is
no document (`none`). What follows the root of the document is not looked at.

The functions call each other with a bound on the depth of calls. Each call takes
a token or is followed by one that does, so a bound of a few calls for each token
is never reached.
-/

set_option autoImplicit false

namespace CapLiveness.Yaml

/-- What composing a document works on. -/
structure Composition where
  tokens : List Token
  /-- The tag handles with what they stand for. -/
  handles : List (String × String)
  /-- The names of anchors with their numbers, the latest first. -/
  names : List (String × Nat)
  /-- The nodes with anchors, by the number of the anchor. -/
  anchors : Array Node
  /-- The number of aliases so far. -/
  aliases : Nat

/-- A step of composing, which may fail. -/
abbrev Composer (α : Type) := StateT Composition Option α

namespace Composer

/-- The next token. -/
def peek : Composer Token := fun state => state.tokens.head?.map fun token => (token, state)

/-- Goes over the next token. -/
def skip : Composer Unit := fun state => some ((), { state with tokens := state.tokens.tail })

/-- The next token after going over one. -/
def skipThenPeek : Composer Token := do
  skip
  peek

/-- No document. -/
def fail {α : Type} : Composer α := fun _ => none

/-! ## Properties of nodes -/

/-- The anchor and the tag before a node, and the line on which the node starts. -/
structure Properties where
  line : Nat
  anchor : Option String
  tag : String

/-- The full tag of a handle and a suffix. -/
def fullTag (handle suffix : String) : Composer String := fun state =>
  if handle = "" then some (suffix, state)
  else (state.handles.lookup handle).map fun stem => (stem ++ suffix, state)

/-- Reads an anchor and a tag, in either order. -/
def properties : Composer Properties := do
  let token ← peek
  match token.kind with
  | .anchor name =>
    let next ← skipThenPeek
    match next.kind with
    | .tag handle suffix =>
      let _ ← skipThenPeek
      return ⟨token.line, some name, ← fullTag handle suffix⟩
    | _ => return ⟨token.line, some name, ""⟩
  | .tag handle suffix =>
    let next ← skipThenPeek
    match next.kind with
    | .anchor name =>
      let _ ← skipThenPeek
      return ⟨token.line, some name, ← fullTag handle suffix⟩
    | _ => return ⟨token.line, none, ← fullTag handle suffix⟩
  | _ => return ⟨token.line, none, ""⟩

/-- The tag of a node: the given one unless it asks for none, else another. -/
def Properties.tagOr (p : Properties) (other : String) : String :=
  if p.tag = "" ∨ p.tag = "!" then other else shortTag p.tag

/-- Reserves the number of an anchor, so that aliases inside the node find it. -/
def reserve (p : Properties) : Composer (Option Nat) := fun state =>
  match p.anchor with
  | some name =>
    some (some state.anchors.size,
      { state with
        names := (name, state.anchors.size) :: state.names
        anchors := state.anchors.push default })
  | none => some (none, state)

/-- Keeps a node under the number of its anchor. -/
def keep (number : Option Nat) (node : Node) : Composer Node := fun state =>
  match number with
  | some number =>
    some (node, { state with anchors := state.anchors.setIfInBounds number node })
  | none => some (node, state)

/-- The tag of a scalar without a tag of its own. -/
def scalarTag (isPlain : Bool) (text : String) : String :=
  if isPlain then
    if text = "<<" then Node.mergeTag else (plainMeaning true text).tag
  else "!!str"

/-- A scalar with its properties. -/
def scalarNode (p : Properties) (isPlain : Bool) (text : String) : Composer Node := do
  let number ← reserve p
  keep number (.scalar (p.line + 1) (p.tagOr (scalarTag isPlain text)) text)

/-- The scalar where nothing is written. -/
def emptyNode (line : Nat) : Node := .scalar (line + 1) "!!null" ""

/-- An alias of the latest node with an anchor of its name. -/
def aliasNode (line : Nat) (name : String) : Composer Node := fun state =>
  (state.names.lookup name).map fun anchor =>
    (.alias (line + 1) name state.aliases anchor, { state with aliases := state.aliases + 1 })

/-! ## Nodes -/

mutual

/-- A node. Block collections are expected or not; so is a sequence whose entries
are not indented. -/
def node (depth : Nat) (block indentless : Bool) : Composer Node :=
  match depth with
  | 0 => fail
  | depth + 1 => do
    let first ← peek
    match first.kind with
    | .alias name =>
      skip
      aliasNode first.line name
    | _ =>
      let p ← properties
      let token ← peek
      if indentless && token.kind == .blockEntry then
        let number ← reserve p
        let items ← indentlessItems depth
        keep number (.sequence (p.line + 1) (p.tagOr "!!seq") items)
      else
        match token.kind with
        | .scalar isPlain text =>
          skip
          scalarNode p isPlain text
        | .flowSequenceStart =>
          skip
          let number ← reserve p
          let items ← flowItems depth true
          keep number (.sequence (p.line + 1) (p.tagOr "!!seq") items)
        | .flowMappingStart =>
          skip
          let number ← reserve p
          let pairs ← flowPairs depth true
          keep number (.mapping (p.line + 1) (p.tagOr "!!map") pairs)
        | .blockSequenceStart =>
          if block then
            skip
            let number ← reserve p
            let items ← blockItems depth
            keep number (.sequence (p.line + 1) (p.tagOr "!!seq") items)
          else emptyWith p
        | .blockMappingStart =>
          if block then
            skip
            let number ← reserve p
            let pairs ← blockPairs depth
            keep number (.mapping (p.line + 1) (p.tagOr "!!map") pairs)
          else emptyWith p
        | _ => emptyWith p

/-- An empty scalar, where an anchor or a tag says that there is a node. -/
def emptyWith (p : Properties) : Composer Node :=
  if p.anchor.isSome || p.tag != "" then scalarNode p true "" else fail

/-- The items of a block sequence. -/
def blockItems (depth : Nat) : Composer (List Node) :=
  match depth with
  | 0 => fail
  | depth + 1 => do
    let token ← peek
    match token.kind with
    | .blockEntry =>
      let next ← skipThenPeek
      let item ←
        if next.kind == .blockEntry || next.kind == .blockEnd then pure (emptyNode token.line)
        else node depth true false
      return item :: (← blockItems depth)
    | .blockEnd =>
      skip
      return []
    | _ => fail

/-- The items of a sequence in a mapping whose entries are not indented. -/
def indentlessItems (depth : Nat) : Composer (List Node) :=
  match depth with
  | 0 => fail
  | depth + 1 => do
    let token ← peek
    match token.kind with
    | .blockEntry =>
      let next ← skipThenPeek
      let item ←
        match next.kind with
        | .blockEntry | .key | .value | .blockEnd => pure (emptyNode token.line)
        | _ => node depth true false
      return item :: (← indentlessItems depth)
    | _ => return []

/-- The pairs of a block mapping. -/
def blockPairs (depth : Nat) : Composer (List (Node × Node)) :=
  match depth with
  | 0 => fail
  | depth + 1 => do
    let token ← peek
    match token.kind with
    | .key =>
      let _ ← skipThenPeek
      let key ← blockPart depth token.line
      let mark ← peek
      let value ←
        if mark.kind == .value then do
          let _ ← skipThenPeek
          blockPart depth mark.line
        else pure (emptyNode mark.line)
      return (key, value) :: (← blockPairs depth)
    | .blockEnd =>
      skip
      return []
    | _ => fail

/-- The key or the value after its mark, which may be missing. -/
def blockPart (depth : Nat) (line : Nat) : Composer Node :=
  match depth with
  | 0 => fail
  | depth + 1 => do
    let token ← peek
    match token.kind with
    | .key | .value | .blockEnd => return emptyNode line
    | _ => node depth true true

/-- The items of a flow sequence after its start or an item. -/
def flowItems (depth : Nat) (first : Bool) : Composer (List Node) :=
  match depth with
  | 0 => fail
  | depth + 1 => do
    let token ← peek
    if token.kind == .flowSequenceEnd then
      skip
      return []
    else
      let token ←
        if first then pure token
        else if token.kind == .flowEntry then skipThenPeek
        else fail
      match token.kind with
      | .flowSequenceEnd =>
        skip
        return []
      | .key =>
        skip
        let pair ← flowSequencePair depth
        return .mapping (token.line + 1) "!!map" [pair] :: (← flowItems depth false)
      | _ =>
        let item ← node depth false false
        return item :: (← flowItems depth false)

/-- A pair that is an item of a flow sequence, after the mark of its key. -/
def flowSequencePair (depth : Nat) : Composer (Node × Node) :=
  match depth with
  | 0 => fail
  | depth + 1 => do
    let token ← peek
    let key ←
      match token.kind with
      | .value | .flowEntry | .flowSequenceEnd => do
        skip
        pure (emptyNode token.line)
      | _ => node depth false false
    let mark ← peek
    let next ← if mark.kind == .value then skipThenPeek else pure mark
    let missing :=
      mark.kind != .value || next.kind == .flowEntry || next.kind == .flowSequenceEnd
    let value ← if missing then pure (emptyNode next.line) else node depth false false
    let _ ← peek
    return (key, value)

/-- The pairs of a flow mapping after its start or a pair. -/
def flowPairs (depth : Nat) (first : Bool) : Composer (List (Node × Node)) :=
  match depth with
  | 0 => fail
  | depth + 1 => do
    let token ← peek
    if token.kind == .flowMappingEnd then
      skip
      return []
    else
      let token ←
        if first then pure token
        else if token.kind == .flowEntry then skipThenPeek
        else fail
      match token.kind with
      | .flowMappingEnd =>
        skip
        return []
      | .key =>
        let _ ← skipThenPeek
        let key ← flowPart depth
        let mark ← peek
        let value ←
          if mark.kind == .value then do
            let _ ← skipThenPeek
            flowPart depth
          else pure (emptyNode mark.line)
        return (key, value) :: (← flowPairs depth false)
      | _ =>
        let key ← node depth false false
        let next ← peek
        return (key, emptyNode next.line) :: (← flowPairs depth false)

/-- The key or the value of a pair of a flow mapping, which may be missing. -/
def flowPart (depth : Nat) : Composer Node :=
  match depth with
  | 0 => fail
  | depth + 1 => do
    let token ← peek
    match token.kind with
    | .value | .flowEntry | .flowMappingEnd => return emptyNode token.line
    | _ => node depth false false

end

/-! ## Documents -/

/-- The handles that need no directive. -/
def defaultHandles : List (String × String) := [("!", "!"), ("!!", "tag:yaml.org,2002:")]

/-- Reads the directives before a document: at most one version, which must be the
supported one, and handles for tags, each once. -/
def directives (version : Bool) (handles : List (String × String)) :
    List Token → Option (List (String × String) × List Token)
  | [] => none
  | token :: rest =>
    match token.kind with
    | .versionDirective major minor =>
      if version ∨ major ≠ 1 ∨ minor ≠ 1 then none else directives true handles rest
    | .tagDirective handle stem =>
      if (handles.lookup handle).isSome then none
      else directives version (handles ++ [(handle, stem)]) rest
    | _ => some (handles ++ defaultHandles, token :: rest)

/-- The root of a document that has a start marker. -/
def explicitRoot (depth : Nat) : Composer Node := do
  let token ← peek
  match token.kind with
  | .versionDirective _ _ | .tagDirective _ _ | .documentStart | .documentEnd | .streamEnd =>
    return emptyNode token.line
  | _ => node depth true false

/-- A document, composed by a step from some tokens. The token after its root has
to be there. -/
def document? (handles : List (String × String)) (tokens : List Token) (root : Composer Node) :
    Option Document :=
  let composed := do
    let node ← root
    let _ ← peek
    return node
  (composed ⟨tokens, handles, [], #[], 0⟩).map fun (node, state) => ⟨node, state.anchors⟩

end Composer

/-- What a text holds. -/
inductive Contents where
  /-- No document. -/
  | nothing
  | document (document : Document)
  /-- The text is not well formed. -/
  | unreadable

open Composer in
/-- The first document among some tokens. -/
def firstDocument (tokens : List Token) : Contents :=
  let depth := 4 * tokens.length + 16
  let composed (document : Option Document) : Contents :=
    (document.map Contents.document).getD .unreadable
  match tokens with
  | _ :: token :: rest =>
    match token.kind with
    | .streamEnd => .nothing
    | .versionDirective _ _ | .tagDirective _ _ | .documentStart =>
      match directives false [] (token :: rest) with
      | some (handles, start :: content) =>
        if start.kind == .documentStart then
          composed (document? handles content (explicitRoot depth))
        else .unreadable
      | _ => .unreadable
    | _ => composed (document? defaultHandles (token :: rest) (node depth true false))
  | _ => .unreadable

/-- Reads the first document of a text. -/
def read (text : String) : Contents :=
  if text.toList.all isAllowed then firstDocument (tokensOf text.toList) else .unreadable

end CapLiveness.Yaml
