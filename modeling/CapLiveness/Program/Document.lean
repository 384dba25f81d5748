import CapLiveness.Program.Description
import CapLiveness.Yaml.Node.Compose
import CapLiveness.Yaml.Shape

/-!
# Descriptions as YAML documents

A description is the first document of a YAML text: a mapping with the fields of
the description, in which functions and blocks are lists of mappings. Fields that
are missing or null have their defaults.

Capabilities are the name of a built-in enumeration or a list of names. A call is
the name of a function or a mapping, and fields that such a mapping does not have
are not reported.
-/

set_option autoImplicit false

namespace CapLiveness

open Yaml

namespace Description

/-- A list of texts. -/
def textList : Shape (List String) := Shape.list "[]string" Shape.text

/-- Capabilities. -/
def capabilitiesShape : Shape CapabilityList :=
  Shape.custom "program.capabilityList" fun node => do
    match node with
    | .scalar _ _ _ => return (← Shape.apart Shape.text node).map .builtIn
    | _ => return (← Shape.apart textList node).map .listed

/-- An argument, by the text of any scalar. -/
def argumentShape : Shape ArgumentText :=
  Shape.custom "program.yamlArg" fun node =>
    match node with
    | .scalar line _ value => return some ⟨value, line⟩
    | node =>
      Shape.stop (.refused s!"line {node.line}: capability argument must be a scalar")

/-- A list of arguments. -/
def argumentList : Shape (List ArgumentText) := Shape.list "[]program.yamlArg" argumentShape

/-- The fields of a call that is a mapping. -/
def callFields : List (Shape.RecordField CallDescription) :=
  [.of "candidates" textList fun candidates call => { call with candidates := candidates },
    .of "complete" Shape.flag fun complete call => { call with complete := complete },
    .of "unresolved" Shape.flag fun unresolved call => { call with unresolved := unresolved }]

/-- A call. -/
def callShape : Shape CallDescription :=
  Shape.custom "program.fileCall" fun node => do
    match node with
    | .scalar _ _ _ =>
      return (← Shape.apart Shape.text node).map fun name => { direct := name }
    | _ => Shape.apart (Shape.record "program.plain" callFields {}) node

/-- The fields of a block. -/
def blockFields : List (Shape.RecordField BlockDescription) :=
  [.of "name" Shape.text fun name block => { block with name := name },
    .of "raise" argumentList fun raised block => { block with raised := raised },
    .of "uses" argumentList fun uses block => { block with uses := uses },
    .of "call" callShape fun call block => { block with call := some call },
    .of "succs" textList fun successors block => { block with successors := successors },
    .of "exit" Shape.text fun exit block => { block with exit := exit },
    .of "size" Shape.integer fun size block => { block with size := size }]

/-- The fields of a function. -/
def functionFields : List (Shape.RecordField FunctionDescription) :=
  [.of "name" Shape.text fun name function => { function with name := name },
    .of "address_taken" Shape.flag fun taken function => { function with addressTaken := taken },
    .of "blocks"
      (Shape.list "[]program.fileBlock" (Shape.record "program.fileBlock" blockFields {}))
      fun blocks function => { function with blocks := blocks }]

/-- The fields of a description. -/
def fields : List (Shape.RecordField Description) :=
  [.of "capabilities" capabilitiesShape fun capabilities d =>
      { d with capabilities := capabilities },
    .of "entry" Shape.text fun entry d => { d with entry := entry },
    .of "raise_primitive" Shape.text fun primitive d => { d with raisePrimitive := primitive },
    .of "declared" textList fun declared d => { d with declared := declared },
    .of "functions"
      (Shape.list "[]program.fileFunction"
        (Shape.record "program.fileFunction" functionFields {}))
      fun functions d => { d with functions := functions }]

/-- A description. -/
def shape : Shape Description := Shape.record "program.fileProgram" fields {}

/-- Reads a description from a document. -/
def ofDocument (document : Document) : Except Problem Description :=
  match Shape.readDocument shape document with
  | .error .unreadable => .error (.document .unreadable)
  | .error (.refused message) => .error (.plain message)
  | .ok (description, mismatches) =>
    if mismatches.isEmpty then .ok (description.getD {})
    else .error (.document (.mismatched mismatches))

/-- Reads a description from a text. -/
def ofYaml (text : String) : Except Problem Description :=
  let read : Except Problem Description :=
    match Yaml.read text with
    | .nothing => .error (.document .noDocument)
    | .unreadable => .error (.document .unreadable)
    | .document document => ofDocument document
  read.mapError (.wrap "decoding program")

end Description

/-- Reads a program from a text. -/
def Program.ofYaml (text : String) : Except Problem Program := do
  (← Description.ofYaml text).program

end CapLiveness
