import ArchFacts.Json.Read
import ArchFacts.Record.Basic

/-!
# Records as JSON

A list of records is a JSON array. A record is an object whose field `type` says what is asked for,
beside the fields of that request; other fields are ignored. A request may also be an array of the
type and the values of the fields in their order.
-/

namespace ArchFacts

namespace Record

/-! ## Writing -/

/-- The fields of a relation's key. -/
def keyFields (k : EdgeKey) : List (String × Json) :=
  [("source", .string k.source), ("dest", .string k.dest), ("kind", .string k.kind.recordName)]

/-- A target as JSON. -/
def targetJson : RecordTarget → Json
  | .node id => .object [("node", .string id)]
  | .edge key => .object [("edge", .object (keyFields key))]

/-- A record as JSON. -/
def toJson : Record → Json
  | node id name? kind =>
    .object [("type", .string "node"), ("id", .string id),
      ("name", (name?.map Json.string).getD .null), ("kind", .string kind.recordName)]
  | edge key => .object (("type", .string "edge") :: keyFields key)
  | attr target key value =>
    .object [("type", .string "attribute"), ("target", targetJson target),
      ("key", .string key), ("value", .string value)]

/-- Some records as a JSON text. -/
def renderAll (records : List Record) : String := (Json.array (records.map toJson)).compact

/-! ## Reading -/

/-- Why a JSON text is not a list of records. -/
inductive Malformed where
  | notJson (problem : Json.Problem)
  /-- A value is not of the shape that its place asks for. -/
  | wanted (shape : String)
  | missingField (name : String)
  | repeatedField (name : String)
  deriving DecidableEq, Repr

namespace Malformed

/-- The text of a problem. -/
def message : Malformed → String
  | notJson problem => problem.message
  | wanted shape => "expected " ++ shape
  | missingField name => "missing field " ++ Text.literal name
  | repeatedField name => "duplicate field " ++ Text.literal name

end Malformed

/-- The text that a JSON value is. -/
def text : Json → Except Malformed String
  | .string s => .ok s
  | _ => .error (.wanted "a string")

/-- A text or nothing. -/
def text? : Json → Except Malformed (Option String)
  | .null => .ok none
  | j => (text j).map some

/-- The name of a choice that carries no value. It may be written as the only key of an object whose
value is null or empty. -/
def choiceName : Json → Except Malformed String
  | .string s => .ok s
  | .object [(s, .null)] => .ok s
  | .object [(s, .object [])] => .ok s
  | _ => .error (.wanted "the name of a kind")

/-- One of some choices, by name. -/
def choice {α : Type} (choices : List α) (name : α → String) (j : Json) : Except Malformed α := do
  let s ← choiceName j
  match choices.find? (name · = s) with
  | some a => return a
  | none => throw (.wanted "the name of a kind")

/-- The kind of an entity. -/
def nodeKind : Json → Except Malformed NodeKind := choice NodeKind.all NodeKind.recordName

/-- The kind of a relation. -/
def edgeKind : Json → Except Malformed EdgeKind := choice EdgeKind.all EdgeKind.recordName

/-- The value of a field that may be absent but not repeated. -/
def field? (fields : List (String × Json)) (name : String) : Except Malformed (Option Json) :=
  match fields.filter (·.1 = name) with
  | [] => .ok none
  | [(_, value)] => .ok (some value)
  | _ => .error (.repeatedField name)

/-- The value of a field that must be present once. -/
def field (fields : List (String × Json)) (name : String) : Except Malformed Json := do
  match ← field? fields name with
  | some value => return value
  | none => throw (.missingField name)

/-- The key of a relation, from its three parts. -/
def edgeKeyOf (source dest kind : Json) : Except Malformed EdgeKey := do
  return { source := ← text source, dest := ← text dest, kind := ← edgeKind kind }

/-- The key of a relation, from the fields of an object. -/
def edgeKeyOfFields (fields : List (String × Json)) : Except Malformed EdgeKey := do
  edgeKeyOf (← field fields "source") (← field fields "dest") (← field fields "kind")

/-- The target of an attribute. -/
def targetOf : Json → Except Malformed RecordTarget
  | .object [(choice, value)] =>
    if choice = "node" then (text value).map .node
    else if choice = "edge" then
      match value with
      | .object fields => (edgeKeyOfFields fields).map .edge
      | .array [source, dest, kind] => (edgeKeyOf source dest kind).map .edge
      | _ => .error (.wanted "the key of a relation")
    else .error (.wanted "a target")
  | _ => .error (.wanted "a target")

/-- The record of a type with some fields. -/
def ofFields (type : String) (fields : List (String × Json)) : Except Malformed Record := do
  if type = "node" then
    let id ← text (← field fields "id")
    let name? ← text? ((← field? fields "name").getD .null)
    return node id name? (← nodeKind (← field fields "kind"))
  else if type = "edge" then
    return edge (← edgeKeyOfFields fields)
  else if type = "attribute" then
    let target ← targetOf (← field fields "target")
    return attr target (← text (← field fields "key")) (← text (← field fields "value"))
  else throw (.wanted "the type of a record")

/-- The record of a type with some values. -/
def ofValues (type : String) (values : List Json) : Except Malformed Record := do
  match values with
  | [a, b, c] =>
    if type = "node" then return node (← text a) (← text? b) (← nodeKind c)
    else if type = "edge" then return edge (← edgeKeyOf a b c)
    else if type = "attribute" then return attr (← targetOf a) (← text b) (← text c)
    else throw (.wanted "the type of a record")
  | _ => throw (.wanted "three values")

/-- The record that a JSON value describes. -/
def ofJson : Json → Except Malformed Record
  | .object fields => do
    let type ← text (← field fields "type")
    ofFields type (fields.filter (·.1 ≠ "type"))
  | .array (type :: values) => do ofValues (← text type) values
  | _ => .error (.wanted "a record")

/-- The records that a JSON text lists. -/
def readAll (source : String) : Except Malformed (List Record) := do
  match ← (Json.read source).mapError .notJson with
  | .array items => items.mapM ofJson
  | _ => throw (.wanted "an array of records")

end Record

end ArchFacts
