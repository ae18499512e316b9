import ArchFacts.Store.Basic
import ArchFacts.Text.Literal

/-!
# Recorded requests

An extractor asks for facts one request at a time, and each request may be refused. A record is such
a request. A sink is anything that takes requests and answers them; `Record.replay` hands it a list
of records, all of which are checked before the first is handed over.
-/

namespace ArchFacts

/-- What a recorded attribute is meant for. -/
inductive RecordTarget where
  | node (id : String)
  | edge (key : EdgeKey)
  deriving DecidableEq, Repr

/-- A request of an extractor. -/
inductive Record where
  /-- Without a name, an entity is named by its id. -/
  | node (id : String) (name? : Option String) (kind : NodeKind)
  | edge (key : EdgeKey)
  | attr (target : RecordTarget) (key value : String)
  deriving DecidableEq, Repr

namespace NodeKind

/-- How records name a kind of entity. -/
def recordName : NodeKind → String
  | file => "File"
  | subsystem => "Subsystem"
  | classType => "Class"
  | function => "Function"
  | object => "Variable"
  | enumeration => "Enum"

end NodeKind

namespace EdgeKind

/-- How records name a kind of relation. -/
def recordName : EdgeKind → String
  | contains => "Contains"
  | fileContains => "FileContains"
  | calls => "Calls"
  | references => "References"
  | inherits => "Inherits"

end EdgeKind

namespace EdgeKey

/-- The key of a relation as messages about records show it. -/
def display (k : EdgeKey) : String :=
  "Edge \x7b source: " ++ Text.literal k.source ++ ", dest: " ++ Text.literal k.dest ++
    ", kind: " ++ k.kind.recordName ++ " \x7d"

end EdgeKey

namespace RecordTarget

/-- A target as messages show it. -/
def display : RecordTarget → String
  | node id => "Node(" ++ Text.literal id ++ ")"
  | edge key => key.display

end RecordTarget

namespace Record

/-- A record as messages show it. -/
def display : Record → String
  | node id name? kind =>
    let name := match name? with
      | some name => "Some(" ++ Text.literal name ++ ")"
      | none => "None"
    "Node \x7b id: " ++ Text.literal id ++ ", name: " ++ name ++
      ", kind: " ++ kind.recordName ++ " \x7d"
  | edge key => key.display
  | attr target key value =>
    "Attribute \x7b target: " ++ target.display ++ ", key: " ++ Text.literal key ++
      ", value: " ++ Text.literal value ++ " \x7d"

/-- Whether a record can name something: ids of entities and ends and keys of attributes are not
empty. -/
def isValid : Record → Bool
  | node id _ _ => !id.toList.isEmpty
  | edge key => !key.source.toList.isEmpty && !key.dest.toList.isEmpty
  | attr _ key _ => !key.toList.isEmpty

/-- Refuses a record that cannot name anything. -/
def validate (r : Record) : Except FactError Unit :=
  if r.isValid then .ok ()
  else .error (.structuralViolation ("record has an empty identifier: " ++ r.display))

end Record

/-- Something that takes requests. Each gets the state and answers whether it grants the request. -/
structure Sink (σ : Type) where
  createNode : σ → (id name : String) → NodeKind → Bool × σ
  createEdge : σ → EdgeKey → Bool × σ
  setAttribute : σ → RecordTarget → (key value : String) → Bool × σ

namespace Store

/-- The answer to a request that may have failed, and the store after it. -/
def granted (s : Store) : Except FactError Store → Bool × Store
  | .ok s => (true, s)
  | .error _ => (false, s)

/-- A request for an entity. -/
def createNode (s : Store) (id name : String) (kind : NodeKind) : Bool × Store :=
  s.granted (s.addNode { id, name, kind })

/-- A request for a relation, resolved at once if both ends are there. -/
def createEdge (s : Store) (key : EdgeKey) : Bool × Store :=
  s.granted (s.addEdge { key with resolved := s.hasNode key.source && s.hasNode key.dest })

/-- A request for an attribute. -/
def setAttribute (s : Store) (target : RecordTarget) (key value : String) : Bool × Store :=
  match target with
  | .node id => s.granted (s.addNodeAttribute id key value)
  | .edge edge => s.granted (s.addEdgeAttribute edge key value)

/-- A store as a sink. -/
def sink : Sink Store := { createNode, createEdge, setAttribute }

end Store

/-- What became of the requests of a replay. -/
structure ReplayReport where
  accepted : Nat := 0
  rejected : Nat := 0
  deriving DecidableEq, Repr

namespace ReplayReport

/-- Counts one answer. -/
def count (r : ReplayReport) (granted : Bool) : ReplayReport :=
  if granted then { r with accepted := r.accepted + 1 } else { r with rejected := r.rejected + 1 }

end ReplayReport

namespace Record

variable {σ : Type}

/-- Hands a record to a sink. -/
def send (sink : Sink σ) (state : σ) : Record → Bool × σ
  | node id name? kind => sink.createNode state id (name?.getD id) kind
  | edge key => sink.createEdge state key
  | attr target key value => sink.setAttribute state target key value

/-- Hands some records to a sink, in order, and counts the answers. -/
def sendAll (sink : Sink σ) (state : σ) (records : List Record) : ReplayReport × σ :=
  records.foldl (fun (report, state) r =>
    let (granted, state) := r.send sink state
    (report.count granted, state)) ({}, state)

/-- Hands some records to a sink, in order, if all of them are valid. -/
def replay (sink : Sink σ) (state : σ) (records : List Record) :
    Except FactError (ReplayReport × σ) := do
  records.forM validate
  return sendAll sink state records

end Record

end ArchFacts
