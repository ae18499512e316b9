import ArchFacts.Error
import ArchFacts.Store.Index

/-!
# The store of a fact base

A store holds entities under their ids and relations under their keys. Three indices beside them
answer queries without a search: the ids under each name, and the keys of the relations under each
source and under each destination. They hold nothing that the entities and relations do not
determine (`Store.reindex` computes them anew).

Every operation keeps these rules:

* an entity has no attribute `label`, since its label is its name;
* no relation says that an entity contains itself;
* at most one `contains` relation leads to an entity: a new one puts the old one out.

An operation that is refused gives an error and no store, so the store of the caller stays what it
was. A relation may be stored before its ends are; `Store.resolve` later decides about it.
-/

namespace ArchFacts

open Std (ExtTreeMap)

/-- Entities and relations, with their indices. -/
structure Store where
  nodes : ExtTreeMap String Node := ∅
  edges : ExtTreeMap EdgeKey Edge := ∅
  /-- The ids of the entities under each name. -/
  names : Index String := ∅
  /-- The keys of the relations under each source. -/
  outgoing : Index EdgeKey := ∅
  /-- The keys of the relations under each destination. -/
  incoming : Index EdgeKey := ∅
  deriving DecidableEq

namespace Store

instance : EmptyCollection Store := ⟨{}⟩
instance : Inhabited Store := ⟨∅⟩

/-! ## Queries -/

/-- The entity with an id. -/
def node? (s : Store) (id : String) : Option Node := s.nodes[id]?

/-- Whether an entity has this id. -/
def hasNode (s : Store) (id : String) : Bool := s.nodes.contains id

/-- All entities, by id. -/
def nodeList (s : Store) : List Node := s.nodes.toList.map (·.2)

/-- The entities with a name, by id. -/
def nodesNamed (s : Store) (name : String) : List Node :=
  (s.names.find name).filterMap (s.nodes[·]?)

/-- The relation with a key. -/
def edge? (s : Store) (key : EdgeKey) : Option Edge := s.edges[key]?

/-- All relations, by key. -/
def edgeList (s : Store) : List Edge := s.edges.toList.map (·.2)

/-- The relations with some keys, of one kind only if a kind is given. -/
def edgesAt (s : Store) (keys : List EdgeKey) (kind? : Option EdgeKind) : List Edge :=
  (keys.filter fun key => kind?.all (key.kind = ·)).filterMap (s.edges[·]?)

/-- The relations that start at an id, by key, of one kind only if a kind is given. -/
def edgesFrom (s : Store) (id : String) (kind? : Option EdgeKind) : List Edge :=
  s.edgesAt (s.outgoing.find id) kind?

/-- The relations that lead to an id, by key, of one kind only if a kind is given. -/
def edgesTo (s : Store) (id : String) (kind? : Option EdgeKind) : List Edge :=
  s.edgesAt (s.incoming.find id) kind?

/-- The number of entities. -/
def nodeCount (s : Store) : Nat := s.nodes.size

/-- The number of relations. -/
def edgeCount (s : Store) : Nat := s.edges.size

/-- Whether there are neither entities nor relations. -/
def isEmpty (s : Store) : Bool := s.nodes.isEmpty && s.edges.isEmpty

/-! ## Entities -/

/-- Stores an entity under its id, its label turned into its name. The caller has taken an entity
that had this id out of the index of names. -/
def register (s : Store) (n : Node) : Store :=
  { s with
    nodes := s.nodes.insert n.id n.takeLabel
    names := s.names.insert n.takeLabel.name n.id }

/-- Takes an entity out, but leaves the relations it has. -/
def removeNodeOnly (s : Store) (id : String) : Option (Node × Store) :=
  s.nodes[id]?.map fun n =>
    (n, { s with nodes := s.nodes.erase id, names := s.names.erase n.name id })

/-- Adds an entity whose id is free. -/
def addNode (s : Store) (n : Node) : Except FactError Store :=
  if s.hasNode n.id then .error (.duplicateId n.id) else .ok (s.register n)

/-- Adds an entity, in the place of the one that has its id, if there is one. -/
def putNode (s : Store) (n : Node) : Store :=
  match s.removeNodeOnly n.id with
  | some (_, s) => s.register n
  | none => s.register n

/-- Adds a value to an attribute of an entity. A value for `label` becomes the entity's name. -/
def addNodeAttribute (s : Store) (id key value : String) : Except FactError Store :=
  match s.nodes[id]? with
  | none => .error (.missingTarget s!"node {id}")
  | some n =>
    if key ≠ labelKey then
      .ok { s with
        nodes := s.nodes.insert id { n with attributes := n.attributes.insert key value } }
    else if n.name = value then .ok s
    else .ok (s.putNode { n with name := value })

/-- Adds every value of some attributes, which hold no label, to an entity. -/
def mergeNodeAttributes (s : Store) (id : String) (a : Attributes) : Option Store :=
  s.nodes[id]?.map fun n =>
    { s with nodes := s.nodes.insert id { n with attributes := n.attributes.merge a } }

/-! ## Relations -/

/-- Takes a relation out of the store and of both indices. -/
def eraseEdge (s : Store) (key : EdgeKey) : Store :=
  if s.edges.contains key then
    { s with
      edges := s.edges.erase key
      outgoing := s.outgoing.erase key.source key
      incoming := s.incoming.erase key.dest key }
  else s

/-- Takes a relation out. -/
def removeEdge (s : Store) (key : EdgeKey) : Option (Edge × Store) :=
  s.edges[key]?.map fun e => (e, s.eraseEdge key)

/-- Takes out an entity and every relation that starts or ends at it. -/
def removeNode (s : Store) (id : String) : Option (Node × Store) :=
  (s.removeNodeOnly id).map fun (n, s) =>
    (n, (s.outgoing.find id ++ s.incoming.find id).foldl eraseEdge s)

/-- The keys of the `contains` relations that lead to an id. -/
def parentKeys (s : Store) (id : String) : List EdgeKey :=
  (s.incoming.find id).filter (·.kind = .contains)

/-- Makes room for a relation: a new parent puts the old parent out. -/
def evictParents (s : Store) (key : EdgeKey) : Store :=
  if key.kind = .contains then (s.parentKeys key.dest).foldl eraseEdge s else s

/-- Stores a relation under its key, after making room for it. -/
def registerEdge (s : Store) (e : Edge) : Store :=
  let s := s.evictParents e.toEdgeKey
  { s with
    edges := s.edges.insert e.toEdgeKey e
    outgoing := s.outgoing.insert e.source e.toEdgeKey
    incoming := s.incoming.insert e.dest e.toEdgeKey }

/-- The refusal of a relation between an entity and itself. -/
def selfContainment (id : String) : FactError := .structuralViolation s!"{id} cannot contain itself"

/-- Adds a relation that is not there yet. -/
def addEdge (s : Store) (e : Edge) : Except FactError Store :=
  if e.isSelfContainment then .error (selfContainment e.source)
  else if s.edges.contains e.toEdgeKey then .error (.duplicateEdge e.toEdgeKey)
  else .ok (s.registerEdge e)

/-- Adds a relation, in the place of the one that has its key, if there is one. -/
def putEdge (s : Store) (e : Edge) : Except FactError Store :=
  if e.isSelfContainment then .error (selfContainment e.source)
  else .ok ((s.eraseEdge e.toEdgeKey).registerEdge e)

/-- Adds a value to an attribute of a relation. -/
def addEdgeAttribute (s : Store) (edge : EdgeKey) (key value : String) : Except FactError Store :=
  match s.edges[edge]? with
  | none => .error (.missingTarget s!"edge {edge.source} -> {edge.dest} ({edge.kind.tag})")
  | some e =>
    .ok { s with
      edges := s.edges.insert edge { e with attributes := e.attributes.insert key value } }

/-- Adds every value of some attributes to a relation. -/
def mergeEdgeAttributes (s : Store) (edge : EdgeKey) (a : Attributes) : Option Store :=
  s.edges[edge]?.map fun e =>
    { s with edges := s.edges.insert edge { e with attributes := e.attributes.merge a } }

/-! ## The store as a whole -/

/-- Computes the indices anew from the entities and relations. -/
def reindex (s : Store) : Store :=
  { s with
    names := s.nodeList.foldl (fun ix n => ix.insert n.name n.id) ∅
    outgoing := s.edges.keys.foldl (fun ix key => ix.insert key.source key) ∅
    incoming := s.edges.keys.foldl (fun ix key => ix.insert key.dest key) ∅ }

/-- The store of some entities and relations, taken as they are: of two with one id or key the later
counts, and self-containments are left out. -/
def ofLists (nodes : List Node) (edges : List Edge) : Store :=
  reindex
    { nodes := nodes.foldl (fun m n => m.insert n.id n.takeLabel) ∅
      edges := (edges.filter (!·.isSelfContainment)).foldl (fun m e => m.insert e.toEdgeKey e) ∅ }

end Store

end ArchFacts
