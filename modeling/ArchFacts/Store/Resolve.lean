import ArchFacts.Store.Basic

/-!
# Passes over a whole store

`Store.resolve` settles the relations that were stored before their ends; `Store.attach` links
entities to the containers of the files they are declared in.
-/

namespace ArchFacts

/-- What a resolution did. -/
structure ResolveReport where
  /-- The number of relations in the store afterwards. -/
  resolved : Nat := 0
  /-- The number of relations dropped for want of an end. -/
  unresolved : Nat := 0
  deriving DecidableEq, Repr

/-- How many of some changes a store has made, and how many it has refused. -/
structure Tally where
  added : Nat := 0
  refused : Nat := 0
  deriving DecidableEq, Repr

namespace Store

/-- Whether both ends of a relation are entities of the store. -/
def hasEnds (s : Store) (key : EdgeKey) : Bool := s.hasNode key.source && s.hasNode key.dest

/-- What becomes of a relation: one that is open is resolved if it has both ends, and else
dropped. -/
def settle (s : Store) (e : Edge) : Option Edge :=
  if e.resolved then some e
  else if s.hasEnds e.toEdgeKey then some { e with resolved := true }
  else none

/-- Settles every relation. -/
def resolve (s : Store) : ResolveReport × Store :=
  let dangling := (s.edges.toList.filter fun (_, e) => (s.settle e).isNone).map (·.1)
  let edges := s.edges.filterMap fun _ e => s.settle e
  ({ resolved := edges.size, unresolved := dangling.length },
    { s with
      edges
      outgoing := dangling.foldl (fun ix key => ix.erase key.source key) s.outgoing
      incoming := dangling.foldl (fun ix key => ix.erase key.dest key) s.incoming })

/-- The link from a container to an entity, if the entity names exactly one file and that file has a
container in the store other than the entity itself. -/
def attachment? (s : Store) (container? : String → Option String) (fileAttribute : String)
    (n : Node) : Option Edge :=
  match n.attributes.values fileAttribute with
  | [file] =>
    match container? file with
    | some c =>
      if c ≠ n.id && s.hasNode c then
        some { source := c, dest := n.id, kind := .fileContains, resolved := true }
      else none
    | none => none
  | _ => none

/-- Makes a change if the store accepts it, and counts it as made or as refused. -/
def attempt {α : Type} (change : Store → α → Except FactError Store) (x : Tally × Store) (a : α) :
    Tally × Store :=
  match change x.2 a with
  | .ok s => ({ x.1 with added := x.1.added + 1 }, s)
  | .error _ => ({ x.1 with refused := x.1.refused + 1 }, x.2)

/-- Adds a relation if the store accepts it, and counts it. -/
def countEdge : Tally × Store → Edge → Tally × Store := attempt addEdge

/-- Adds those of some relations that the store accepts, in order, and counts them and the
others. -/
def addEdges (s : Store) (edges : List Edge) : Tally × Store := edges.foldl countEdge ({}, s)

/-- Links every entity that names exactly one file to the container of that file, and counts the
links that are new. -/
def attach (s : Store) (container? : String → Option String) (fileAttribute : String) :
    Nat × Store :=
  let (links, s) := s.addEdges (s.nodeList.filterMap (s.attachment? container? fileAttribute))
  (links.added, s)

end Store

end ArchFacts
