import ArchFacts.Document.Parse
import ArchFacts.Store.Resolve

/-!
# From documents to stores

`Document.apply` puts what a document says into a store. All names of relations and kinds are
checked before the first change, and from then on nothing fails: what the store refuses is counted.
`Store.load` reads a text, applies it and resolves the store.
-/

namespace ArchFacts

/-- What a load did. -/
structure LoadReport where
  nodesAdded : Nat := 0
  /-- Declarations of entities whose id was taken. -/
  duplicateNodes : Nat := 0
  edgesAdded : Nat := 0
  /-- Relations that were there already, or said that an entity contains itself. -/
  rejectedEdges : Nat := 0
  /-- Blocks of attributes without a target. -/
  missingTargets : Nat := 0
  resolution : ResolveReport := {}
  deriving DecidableEq, Repr

namespace Relation

/-- The entities that the pairs of the entity relation declare. -/
def nodes (r : Relation) : Except FactError (List Node) :=
  r.pairs.toList.mapM fun pair =>
    match NodeKind.ofTag? pair.second with
    | some kind => .ok { id := pair.first, kind }
    | none => .error (.format r.line (LineProblem.unknownNodeKind pair.second).message)

/-- The relations between entities that the pairs of any other relation state. -/
def edges (r : Relation) : Except FactError (List Edge) :=
  match EdgeKind.ofTag? r.name with
  | some kind =>
    .ok (r.pairs.toList.map fun pair => { source := pair.first, dest := pair.second, kind })
  | none => .error (.format r.line (LineProblem.unknownRelation r.name).message)

end Relation

namespace Document

/-- The entities and relations that some relations of a document declare, in order. -/
def factsOf (config : Config) : List Relation → Except FactError (List Node × List Edge)
  | [] => .ok ([], [])
  | r :: rs => do
    if r.name = config.entityRelation then
      let nodes ← r.nodes
      let (ns, es) ← factsOf config rs
      return (nodes ++ ns, es)
    else
      let edges ← r.edges
      let (ns, es) ← factsOf config rs
      return (ns, edges ++ es)

/-- The name that a document gives an id: the first label in the first block for the id that has
one. -/
def label? (d : Document) (id : String) : Option String :=
  d.blocks.findSome? fun b =>
    if b.target = .entity id then (b.attributes.values labelKey).head? else none

/-- An entity with the name that a document gives it. -/
def withLabel (d : Document) (n : Node) : Node := { n with name := (d.label? n.id).getD n.name }

end Document

namespace Store

/-- Adds an entity if the store accepts it, and counts it. -/
def countNode : Tally × Store → Node → Tally × Store := attempt addNode

/-- Adds those of some entities that the store accepts, in order, and counts them and the others. -/
def addNodes (s : Store) (nodes : List Node) : Tally × Store := nodes.foldl countNode ({}, s)

/-- Adds the attributes of a block to its target, and counts missing targets. Labels are left out:
they have become names. -/
def applyBlock (s : Store) (b : Block) : Nat × Store :=
  match b.target with
  | .entity id =>
    match s.mergeNodeAttributes id (b.attributes.erase labelKey) with
    | some s => (0, s)
    | none => (1, s)
  | .pair source dest =>
    match (s.edgesFrom source none).filter (·.dest = dest) with
    | [] => (1, s)
    | edges =>
      (0, edges.foldl (fun s e => (s.mergeEdgeAttributes e.toEdgeKey b.attributes).getD s) s)

/-- Adds the attributes of some blocks, in order, and counts missing targets. -/
def applyBlocks (s : Store) (blocks : List Block) : Nat × Store :=
  blocks.foldl (fun (missing, s) b =>
    let (more, s) := s.applyBlock b
    (missing + more, s)) (0, s)

end Store

namespace Document

/-- Puts what a document says into a store: entities, then relations, then attributes. Relations are
added unresolved. -/
def apply (d : Document) (config : Config) (s : Store) : Except FactError (LoadReport × Store) := do
  let (nodes, edges) ← factsOf config d.relations
  let (declared, s) := s.addNodes (nodes.map d.withLabel)
  let (stated, s) := s.addEdges edges
  let (missingTargets, s) := s.applyBlocks d.blocks
  return (
    { nodesAdded := declared.added
      duplicateNodes := declared.refused
      edgesAdded := stated.added
      rejectedEdges := stated.refused
      missingTargets }, s)

end Document

namespace Store

/-- Reads a text into a store and resolves the store. -/
def load (s : Store) (config : Config) (text : String) : Except FactError (LoadReport × Store) := do
  let d ← Document.parse config text
  let (report, s) ← d.apply config s
  let (resolution, s) := s.resolve
  return ({ report with resolution }, s)

/-- The store that a text describes. -/
def ofText (config : Config) (text : String) : Except FactError Store :=
  ((∅ : Store).load config text).map (·.2)

end Store

end ArchFacts
