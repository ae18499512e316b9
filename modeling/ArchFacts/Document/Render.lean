import ArchFacts.Config
import ArchFacts.Document.Basic
import ArchFacts.Store.Basic
import ArchFacts.Token.Quote

/-!
# From stores to documents to text

`Document.ofStore` says in a document what a store holds, and `Document.render` writes a document as
a text that reads back as the document.
-/

namespace ArchFacts

namespace Document

/-- The attributes that a text shows for an entity: its name is the value of `label`, unless it is
the id. -/
def shownAttributes (n : Node) : Attributes :=
  if n.name = n.id then n.attributes else n.attributes.insert labelKey n.name

/-- What a store holds. Entities come first, then relations, in the order of their keys; blocks
likewise. What has no attributes to show has no block. -/
def ofStore (config : Config) (s : Store) : Document where
  relations :=
    let rs := s.nodeList.foldl (fun rs n =>
      insertPair config.entityRelation ⟨n.id, n.kind.tag⟩ 0 rs) []
    s.edgeList.foldl (fun rs e => insertPair e.kind.tag ⟨e.source, e.dest⟩ 0 rs) rs
  blocks :=
    let blocks : List Block :=
      s.nodeList.map (fun n => { target := .entity n.id, attributes := shownAttributes n }) ++
      s.edgeList.map (fun e => { target := .pair e.source e.dest, attributes := e.attributes })
    blocks.filter (!·.attributes.isEmpty)

/-- Words with a space after each. -/
def spaced (words : List String) : List Char :=
  words.flatMap fun w => Token.quote w.toList ++ [' ']

/-- An entry of a block. A single value stands alone, any other number of values in parentheses. -/
def renderEntry (key : String) (values : List String) : List Char :=
  Token.quote key.toList ++ [' ', '=', ' '] ++
    match values with
    | [value] => spaced [value]
    | values => ['(', ' '] ++ spaced values ++ [')', ' ']

/-- The target of a block. -/
def renderTarget : Target → List Char
  | .entity id => Token.quote id.toList
  | .pair source dest => ['(', ' '] ++ spaced [source, dest] ++ [')']

/-- The line of a block. -/
def renderBlock (b : Block) : List Char :=
  renderTarget b.target ++ [' ', '{', ' '] ++
    b.attributes.toList.flatMap (fun (key, values) => renderEntry key values) ++ ['}']

/-- The line of a pair of a relation. -/
def renderPair (relation : String) (pair : Pair) : List Char :=
  Token.quote relation.toList ++ ' ' :: Token.quote pair.first.toList ++
    ' ' :: Token.quote pair.second.toList

/-- The lines that say how the text came about and which relations it may use. They hold no
facts. -/
def preamble (config : Config) (generated : String) : List (List Char) :=
  ["// Tuple-Attribute fact base", "// Generated on " ++ generated, "", "SCHEME TUPLE :",
    "// " ++ config.entityRelation ++ " <id> <kind>"].map String.toList ++
  NodeKind.all.map (fun k => ("$INHERIT " ++ k.tag ++ " $ENTITY").toList) ++
  EdgeKind.all.map (fun k => (k.tag ++ " $ENTITY $ENTITY").toList) ++ [[]]

/-- The lines of the section of tuples. -/
def tupleLines (d : Document) : List (List Char) :=
  d.relations.flatMap fun r => r.pairs.toList.map (renderPair r.name)

/-- The lines of a document. -/
def renderLines (config : Config) (generated : String) (d : Document) : List (List Char) :=
  preamble config generated ++ "FACT TUPLE :".toList :: d.tupleLines ++
    [] :: "FACT ATTRIBUTE :".toList :: d.blocks.map renderBlock

/-- A document as text. `generated` says when the text was made. -/
def render (config : Config) (generated : String) (d : Document) : String :=
  String.ofList ((renderLines config generated d).flatMap (· ++ ['\n']))

end Document

namespace Store

/-- A store as text. -/
def render (config : Config) (generated : String) (s : Store) : String :=
  (Document.ofStore config s).render config generated

end Store

end ArchFacts
