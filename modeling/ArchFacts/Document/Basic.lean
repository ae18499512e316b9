import ArchFacts.Fact
import Std.Data.ExtTreeSet

/-!
# Documents

A document is what a fact base says in text, before it is put into a store: relations, each a set of
pairs of words, and blocks of attributes. Relations are listed in the order in which they are first
mentioned, the pairs of one relation in increasing order, and blocks in the order of the text.
-/

namespace ArchFacts

open Std (ExtTreeSet)

/-- Two words of which a relation holds. -/
structure Pair where
  first : String
  second : String
  deriving DecidableEq, Repr

namespace Pair

instance : Ord Pair where
  compare := compareLex (compareOn first) (compareOn second)

instance : Std.TransOrd Pair :=
  inferInstanceAs (Std.TransCmp (compareLex (compareOn first) (compareOn second)))

instance : Std.LawfulEqOrd Pair where
  eq_of_compare {a b} h := by
    obtain ⟨s, d⟩ := a
    obtain ⟨s', d'⟩ := b
    have h := compareLex_eq_eq.1 h
    cases Std.LawfulEqOrd.eq_of_compare (a := s) h.1
    cases Std.LawfulEqOrd.eq_of_compare (a := d) h.2
    rfl

end Pair

/-- A relation by name: the pairs of which it holds. -/
structure Relation where
  name : String
  pairs : ExtTreeSet Pair
  /-- The line of the first mention; 0 if the relation does not come from a text. -/
  line : Nat := 0
  deriving DecidableEq

/-- What a block of attributes is meant for. -/
inductive Target where
  | entity (id : String)
  /-- Every relation from `source` to `dest`, of whatever kind. -/
  | pair (source dest : String)
  deriving DecidableEq, Repr

/-- Attributes for a target. -/
structure Block where
  target : Target
  attributes : Attributes
  /-- The line the block stands on; 0 if it does not come from a text. -/
  line : Nat := 0
  deriving DecidableEq

/-- One line of a fact base. -/
inductive Statement where
  | tuple (relation : String) (pair : Pair) (line : Nat)
  | block (b : Block)

/-- What a fact base says in text. -/
structure Document where
  relations : List Relation := []
  blocks : List Block := []
  deriving DecidableEq

namespace Document

instance : EmptyCollection Document := ⟨{}⟩
instance : Inhabited Document := ⟨∅⟩

/-- Adds a pair to the relation with a name, which is listed last if it is new. The line of a
relation is that of its first pair. -/
def insertPair (name : String) (pair : Pair) (line : Nat) : List Relation → List Relation
  | [] => [{ name, pairs := {pair}, line }]
  | r :: rs =>
    if r.name = name then { r with pairs := r.pairs.insert pair } :: rs
    else r :: insertPair name pair line rs

/-- Adds a pair to a relation. -/
def addTuple (d : Document) (relation : String) (pair : Pair) (line : Nat := 0) : Document :=
  { d with relations := insertPair relation pair line d.relations }

/-- Adds a block after all others. Blocks for one target are kept apart. -/
def addBlock (d : Document) (b : Block) : Document := { d with blocks := d.blocks ++ [b] }

/-- The document of some statements, in order. -/
def ofStatements (statements : List Statement) : Document where
  relations := statements.foldl (fun rs s =>
    match s with
    | .tuple relation pair line => insertPair relation pair line rs
    | .block _ => rs) []
  blocks := statements.filterMap fun
    | .tuple .. => none
    | .block b => some b

/-- The number of pairs of all relations. -/
def tupleCount (d : Document) : Nat := (d.relations.flatMap (·.pairs.toList)).length

end Document

end ArchFacts
