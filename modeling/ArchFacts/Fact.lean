import ArchFacts.Attributes
import ArchFacts.Kind

/-!
# Entities and relations

A fact is an entity (`Node`), named by its id, or a relation between two entities (`Edge`), named by
its ends and its kind (`EdgeKey`). Keys of relations are ordered by source, then destination, then
kind; this order is a lawful total order, so that keys can index maps.
-/

namespace ArchFacts

/-- The attribute that carries an entity's display name in text. A store never holds it: it becomes
the name of the entity. -/
def labelKey : String := "label"

/-- An entity of the analysed system. -/
structure Node where
  id : String
  /-- The name to show. Several entities may share it. -/
  name : String := id
  kind : NodeKind
  attributes : Attributes := ∅
  deriving DecidableEq

namespace Node

/-- Turns the attribute `label`, if it is present, into the name. Its first value counts. -/
def takeLabel (n : Node) : Node :=
  let (labels, attributes) := n.attributes.take labelKey
  { n with name := labels.head?.getD n.name, attributes }

end Node

/-- What tells one relation from all others. -/
structure EdgeKey where
  source : String
  dest : String
  kind : EdgeKind
  deriving DecidableEq, Repr

namespace EdgeKey

instance : Ord EdgeKey where
  compare := compareLex (compareOn source) (compareLex (compareOn dest) (compareOn kind))

instance : Std.TransOrd EdgeKey :=
  inferInstanceAs (Std.TransCmp
    (compareLex (compareOn source) (compareLex (compareOn dest) (compareOn kind))))

instance : Std.LawfulEqOrd EdgeKey where
  eq_of_compare {a b} h := by
    obtain ⟨s, d, k⟩ := a
    obtain ⟨s', d', k'⟩ := b
    have h := compareLex_eq_eq.1 h
    have h' := compareLex_eq_eq.1 h.2
    cases Std.LawfulEqOrd.eq_of_compare (a := s) h.1
    cases Std.LawfulEqOrd.eq_of_compare (a := d) h'.1
    cases Std.LawfulEqOrd.eq_of_compare (a := k) h'.2
    rfl

/-- Whether the relation says that an entity contains itself. No store holds such a relation. -/
def isSelfContainment (k : EdgeKey) : Bool := k.kind = .contains && k.source = k.dest

end EdgeKey

/-- A directed relation between two entities. -/
structure Edge extends EdgeKey where
  /-- Whether both ends have been found among the entities. -/
  resolved : Bool := false
  attributes : Attributes := ∅
  deriving DecidableEq

end ArchFacts
