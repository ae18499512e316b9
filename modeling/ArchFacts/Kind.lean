/-!
# Kinds of entities and relations

A fact base speaks of six kinds of entities and five kinds of relations between them. Both sets are
closed. In text a kind is written by its tag (`NodeKind.tag`, `EdgeKind.tag`), and a tag read back
gives the kind it was written for (`NodeKind.ofTag?_tag`, `EdgeKind.ofTag?_tag`).
-/

namespace ArchFacts

/-- What an entity of the analysed system is. -/
inductive NodeKind where
  | file
  | subsystem
  | classType
  | function
  | object
  | enumeration
  deriving DecidableEq, Repr

namespace NodeKind

/-- Every kind of entity, in the order in which a scheme lists them. -/
def all : List NodeKind := [file, subsystem, classType, function, object, enumeration]

/-- The word that declares an entity of this kind. -/
def tag : NodeKind → String
  | file => "cFile"
  | subsystem => "cSubSystem"
  | classType => "cClass"
  | function => "cFunction"
  | object => "cObject"
  | enumeration => "cEnum"

/-- The kind a word declares: its tag, or one of the plain lower case words that some extractors
write instead. -/
def ofTag? : String → Option NodeKind
  | "cFile" | "file" => some file
  | "cSubSystem" | "subsystem" => some subsystem
  | "cClass" | "class" => some classType
  | "cFunction" | "function" => some function
  | "cObject" | "object" | "variable" => some object
  | "cEnum" | "enum" => some enumeration
  | _ => none

@[simp] theorem ofTag?_tag (k : NodeKind) : ofTag? k.tag = some k := by cases k <;> rfl

end NodeKind

/-- How two entities are related. -/
inductive EdgeKind where
  /-- A structural parent holds a child; a child has at most one parent. -/
  | contains
  /-- A container holds an entity that is declared in it. -/
  | fileContains
  | calls
  | references
  | inherits
  deriving DecidableEq, Repr, Ord

namespace EdgeKind

/-- Every kind of relation, in the order of `compare`. -/
def all : List EdgeKind := [contains, fileContains, calls, references, inherits]

/-- The name of the relation in text. -/
def tag : EdgeKind → String
  | contains => "contain"
  | fileContains => "fileContain"
  | calls => "call"
  | references => "reference"
  | inherits => "inherit"

/-- The kind of relation that a relation name stands for. -/
def ofTag? (name : String) : Option EdgeKind := all.find? (·.tag == name)

@[simp] theorem ofTag?_tag (k : EdgeKind) : ofTag? k.tag = some k := by cases k <;> rfl

/-- Only its tag stands for a kind of relation. -/
theorem eq_tag_of_ofTag? {name : String} {k : EdgeKind} (h : ofTag? name = some k) :
    name = k.tag := by
  rw [ofTag?] at h
  have htag := List.find?_some h
  exact (beq_iff_eq.1 htag).symm

/-- Kinds with the same tag are the same. -/
theorem tag_inj {k k' : EdgeKind} : k.tag = k'.tag ↔ k = k' :=
  ⟨fun h => by simpa using congrArg ofTag? h, congrArg tag⟩

instance : Std.TransOrd EdgeKind where
  eq_swap {a b} := by cases a <;> cases b <;> rfl
  isLE_trans {a b c} := by cases a <;> cases b <;> cases c <;> decide

instance : Std.LawfulEqOrd EdgeKind where
  eq_of_compare {a b} := by cases a <;> cases b <;> decide

end EdgeKind

end ArchFacts
