import ArchFacts.Error
import ArchFacts.Text.Blank
import ArchFacts.Text.Literal

/-!
# Settings

How facts are read, written and attached to the files they come from.
-/

namespace ArchFacts

/-- The settings of a fact base. -/
structure Config where
  /-- Whether a hierarchy adds an entity for each source file. -/
  includeFiles : Bool := true
  /-- Whether a hierarchy adds an entity for each directory above a source file. -/
  includeSubsystems : Bool := true
  /-- The relation whose tuples declare entities instead of relating them. -/
  entityRelation : String := "$INSTANCE"
  /-- The attribute that names the source file an entity is declared in. -/
  fileAttribute : String := "filename"
  deriving DecidableEq, Repr

namespace Config

/-- Settings in which nothing but the entity relation is chosen. -/
def ofEntityRelation (relation : String) : Config := { entityRelation := relation }

/-- Why settings cannot be used. -/
inductive Problem where
  /-- The entity relation is empty or holds a blank, so it could not be read back. -/
  | notOneWord (relation : String)
  /-- The entity relation is the name of a relation between entities. -/
  | collides (relation : String)
  | emptyFileAttribute
  deriving DecidableEq, Repr

namespace Problem

/-- The text of a problem. -/
def message : Problem → String
  | notOneWord relation =>
    "entity relation must be a single token, got " ++ Text.literal relation
  | collides relation =>
    "entity relation " ++ Text.literal relation ++ " collides with an edge relation"
  | emptyFileAttribute => "file attribute key must not be empty"

end Problem

/-- The first problem of some settings, if they have one. -/
def problem? (c : Config) : Option Problem :=
  if c.entityRelation.toList.isEmpty || c.entityRelation.toList.any Text.isBlank then
    some (.notOneWord c.entityRelation)
  else if (EdgeKind.ofTag? c.entityRelation).isSome then some (.collides c.entityRelation)
  else if c.fileAttribute.toList.isEmpty then some .emptyFileAttribute
  else none

/-- Refuses settings with which entities and relations could not be told apart. -/
def validate (c : Config) : Except FactError Unit :=
  match c.problem? with
  | some p => .error (.configuration p.message)
  | none => .ok ()

end Config

end ArchFacts
