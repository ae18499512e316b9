import ArchFacts.Fact

/-!
# What can go wrong

The kinds of failure that a caller of this library meets, and the text of each.
-/

namespace ArchFacts

/-- Why an operation was refused. -/
inductive FactError where
  /-- The id is taken by another entity. -/
  | duplicateId (id : String)
  /-- The same relation is present already. -/
  | duplicateEdge (key : EdgeKey)
  /-- The request breaks a rule on the shape of a fact base. -/
  | structuralViolation (detail : String)
  /-- An end of a relation is not an entity. -/
  | unresolvedReference (key : EdgeKey)
  /-- An attribute is meant for an entity or a relation that is not there. -/
  | missingTarget (target : String)
  /-- A text is not a fact base; `line` counts from 1. -/
  | format (line : Nat) (detail : String)
  /-- A file cannot be found, read or written. -/
  | file (path detail : String)
  /-- Bytes or records cannot be decoded. -/
  | serialization (detail : String)
  /-- The settings cannot be used. -/
  | configuration (detail : String)
  deriving DecidableEq, Repr

namespace FactError

/-- The text of an error. -/
def message : FactError → String
  | duplicateId id => s!"Duplicate node id: {id}"
  | duplicateEdge key => s!"Duplicate edge: {key.source} -> {key.dest} ({key.kind.tag})"
  | structuralViolation detail => s!"Structural violation: {detail}"
  | unresolvedReference key =>
    s!"Unresolved reference: {key.source} -> {key.dest} ({key.kind.tag})"
  | missingTarget target => s!"Missing target: {target}"
  | format line detail => s!"Format error on line {line}: {detail}"
  | file path detail => s!"I/O error on {path}: {detail}"
  | serialization detail => s!"Serialization error: {detail}"
  | configuration detail => s!"Configuration error: {detail}"

end FactError

end ArchFacts
