import ArchFacts.Config
import ArchFacts.Path
import ArchFacts.Store.Basic

/-!
# The hierarchy of source files

The source files of a system and the directories above them are containers: entities that the other
entities can be attached to. A container's id is its normal path and its name the last segment of
that path.
-/

namespace ArchFacts

open Std (ExtTreeMap ExtTreeSet)

/-- The source files of a system, by normal path. -/
structure Hierarchy where
  files : ExtTreeSet String := ∅
  deriving DecidableEq

/-- The container of each source file, by normal path. -/
structure Containers where
  entries : ExtTreeMap String String := ∅
  deriving DecidableEq

namespace Containers

/-- The container of a file, however its path is spelled. -/
def find? (c : Containers) (path : String) : Option String :=
  (Path.normalize? path).bind (c.entries[·]?)

/-- The number of files that have a container. -/
def size (c : Containers) : Nat := c.entries.size

/-- Whether no file has a container. -/
def isEmpty (c : Containers) : Bool := c.entries.isEmpty

end Containers

namespace Hierarchy

/-- Adds a source file. A path that leads nowhere names no file. -/
def insert (h : Hierarchy) (path : String) : Hierarchy :=
  match Path.normalize? path with
  | some path => ⟨h.files.insert path⟩
  | none => h

/-- The hierarchy of some paths. -/
def ofPaths (paths : List String) : Hierarchy := paths.foldl insert {}

/-- The hierarchy of the files that the entities of a store name. -/
def ofStore (config : Config) (s : Store) : Hierarchy :=
  ofPaths (s.nodeList.flatMap (·.attributes.values config.fileAttribute))

/-- Adds the directories above a path to some directories, up to the first that is among them. -/
def addAncestors (dirs : ExtTreeSet String) (path : String) : ExtTreeSet String :=
  match _h : Path.parent? path with
  | none => dirs
  | some dir => if dirs.contains dir then dirs else addAncestors (dirs.insert dir) dir
termination_by path.toList.length
decreasing_by exact Path.length_of_parent? _h

/-- The directories above at least one source file. -/
def directories (h : Hierarchy) : ExtTreeSet String := h.files.toList.foldl addAncestors ∅

/-- Adds an entity for a container, unless its id is taken. -/
def addContainer (kind : NodeKind) (s : Store) (path : String) : Store :=
  match s.addNode { id := path, name := Path.name path, kind } with
  | .ok s => s
  | .error _ => s

/-- Links what a path names to the directory that holds it, if there is one. -/
def linkToParent (s : Store) (path : String) : Store :=
  match Path.parent? path with
  | none => s
  | some dir =>
    match s.addEdge { source := dir, dest := path, kind := .contains, resolved := true } with
    | .ok s => s
    | .error _ => s

/-- Adds a directory as a container. -/
def addDirectory (s : Store) (dir : String) : Store :=
  linkToParent (addContainer .subsystem s dir) dir

/-- Adds a source file as a container, linked to its directory if directories are containers. -/
def addFile (config : Config) (s : Store) (file : String) : Store :=
  let s := addContainer .file s file
  if config.includeSubsystems then linkToParent s file else s

/-- The container of a source file: the file itself if files are containers, else its directory if
directories are. -/
def containerOf? (config : Config) (file : String) : Option String :=
  if config.includeFiles then some file
  else if config.includeSubsystems then Path.parent? file
  else none

/-- Adds the containers that the settings ask for to a store, directories before files and in
increasing order, so that a directory comes before what it holds. -/
def install (h : Hierarchy) (config : Config) (s : Store) : Containers × Store :=
  let s := if config.includeSubsystems then h.directories.toList.foldl addDirectory s else s
  let s := if config.includeFiles then h.files.toList.foldl (addFile config) s else s
  let entries := h.files.toList.foldl (fun m file =>
    match containerOf? config file with
    | some container => m.insert file container
    | none => m) ∅
  (⟨entries⟩, s)

end Hierarchy

end ArchFacts
