import ArchFacts.Command.Basic
import ArchFacts.Config.Toml
import ArchFacts.Hierarchy
import ArchFacts.Record.Json

/-!
# Carrying out commands

`Command.run` carries out an invocation on a machine and gives the text to print. Nothing is printed
when a task fails, and files are written last.
-/

namespace ArchFacts.Command

open FactFile (onPath checkSize)

/-- The largest file of records that is read, in bytes. -/
def recordsLimit : Nat := 100 * 1024 * 1024

/-- Lines as they are printed. -/
def printed (lines : List String) : String := String.join (lines.map (· ++ "\n"))

/-! ## Settings -/

/-- Settings with the changes that some options make. -/
def Options.adjust (o : Options) (c : Config) : Config where
  includeFiles := c.includeFiles && !o.noFiles
  includeSubsystems := c.includeSubsystems && !o.noSubsystems
  entityRelation := o.entityRelation?.getD c.entityRelation
  fileAttribute := c.fileAttribute

/-! ## Reports -/

/-- What a load did, as JSON. -/
def loadJson : Option LoadReport → Json
  | none => .null
  | some r =>
    .object [("nodes_added", .nat r.nodesAdded), ("duplicate_nodes", .nat r.duplicateNodes),
      ("edges_added", .nat r.edgesAdded), ("rejected_edges", .nat r.rejectedEdges),
      ("missing_targets", .nat r.missingTargets), ("resolved", .nat r.resolution.resolved),
      ("unresolved", .nat r.resolution.unresolved)]

/-- The answer to `check`. -/
def checkReport (json : Bool) (file : String) (s : Store) (report? : Option LoadReport) : String :=
  if json then
    printed [(Json.object [("file", .string file), ("valid", .bool true),
      ("node_count", .nat s.nodeCount), ("edge_count", .nat s.edgeCount),
      ("load", loadJson report?)]).pretty]
  else
    printed <|
      [s!"{file}: OK", s!"Nodes: {s.nodeCount}", s!"Edges: {s.edgeCount}"] ++
      match report? with
      | none => []
      | some r =>
        ["", s!"Duplicate node declarations: {r.duplicateNodes}",
          s!"Rejected edges:              {r.rejectedEdges}",
          s!"Dropped references:          {r.resolution.unresolved}",
          s!"Missing attribute targets:   {r.missingTargets}"]

/-- Counts by tag, in the order of the tags. -/
def sortedCounts (counts : List (String × Nat)) : List (String × Nat) :=
  counts.mergeSort fun a b => (compare a.1 b.1).isLE

/-- The number of entities of each kind. -/
def nodeCounts (s : Store) : List (String × Nat) :=
  sortedCounts (NodeKind.all.map fun k => (k.tag, s.nodeList.countP (·.kind = k)))

/-- The number of relations of each kind. -/
def edgeCounts (s : Store) : List (String × Nat) :=
  sortedCounts (EdgeKind.all.map fun k => (k.tag, s.edgeList.countP (·.kind = k)))

/-- A text filled up with spaces on the right. -/
def padRight (width : Nat) (text : String) : String :=
  text ++ String.ofList (List.replicate (width - text.length) ' ')

/-- Counts as lines. -/
def countLines (counts : List (String × Nat)) : List String :=
  counts.map fun (tag, n) => "  " ++ padRight 12 tag ++ s!" {n}"

/-- Counts as JSON. -/
def countsJson (counts : List (String × Nat)) : Json :=
  .object (counts.map fun (tag, n) => (tag, .nat n))

/-- The answer to `status`. -/
def statusReport (json : Bool) (config : Config) (file : String) (s : Store) : String :=
  if json then
    printed [(Json.object [("file", .string file),
      ("entity_relation", .string config.entityRelation),
      ("node_count", .nat s.nodeCount), ("edge_count", .nat s.edgeCount),
      ("nodes_by_kind", countsJson (nodeCounts s)),
      ("edges_by_relation", countsJson (edgeCounts s))]).pretty]
  else
    printed <|
      ["Factbase Status", "===============", s!"File: {file}", "", s!"Nodes: {s.nodeCount}"] ++
      countLines (nodeCounts s) ++ [s!"Edges: {s.edgeCount}"] ++ countLines (edgeCounts s)

/-- Attributes as JSON. -/
def attributesJson (a : Attributes) : Json :=
  .object (a.toList.map fun (key, values) => (key, .array (values.map .string)))

/-- Attributes as lines. -/
def attributeLines (indent : String) (a : Attributes) : List String :=
  a.toList.map fun (key, values) => indent ++ key ++ " = " ++ " ".intercalate values

/-- A relation as JSON. -/
def edgeJson (e : Edge) : Json :=
  .object [("source", .string e.source), ("dest", .string e.dest),
    ("relation", .string e.kind.tag), ("attributes", attributesJson e.attributes)]

/-- A relation as lines. -/
def edgeLines (e : Edge) : List String :=
  s!"    {e.source} -[{e.kind.tag}]-> {e.dest}" :: attributeLines "      " e.attributes

/-- The entities that a selector picks. -/
def Selector.select (s : Store) : Selector → List Node
  | .byId id => (s.node? id).toList
  | .byName name => s.nodesNamed name

/-- A selector as messages show it. -/
def Selector.display : Selector → String
  | .byId id => "Id(" ++ Text.literal id ++ ")"
  | .byName name => "Name(" ++ Text.literal name ++ ")"

/-- The relations that leave an entity, if the direction asks for them. -/
def outgoing (s : Store) (direction : Direction) (kind? : Option EdgeKind) (n : Node) :
    List Edge :=
  if direction = .incoming then [] else s.edgesFrom n.id kind?

/-- The relations that reach an entity, if the direction asks for them. -/
def incoming (s : Store) (direction : Direction) (kind? : Option EdgeKind) (n : Node) :
    List Edge :=
  if direction = .outgoing then [] else s.edgesTo n.id kind?

/-- An entity with its relations as JSON. -/
def nodeJson (s : Store) (direction : Direction) (kind? : Option EdgeKind) (n : Node) : Json :=
  .object [("id", .string n.id), ("name", .string n.name), ("kind", .string n.kind.tag),
    ("attributes", attributesJson n.attributes),
    ("outgoing", .array ((outgoing s direction kind? n).map edgeJson)),
    ("incoming", .array ((incoming s direction kind? n).map edgeJson))]

/-- An entity with its relations as lines. -/
def nodeLines (s : Store) (direction : Direction) (kind? : Option EdgeKind) (n : Node) :
    List String :=
  s!"{n.id} ({n.name}) [{n.kind.tag}]" :: attributeLines "  " n.attributes ++
    (if direction = .incoming then []
      else "  outgoing:" :: (outgoing s direction kind? n).flatMap edgeLines) ++
    (if direction = .outgoing then []
      else "  incoming:" :: (incoming s direction kind? n).flatMap edgeLines)

/-- The answer to `query`. -/
def queryReport (json : Bool) (s : Store) (selector : Selector) (direction : Direction)
    (kind? : Option EdgeKind) : String :=
  let found := selector.select s
  if json then
    printed [(Json.object [("matches", .array (found.map (nodeJson s direction kind?)))]).pretty]
  else if found.isEmpty then printed ["No node matches " ++ selector.display]
  else printed (found.flatMap (nodeLines s direction kind?))

/-- The answer to `convert`. -/
def convertReport (json : Bool) (input output : String) (format : FactFile.Format) (s : Store) :
    String :=
  if json then
    printed [(Json.object [("input", .string input), ("output", .string output),
      ("format", .string format.tag), ("node_count", .nat s.nodeCount),
      ("edge_count", .nat s.edgeCount)]).pretty]
  else
    printed [s!"Converted {s.nodeCount} nodes, {s.edgeCount} edges: {input} -> {output}"]

/-! ## Ingestion -/

/-- What an ingestion did. -/
structure IngestReport where
  replay : ReplayReport
  /-- The number of entities attached to containers; none if no hierarchy was asked for. -/
  attached? : Option Nat
  resolution : ResolveReport
  deriving DecidableEq, Repr

/-- Replays records into a store, adds the hierarchy of source files if it is asked for, and
resolves the store. -/
def ingest (config : Config) (hierarchy : Bool) (records : List Record) (s : Store) :
    Except FactError (IngestReport × Store) := do
  let (replay, s) ← Record.replay Store.sink s records
  let (attached?, s) :=
    if hierarchy then
      let (containers, s) := (Hierarchy.ofStore config s).install config s
      let (attached, s) := s.attach containers.find? config.fileAttribute
      (some attached, s)
    else (none, s)
  let (resolution, s) := s.resolve
  return ({ replay, attached?, resolution }, s)

/-- The answer to `ingest`. -/
def ingestReport (json : Bool) (output : String) (records : List Record) (r : IngestReport)
    (s : Store) : String :=
  if json then
    printed [(Json.object [("accepted", .nat r.replay.accepted),
      ("rejected", .nat r.replay.rejected),
      ("attached", .nat (r.attached?.getD 0)),
      ("dropped_references", .nat r.resolution.unresolved), ("node_count", .nat s.nodeCount),
      ("edge_count", .nat s.edgeCount), ("output", .string output)]).pretty]
  else
    printed <|
      [s!"Replayed {records.length} records ({r.replay.accepted} accepted, " ++
        s!"{r.replay.rejected} rejected)"] ++
      (r.attached?.map fun n => s!"Attached {n} nodes to containers").toList ++
      [s!"Fact base now has {s.nodeCount} nodes, {s.edgeCount} edges " ++
        s!"({r.resolution.unresolved} dangling references dropped)",
        s!"Written to {output}"]

/-! ## Tasks -/

variable {m : Type → Type} [Monad m] [Host m]

/-- The settings of an invocation. -/
def settings (o : Options) : ExceptT FactError m Config := do
  let base ←
    match o.config? with
    | none => pure {}
    | some path =>
      let canonical ← FactFile.inputPath path
      let bytes ← onPath path (Host.read canonical)
      let text ← ExceptT.mk (pure (FactFile.textOf path bytes))
      ExceptT.mk (pure ((Config.Toml.read text).mapError fun problem =>
        .configuration s!"{path}: {problem.message}"))
  let config := o.adjust base
  ExceptT.mk (pure config.validate)
  return config

/-- The records that a file lists. -/
def readRecords (path : String) : ExceptT FactError m (List Record) := do
  let canonical ← FactFile.inputPath path
  checkSize canonical recordsLimit
  let bytes ← onPath path (Host.read canonical)
  match String.fromUTF8? bytes with
  | none => throw (.serialization s!"{path}: invalid UTF-8")
  | some text =>
    ExceptT.mk (pure ((Record.readAll text).mapError fun problem =>
      .serialization s!"{path}: {problem.message}"))

/-- The kind of the relation that a query is restricted to. -/
def queryKind (relation? : Option String) : Except FactError (Option EdgeKind) :=
  match relation? with
  | none => .ok none
  | some name =>
    match EdgeKind.ofTag? name with
    | some kind => .ok (some kind)
    | none => .error (.configuration s!"unknown relation \x60{name}\x60")

/-- Carries out a task. -/
def runTask (config : Config) (json : Bool) : Task → ExceptT FactError m String
  | .check file => do
    let (s, report?) ← FactFile.read config file
    return checkReport json file s report?
  | .status file => do
    let (s, _) ← FactFile.read config file
    return statusReport json config file s
  | .query file selector direction relation? => do
    let kind? ← ExceptT.mk (pure (queryKind relation?))
    let (s, _) ← FactFile.read config file
    return queryReport json s selector direction kind?
  | .ingest records base? output hierarchy format => do
    let records ← readRecords records
    let s ← match base? with
      | some path => do pure (← FactFile.read config path).1
      | none => pure ∅
    let (report, s) ← ExceptT.mk (pure (ingest config hierarchy records s))
    FactFile.write config output format s
    return ingestReport json output records report s
  | .convert input output format => do
    let (s, _) ← FactFile.read config input
    FactFile.write config output format s
    return convertReport json input output format s

/-- Carries out what a user asks for: the text to print, or why the task failed. -/
def run (i : Invocation) : m (Except FactError String) :=
  ExceptT.run do
    let config ← settings i.options
    runTask config i.options.json i.task

end ArchFacts.Command
