import ArchFacts.FactFile

/-!
# Commands

What a user can ask for on the command line.
-/

namespace ArchFacts.Command

/-- Which relations of an entity a query lists. -/
inductive Direction where
  | outgoing
  | incoming
  | both
  deriving DecidableEq, Repr

namespace Direction

/-- The word for a direction. -/
def tag : Direction → String
  | outgoing => "out"
  | incoming => "in"
  | both => "both"

/-- The direction that a word stands for. -/
def ofTag? (word : String) : Option Direction := [outgoing, incoming, both].find? (·.tag == word)

end Direction

/-- How a query picks entities. -/
inductive Selector where
  | byId (id : String)
  | byName (name : String)
  deriving DecidableEq, Repr

/-- One of the tasks of the program. -/
inductive Task where
  /-- Reads a fact base and reports what the load did. -/
  | check (file : String)
  /-- Counts entities and relations by kind. -/
  | status (file : String)
  /-- Lists entities and their relations. -/
  | query (file : String) (selector : Selector) (direction : Direction) (relation? : Option String)
  /-- Replays records into a fact base and writes it. -/
  | ingest (records : String) (base? : Option String) (output : String) (hierarchy : Bool)
      (format : FactFile.Format)
  /-- Reads a fact base and writes it in another form. -/
  | convert (input output : String) (format : FactFile.Format)
  deriving DecidableEq, Repr

/-- Options that every task has. -/
structure Options where
  /-- Log more. -/
  verbose : Bool := false
  /-- Log less. -/
  quiet : Bool := false
  /-- The settings file. -/
  config? : Option String := none
  /-- The entity relation, over that of the settings file. -/
  entityRelation? : Option String := none
  noFiles : Bool := false
  noSubsystems : Bool := false
  /-- Answer in JSON. -/
  json : Bool := false
  deriving DecidableEq, Repr

/-- What a user asks for. -/
structure Invocation where
  options : Options
  task : Task
  deriving DecidableEq, Repr

/-- Why there is nothing to carry out. -/
inductive Stop where
  /-- The user asks how the program is used. -/
  | help
  /-- The user asks for the version. -/
  | version
  /-- The command line is empty. -/
  | noArguments
  | missingSubcommand
  | invalidSubcommand (word : String)
  | missingArgument (name : String)
  | unknownArgument (word : String)
  | invalidValue (argument value : String)
  /-- A value for a flag. -/
  | tooManyValues (argument : String)
  /-- An option that is given twice, or beside one that excludes it. -/
  | conflict (argument : String)
  deriving DecidableEq, Repr

namespace Stop

/-- The exit code of the program. A user who asks for help or the version is not in error. -/
def exitCode : Stop → UInt32
  | help | version => 0
  | _ => 2

/-- The text of a stop. -/
def message : Stop → String
  | help | noArguments | missingSubcommand =>
    "Usage: factbase [OPTIONS] check|status|query|ingest|convert ..."
  | version => "factbase 0.4.0"
  | invalidSubcommand word => s!"unrecognized subcommand {word}"
  | missingArgument name => s!"a required argument is missing: {name}"
  | unknownArgument word => s!"unexpected argument {word}"
  | invalidValue argument value => s!"invalid value for {argument}: {value}"
  | tooManyValues argument => s!"{argument} takes no value"
  | conflict argument => s!"{argument} cannot be used here again"

end Stop

end ArchFacts.Command
