import ArchFacts.Command.Basic

/-!
# Command lines

A command line is a list of words. A word that begins with two dashes names an option or a flag, a
word that begins with one dash holds one-letter flags, the last of which may be an option. The value
of an option follows an equals sign or its letter, or is the next word, unless that begins with a
dash. The word `--` ends the options. Of the other words the first is the subcommand, and those
after it are its operands.

The value of an option that is a word of its own, like that of an operand, is looked at only when
the next option or operand comes, or at the end: until then the argument is pending.
-/

namespace ArchFacts.Command

/-- What an argument may be. -/
inductive ValueKind where
  /-- A path, which is not empty. -/
  | path
  /-- Any text. -/
  | text
  | direction
  | format
  deriving DecidableEq, Repr

namespace ValueKind

/-- Whether a text is a value of a kind. -/
def accepts (kind : ValueKind) (value : String) : Bool :=
  match kind with
  | path => value ≠ ""
  | text => true
  | direction => (Direction.ofTag? value).isSome
  | format => (FactFile.Format.ofTag? value).isSome

end ValueKind

/-- What an argument with dashes asks for. -/
inductive Effect where
  | flag
  | value (kind : ValueKind)
  | help
  | version
  deriving DecidableEq, Repr

/-- An argument with dashes. -/
structure OptionSpec where
  long : String
  short? : Option Char := none
  effect : Effect
  deriving DecidableEq, Repr

/-- What may follow a word of the command line that names a task, or stands before all of them. -/
structure Level where
  options : List OptionSpec
  /-- The names of the operands. -/
  operands : List String := []
  deriving DecidableEq, Repr

/-! ## What there is -/

/-- The options that stand before or after the subcommand. -/
def sharedOptions : List OptionSpec :=
  [{ long := "verbose", short? := some 'v', effect := .flag },
    { long := "quiet", short? := some 'q', effect := .flag },
    { long := "config", short? := some 'c', effect := .value .path },
    { long := "entity-relation", effect := .value .text },
    { long := "no-files", effect := .flag },
    { long := "no-subsystems", effect := .flag },
    { long := "json-mode", effect := .flag },
    { long := "help", short? := some 'h', effect := .help }]

/-- The option for the form of the output. -/
def formatOption : OptionSpec := { long := "format", short? := some 't', effect := .value .format }

/-- What may stand before the subcommand. -/
def rootLevel : Level where
  options := { long := "version", short? := some 'V', effect := .version } :: sharedOptions

/-- The subcommands, and what may follow each. -/
def subcommands : List (String × Level) :=
  [("check", { options := sharedOptions, operands := ["file"] }),
    ("status", { options := sharedOptions, operands := ["file"] }),
    ("query",
      { options :=
          [{ long := "id", effect := .value .text }, { long := "name", effect := .value .text },
            { long := "direction", short? := some 'd', effect := .value .direction },
            { long := "relation", short? := some 'r', effect := .value .text }] ++ sharedOptions
        operands := ["file"] }),
    ("ingest",
      { options :=
          [{ long := "records", short? := some 'r', effect := .value .path },
            { long := "base", short? := some 'b', effect := .value .path },
            { long := "output", short? := some 'o', effect := .value .path },
            { long := "hierarchy", effect := .flag }, formatOption] ++ sharedOptions }),
    ("convert",
      { options := formatOption :: sharedOptions, operands := ["input", "output"] })]

/-- The word that asks for help on a subcommand. -/
def helpWord : String := "help"

/-! ## Reading the words of one level -/

/-- The arguments that have been given: their names, with their values; flags have an empty one. -/
abbrev Given := List (String × String)

/-- An argument whose value has yet to come or to be looked at. -/
inductive Pending where
  | nothing
  /-- An option whose value is the next word. -/
  | awaiting (name : String) (kind : ValueKind)
  | value (name : String) (kind : ValueKind) (value : String)
  deriving DecidableEq, Repr

/-- How far the words of a level have been read. -/
structure Reading where
  given : Given := []
  pending : Pending := .nothing
  /-- How many operands have been read. -/
  operands : Nat := 0
  /-- Whether the options have been ended. -/
  ended : Bool := false
  deriving DecidableEq, Repr

namespace Reading

/-- Takes an argument; no argument may be given twice. -/
def give (r : Reading) (name value : String) : Except Stop Reading :=
  if r.given.any (·.1 = name) then .error (.conflict name)
  else .ok { r with given := (name, value) :: r.given }

/-- Takes an argument with a value. -/
def giveValue (r : Reading) (name : String) (kind : ValueKind) (value : String) :
    Except Stop Reading := do
  let r ← r.give name value
  if kind.accepts value then return r else throw (.invalidValue name value)

/-- Looks at the pending argument. -/
def settle (r : Reading) : Except Stop Reading :=
  match r.pending with
  | .nothing => .ok r
  | .awaiting name _ => .error (.invalidValue name "")
  | .value name kind value => { r with pending := .nothing }.giveValue name kind value

/-- Whether the next word is the value of an option. -/
def isAwaiting (r : Reading) : Bool :=
  match r.pending with
  | .awaiting .. => true
  | _ => false

/-- Takes an option, whose value may be attached to it. -/
def takeOption (r : Reading) (o : OptionSpec) (attached? : Option String) :
    Except Stop Reading := do
  match o.effect, attached? with
  | .value kind, some value => (← r.settle).giveValue o.long kind value
  | .value kind, none => return { ← r.settle with pending := .awaiting o.long kind }
  | _, some _ => throw (.tooManyValues o.long)
  | .flag, none => (← r.settle).give o.long ""
  | .help, none => let _ ← r.settle; throw .help
  | .version, none => let _ ← r.settle; throw .version

/-- Takes the letters after one dash. -/
def takeLetters (level : Level) (r : Reading) : List Char → Except Stop Reading
  | [] => .ok r
  | c :: rest =>
    match level.options.find? (·.short? = some c) with
    | none => .error (.unknownArgument ("-" ++ c.toString))
    | some o =>
      match o.effect with
      | .value _ =>
        r.takeOption o <|
          match rest with
          | [] => none
          | '=' :: value => some (String.ofList value)
          | value => some (String.ofList value)
      | _ => do takeLetters level (← r.takeOption o none) rest

/-- The name of an option and the value attached to it. -/
def splitLong (word : List Char) : String × Option String :=
  let name := String.ofList (word.takeWhile (· ≠ '='))
  match word.dropWhile (· ≠ '=') with
  | [] => (name, none)
  | _ :: value => (name, some (String.ofList value))

/-- Takes a word that begins with two dashes, without them. -/
def takeLong (level : Level) (r : Reading) (word : List Char) : Except Stop Reading :=
  let (name, attached?) := splitLong word
  match level.options.find? (·.long = name) with
  | some o => r.takeOption o attached?
  | none => .error (.unknownArgument ("--" ++ name))

/-- Takes an operand. -/
def takeOperand (level : Level) (r : Reading) (word : String) : Except Stop Reading :=
  match level.operands[r.operands]? with
  | some name => do
    return { ← r.settle with pending := .value name .path word, operands := r.operands + 1 }
  | none => .error (.unknownArgument word)

/-- Takes a word that is not a subcommand. -/
def take (level : Level) (r : Reading) (word : String) : Except Stop Reading :=
  if r.ended then r.takeOperand level word
  else
    match word.toList, r.pending with
    | ['-', '-'], _ => .ok { r with ended := true }
    | '-' :: '-' :: rest, _ => r.takeLong level rest
    | '-' :: c :: rest, _ => r.takeLetters level (c :: rest)
    | _, .awaiting name kind => .ok { r with pending := .value name kind word }
    | _, _ => r.takeOperand level word

end Reading

/-- Reads the words after a subcommand. -/
def readLevel (level : Level) (words : List String) : Except Stop Given := do
  return (← (← words.foldlM (Reading.take level) {}).settle).given

/-! ## From arguments to tasks -/

namespace Given

/-- Whether an argument is given. -/
def has (g : Given) (name : String) : Bool := g.any (·.1 = name)

/-- The value of an argument. -/
def value? (g : Given) (name : String) : Option String := (g.find? (·.1 = name)).map (·.2)

/-- The value of an argument that must be given. -/
def required (g : Given) (name : String) : Except Stop String :=
  match g.value? name with
  | some value => .ok value
  | none => .error (.missingArgument name)

/-- The form of the output; text if none is asked for. -/
def format (g : Given) : FactFile.Format :=
  ((g.value? "format").bind FactFile.Format.ofTag?).getD .text

/-- What picks the entities of a query. -/
def selector (g : Given) : Except Stop Selector :=
  match g.value? "id", g.value? "name" with
  | some _, some _ => .error (.conflict "id")
  | some id, none => .ok (.byId id)
  | none, some name => .ok (.byName name)
  | none, none => .error (.missingArgument "id")

/-- The task of a subcommand. -/
def task (g : Given) (subcommand : String) : Except Stop Task := do
  if subcommand = "check" then return .check (← g.required "file")
  else if subcommand = "status" then return .status (← g.required "file")
  else if subcommand = "query" then
    let selector ← g.selector
    let direction := ((g.value? "direction").bind Direction.ofTag?).getD .both
    return .query (← g.required "file") selector direction (g.value? "relation")
  else if subcommand = "ingest" then
    return .ingest (← g.required "records") (g.value? "base") (← g.required "output")
      (g.has "hierarchy") g.format
  else if subcommand = "convert" then
    return .convert (← g.required "input") (← g.required "output") g.format
  else throw (.invalidSubcommand subcommand)

/-- The options that every task has. What is given after the subcommand counts before what is given
before it. -/
def options (root sub : Given) : Options where
  verbose := has sub "verbose" || has root "verbose"
  quiet := has sub "quiet" || has root "quiet"
  config? := value? sub "config" <|> value? root "config"
  entityRelation? := value? sub "entity-relation" <|> value? root "entity-relation"
  noFiles := has sub "no-files" || has root "no-files"
  noSubsystems := has sub "no-subsystems" || has root "no-subsystems"
  json := has sub "json-mode" || has root "json-mode"

end Given

/-- Answers a request for help on some subcommand; subcommands have no subcommands. -/
def helpOn : List String → Stop
  | [] => .help
  | [word] =>
    if word = helpWord || subcommands.any (·.1 = word) then .help else .invalidSubcommand word
  | word :: next :: _ =>
    if word = helpWord || subcommands.any (·.1 = word) then .invalidSubcommand next
    else .invalidSubcommand word

/-- What to say of a word before the subcommand that is neither an option nor a subcommand. -/
def notASubcommand (r : Reading) (word : String) : Stop :=
  if r.ended && (word = helpWord || subcommands.any (·.1 = word)) then .unknownArgument word
  else .invalidSubcommand word

/-- Reads the words of a command line, of which some have been read. -/
def readRoot (r : Reading) : List String → Except Stop Invocation
  | [] => do
    let r ← r.settle
    throw (if r.given.isEmpty then .noArguments else .missingSubcommand)
  | word :: words => do
    if r.ended || r.isAwaiting then
      if r.ended then throw (notASubcommand r word)
      else readRoot (← r.take rootLevel word) words
    else if word = helpWord then throw (helpOn words)
    else
      match subcommands.find? (·.1 = word) with
      | some (name, level) =>
        let sub ← readLevel level words
        let task ← sub.task name
        return { options := Given.options (← r.settle).given sub, task }
      | none =>
        if word.toList.head? = some '-' && word ≠ "-" then
          readRoot (← r.take rootLevel word) words
        else throw (notASubcommand r word)

/-- What the words of a command line ask for. -/
def parse (words : List String) : Except Stop Invocation := readRoot {} words

end ArchFacts.Command
