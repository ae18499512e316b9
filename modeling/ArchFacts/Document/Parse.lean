import ArchFacts.Config
import ArchFacts.Document.Basic
import ArchFacts.Document.Problem
import ArchFacts.Text.Lines
import ArchFacts.Token.Scan

/-!
# From text to documents

A text is read line by line. A line that begins with a header opens a section; in the section of
tuples each line is a relation name and two words, in the section of attributes each line is a
block, and the lines of a scheme and those before the first section say nothing. The blocks have
this grammar:

    line   := target { entry* }
    target := word | ( word word )
    entry  := word = value
    value  := word | ( word* )

`Document.parse` reads a text; its only errors are format errors, at the first line that has one.
-/

namespace ArchFacts

/-! ## Lines of the two fact sections -/

namespace Statement

/-- The word that a token is. -/
def word (t : Token) : Except LineProblem String :=
  match t.kind with
  | .word text => .ok text
  | _ => .error (.expected .word (some t))

/-- The pair that a relation line states. -/
def tuple? (config : Config) (line : Nat) (tokens : List Token) : Except LineProblem Statement :=
  match tokens with
  | [relation, first, second] => do
    let relation ← word relation
    let first ← word first
    let second ← word second
    if relation = config.entityRelation then
      if (NodeKind.ofTag? second).isNone then throw (.unknownNodeKind second)
    else if (EdgeKind.ofTag? relation).isNone then throw (.unknownRelation relation)
    return .tuple relation ⟨first, second⟩ line
  | _ => .error (.tokenCount tokens.length)

/-- Takes a word from the front of some tokens. -/
def takeWord (wanted : Wanted) : List Token → Except LineProblem (String × List Token)
  | ⟨.word text, _, _⟩ :: rest => .ok (text, rest)
  | tokens => .error (.expected wanted tokens.head?)

/-- Takes a punctuation mark from the front of some tokens. -/
def takeMark (kind : TokenKind) (wanted : Wanted) : List Token → Except LineProblem (List Token)
  | t :: rest => if t.kind = kind then .ok rest else .error (.expected wanted (some t))
  | [] => .error (.expected wanted none)

/-- Takes the target of a block from the front of some tokens. -/
def takeTarget (tokens : List Token) : Except LineProblem (Target × List Token) :=
  match tokens with
  | ⟨.openParen, _, _⟩ :: rest => do
    let (source, rest) ← takeWord .firstId rest
    let (dest, rest) ← takeWord .secondId rest
    let rest ← takeMark .closeParen .pairEnd rest
    return (.pair source dest, rest)
  | ⟨.word id, _, _⟩ :: rest => .ok (.entity id, rest)
  | _ => .error (.expected .target tokens.head?)

mutual

/-- Adds the entries of a block to `a`, to the brace that closes the block and the line. -/
def readEntries (a : Attributes) : List Token → Except LineProblem Attributes
  | [] => .error .unclosedBlock
  | t :: rest =>
    match t.kind, rest with
    | .closeBrace, [] => .ok a
    | .closeBrace, extra :: _ => .error (.trailing extra)
    | .word key, ⟨.equals, _, _⟩ :: ⟨.word value, _, _⟩ :: rest =>
      readEntries (a.insert key value) rest
    | .word key, ⟨.equals, _, _⟩ :: ⟨.openParen, _, _⟩ :: rest => readValues key a rest
    | .word key, ⟨.equals, _, _⟩ :: rest => .error (.expected (.value key) rest.head?)
    | .word key, rest => .error (.expected (.equals key) rest.head?)
    | _, _ => .error (.expected .keyOrEnd (some t))

/-- Adds the values of a list under `key` to `a`, and then the entries after the list. -/
def readValues (key : String) (a : Attributes) : List Token → Except LineProblem Attributes
  | [] => .error (.unclosedList key)
  | t :: rest =>
    match t.kind with
    | .closeParen => readEntries a rest
    | .word value => readValues key (a.insert key value) rest
    | _ => .error (.expected .valueOrEnd (some t))

end

/-- The block that an attribute line states. -/
def block? (line : Nat) (tokens : List Token) : Except LineProblem Statement := do
  let (target, rest) ← takeTarget tokens
  let rest ← takeMark .openBrace .openBrace rest
  let attributes ← readEntries ∅ rest
  return .block { target, attributes, line }

end Statement

/-! ## Sections -/

/-- The headers of sections. -/
inductive Header where
  | scheme
  | tuples
  | attributes
  deriving DecidableEq, Repr

namespace Header

/-- The text with which a header begins. -/
def text : Header → String
  | scheme => "SCHEME TUPLE"
  | tuples => "FACT TUPLE"
  | attributes => "FACT ATTRIBUTE"

/-- The header with which a line begins, blanks apart, and the rest of the line. No header begins
another, so there is at most one. -/
def detect? (line : List Char) : Option (Header × List Char) :=
  [scheme, tuples, attributes].findSome? fun h =>
    (h.text.toList.isPrefixOf? (line.dropWhile Text.isBlank)).map (h, ·)

end Header

namespace Document

/-- What the reader of a text knows after some of its lines. -/
structure Progress where
  /-- The section the next line belongs to; none before the first header. -/
  current : Option Header := none
  /-- Whether a section of tuples has started. -/
  seenTuples : Bool := false
  /-- Whether the next line begins inside a comment. -/
  inComment : Bool := false
  /-- The number of lines read. -/
  line : Nat := 0
  /-- What the lines have stated. -/
  statements : Array Statement := #[]

namespace Progress

/-- Opens the section of a header. -/
def enter (p : Progress) (h : Header) : Except LineProblem Progress :=
  match h with
  | .scheme =>
    if p.current = some .scheme then .error .repeatedScheme
    else .ok { p with current := some .scheme }
  | .tuples => .ok { p with current := some .tuples, seenTuples := true }
  | .attributes =>
    if p.seenTuples then .ok { p with current := some .attributes }
    else .error .attributesBeforeTuples

/-- Reads what a line says in its section; `p` counts the line already. Nothing that stands in a
scheme is an error. -/
def readBody (config : Config) (p : Progress) (text : List Char) :
    Except LineProblem Progress := do
  let mode := if p.current = some .attributes then LexMode.punctuated else .words
  let scan := Token.scan mode p.inComment p.line text
  let p := { p with inComment := scan.inComment }
  if p.current = some .scheme then return p
  let tokens ← scan.tokens.mapError .unterminatedString
  match p.current with
  | some .tuples =>
    if tokens.isEmpty then return p
    return { p with statements := p.statements.push (← Statement.tuple? config p.line tokens) }
  | some .attributes =>
    if tokens.isEmpty then return p
    return { p with statements := p.statements.push (← Statement.block? p.line tokens) }
  | _ => return p

/-- Reads a line; `p` counts the line already. Inside a comment nothing is a header, and after a
header nothing but comments counts. -/
def readLine (config : Config) (p : Progress) (text : List Char) : Except LineProblem Progress :=
  match if p.inComment then none else Header.detect? text with
  | some (h, rest) => do
    let p ← p.enter h
    let scan := Token.scan .words p.inComment p.line rest
    let _ ← scan.tokens.mapError .unterminatedString
    return { p with inComment := scan.inComment }
  | none => p.readBody config text

/-- Reads the next line of a text. -/
def next (config : Config) (p : Progress) (text : List Char) : Except FactError Progress :=
  let line := p.line + 1
  (readLine config { p with line } text).mapError fun problem => .format line problem.message

end Progress

/-- The document that a text states under some settings. -/
def parse (config : Config) (text : String) : Except FactError Document := do
  let p ← (Text.lines (Text.dropMark text.toList)).foldlM (Progress.next config) {}
  if p.seenTuples then return ofStatements p.statements.toList
  else throw (.format p.line LineProblem.missingTuples.message)

end Document

end ArchFacts
