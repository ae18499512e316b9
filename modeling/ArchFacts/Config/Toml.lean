import ArchFacts.Config
import ArchFacts.Text.Hex
import ArchFacts.Text.Lines

/-!
# Settings files

A settings file is a TOML document that gives some of the settings a value, each at most once:
`include_files` and `include_subsystems` a truth value, `entity_relation` and `file_attribute` a
string. A setting that is not given keeps its default. Nothing else may stand in the file, so of
TOML's values only truth values and strings need to be read, and of its keys only simple ones.
-/

namespace ArchFacts.Config.Toml

/-- Why a text is not a settings file. -/
inductive Malformed where
  | unexpectedCharacter (c : Char)
  | badEscape
  | unterminatedString
  /-- A line is not a key, an equals sign and a value. -/
  | badLine
  | unknownSetting (key : String)
  | repeatedSetting (key : String)
  /-- A value is not of the type that its setting has. -/
  | badValue (key : String)
  deriving DecidableEq, Repr

namespace Malformed

/-- The text of a problem. -/
def message : Malformed → String
  | unexpectedCharacter c => "unexpected character " ++ Text.literal c.toString
  | badEscape => "invalid escape in a string"
  | unterminatedString => "a string is not closed"
  | badLine => "expected a key, an equals sign and a value"
  | unknownSetting key => "unknown field " ++ Text.literal key
  | repeatedSetting key => "duplicate key " ++ Text.literal key
  | badValue key => "wrong type of value for " ++ Text.literal key

end Malformed

/-! ## Tokens -/

/-- A token of a settings file. -/
inductive Token where
  /-- Letters, digits, underscores and dashes: a bare key or a truth value. -/
  | bare (text : String)
  | string (text : String)
  /-- A string that may span lines, which cannot be a key. -/
  | multilineString (text : String)
  | equals
  | newline
  deriving DecidableEq, Repr

/-- How a string is quoted. -/
structure Quotes where
  mark : Char
  /-- Whether the mark is written three times and the string may span lines. -/
  multiline : Bool
  deriving DecidableEq, Repr

/-- Where the reader of a string stands. -/
inductive Escape where
  /-- Between characters. -/
  | none
  /-- At the start of a string that may span lines, where a line end does not count. -/
  | first
  /-- After a backslash. -/
  | started
  /-- Inside the digits of a code point: those that are missing, and the value of the others. -/
  | digits (missing value : Nat)
  /-- After a backslash at the end of a line, where blanks and line ends are skipped. `ended` says
  whether the end of the line has been read. -/
  | skipping (ended : Bool)
  deriving DecidableEq, Repr

/-- Where the reader of a text stands. -/
inductive Place where
  | between
  | comment
  /-- In a bare word. -/
  | bare (read : String)
  /-- After one quote mark, or two, before it is known which quotes they open. -/
  | opening (mark : Char) (second : Bool)
  /-- In a string. `marks` quote marks have been read after `read`; in a string that may span lines
  three of them end it. -/
  | string (quotes : Quotes) (read : String) (escape : Escape) (marks : Nat)
  deriving DecidableEq, Repr

/-- Whether a character can be part of a bare key. -/
def isBareChar (c : Char) : Bool := c.isAlphanum || c = '_' || c = '-'

/-- Whether a character may stand in comments and strings; line ends apart, controls may not. -/
def isTextChar (c : Char) : Bool := c = '\t' || (0x20 ≤ c.toNat && c ≠ '\x7F')

/-- Whether a character parts the tokens of a line. A carriage return does, since it can only be
part of a line end. -/
def isSpace (c : Char) : Bool := c = ' ' || c = '\t' || c = '\r'

/-- The character that a backslash and this character stand for. -/
def unescape? : Char → Option Char
  | 'b' => some '\x08'
  | 't' => some '\t'
  | 'n' => some '\n'
  | 'f' => some '\x0C'
  | 'r' => some '\r'
  | 'e' => some '\x1B'
  | '"' => some '"'
  | '\\' => some '\\'
  | _ => none

/-- The number of digits of a code point after a backslash and this character. -/
def digitCount? : Char → Option Nat
  | 'x' => some 2
  | 'u' => some 4
  | 'U' => some 8
  | _ => none

/-- The character with a code point. -/
def charOf? (n : Nat) : Option Char := if n.isValidChar then some (Char.ofNat n) else none

/-- Goes on in a string with a character that stands for itself, or starts an escape. -/
def plainChar (quotes : Quotes) (read : String) (c : Char) : Except Malformed Place :=
  if c = '\\' && quotes.mark = '"' then .ok (.string quotes read .started 0)
  else if c = '\n' || c = '\r' then
    if quotes.multiline then .ok (.string quotes (read.push c) .none 0)
    else .error .unterminatedString
  else if isTextChar c then .ok (.string quotes (read.push c) .none 0)
  else .error (.unexpectedCharacter c)

/-- Goes on in a string with a character that does not end it. -/
def inString (quotes : Quotes) (read : String) (escape : Escape) (c : Char) :
    Except Malformed Place :=
  match escape with
  | .none => plainChar quotes read c
  | .first =>
    if c = '\r' then .ok (.string quotes read .first 0)
    else if c = '\n' then .ok (.string quotes read .none 0)
    else plainChar quotes read c
  | .started =>
    match unescape? c, digitCount? c with
    | some c, _ => .ok (.string quotes (read.push c) .none 0)
    | none, some n => .ok (.string quotes read (.digits n 0) 0)
    | none, none =>
      if quotes.multiline && isSpace c then .ok (.string quotes read (.skipping false) 0)
      else if quotes.multiline && c = '\n' then .ok (.string quotes read (.skipping true) 0)
      else .error .badEscape
  | .digits missing value =>
    match Text.hexValue? c with
    | none => .error .badEscape
    | some d =>
      if missing ≤ 1 then
        match charOf? (16 * value + d) with
        | some c => .ok (.string quotes (read.push c) .none 0)
        | none => .error .badEscape
      else .ok (.string quotes read (.digits (missing - 1) (16 * value + d)) 0)
  | .skipping ended =>
    if isSpace c then .ok (.string quotes read escape 0)
    else if c = '\n' then .ok (.string quotes read (.skipping true) 0)
    else if ended then plainChar quotes read c
    else .error .badEscape

/-- Whether a quote mark at this place belongs to the end of a string. -/
def Escape.isClosed : Escape → Bool
  | .none | .first | .skipping true => true
  | _ => false

/-- A text with some quote marks after it. -/
def pushMarks (read : String) (mark : Char) (marks : Nat) : String :=
  read ++ String.ofList (List.replicate marks mark)

/-- Goes on between tokens with the next character: the tokens it is by itself, and the place after
it. -/
def start (c : Char) : Except Malformed (List Token × Place) :=
  if c = '\n' then .ok ([.newline], .between)
  else if isSpace c then .ok ([], .between)
  else if c = '#' then .ok ([], .comment)
  else if c = '=' then .ok ([.equals], .between)
  else if c = '"' || c = '\'' then .ok ([], .opening c false)
  else if isBareChar c then .ok ([], .bare c.toString)
  else .error (.unexpectedCharacter c)

/-- Goes on between tokens after a token. -/
def startAfter (t : Token) (c : Char) : Except Malformed (List Token × Place) :=
  (start c).map fun (ts, place) => (t :: ts, place)

/-- Goes on with the next character: the tokens that it completes, and the place after it. -/
def step (place : Place) (c : Char) : Except Malformed (List Token × Place) :=
  match place with
  | .between => start c
  | .comment =>
    if c = '\n' then .ok ([.newline], .between)
    else if isTextChar c || c = '\r' then .ok ([], .comment)
    else .error (.unexpectedCharacter c)
  | .bare read =>
    if isBareChar c then .ok ([], .bare (read.push c)) else startAfter (.bare read) c
  | .opening mark false =>
    if c = mark then .ok ([], .opening mark true)
    else (inString ⟨mark, false⟩ "" .none c).map ([], ·)
  | .opening mark true =>
    if c = mark then .ok ([], .string ⟨mark, true⟩ "" .first 0) else startAfter (.string "") c
  | .string quotes read escape marks =>
    if c = quotes.mark && escape.isClosed then
      if !quotes.multiline then .ok ([.string read], .between)
      else if marks = 4 then .ok ([.multilineString (pushMarks read c 2)], .between)
      else .ok ([], .string quotes read .none (marks + 1))
    else if 3 ≤ marks then
      startAfter (.multilineString (pushMarks read quotes.mark (marks - 3))) c
    else (inString quotes (pushMarks read quotes.mark marks) escape c).map ([], ·)

/-- The tokens that the end of the text completes. -/
def finish : Place → Except Malformed (List Token)
  | .between | .comment => .ok []
  | .bare read => .ok [.bare read]
  | .opening _ true => .ok [.string ""]
  | .opening _ false => .error .unterminatedString
  | .string quotes read _ marks =>
    if 3 ≤ marks then .ok [.multilineString (pushMarks read quotes.mark (marks - 3))]
    else .error .unterminatedString

/-- Whether every carriage return stands before a line feed, with which it ends a line. -/
def hasWholeLineEnds : List Char → Bool
  | [] => true
  | c :: rest => (c ≠ '\r' || rest.head? = some '\n') && hasWholeLineEnds rest

/-- The tokens of a text. -/
def tokens (text : List Char) : Except Malformed (List Token) := do
  if !hasWholeLineEnds text then throw (.unexpectedCharacter '\r')
  let (ts, place) ← text.foldlM (fun (ts, place) c => do
    let (new, place) ← step place c
    return (ts ++ new.toArray, place)) ((#[] : Array Token), Place.between)
  return ts.toList ++ (← finish place)

/-! ## Settings -/

/-- Gives a setting a value. -/
def give (c : Config) (key : String) (value : Token) : Except Malformed Config :=
  let text? : Option String := match value with
    | .string s | .multilineString s => some s
    | _ => none
  let bool? : Option Bool :=
    if value = .bare "true" then some true
    else if value = .bare "false" then some false
    else none
  let orBad : Option Config → Except Malformed Config := fun
    | some c => .ok c
    | none => .error (.badValue key)
  if key = "include_files" then orBad (bool?.map ({ c with includeFiles := · }))
  else if key = "include_subsystems" then orBad (bool?.map ({ c with includeSubsystems := · }))
  else if key = "entity_relation" then orBad (text?.map ({ c with entityRelation := · }))
  else if key = "file_attribute" then orBad (text?.map ({ c with fileAttribute := · }))
  else .error (.unknownSetting key)

/-- The key that a token can be. -/
def key? : Token → Option String
  | .bare s | .string s => some s
  | _ => none

/-- Reads the lines of a settings file. `given` holds the keys of the lines before. -/
def readLines (c : Config) (given : List String) : List Token → Except Malformed Config
  | [] => .ok c
  | .newline :: rest => readLines c given rest
  | key :: .equals :: value :: rest =>
    match key? key with
    | none => .error .badLine
    | some key =>
      if key ∈ given then .error (.repeatedSetting key)
      else
        match give c key value, rest with
        | .error e, _ => .error e
        | .ok c, [] => .ok c
        | .ok c, .newline :: rest => readLines c (key :: given) rest
        | .ok _, _ => .error .badLine
  | _ => .error .badLine

/-- The settings that a text gives. -/
def read (text : String) : Except Malformed Config := do
  readLines {} [] (← tokens (Text.dropMark text.toList))

end ArchFacts.Config.Toml
