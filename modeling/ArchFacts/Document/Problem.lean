import ArchFacts.Token.Basic

/-!
# What can be wrong with a line of a fact base
-/

namespace ArchFacts

/-- What a line of a fact base should go on with. -/
inductive Wanted where
  /-- A word of a relation line. -/
  | word
  /-- The target of a block. -/
  | target
  | firstId
  | secondId
  | pairEnd
  | openBrace
  | equals (key : String)
  | keyOrEnd
  | value (key : String)
  | valueOrEnd
  deriving DecidableEq, Repr

namespace Wanted

/-- How messages call what is wanted. -/
def text : Wanted → String
  | word => "a word"
  | target => "an entity id or \x60(\x60"
  | firstId => "the first id of an edge target"
  | secondId => "the second id of an edge target"
  | pairEnd => "\x60)\x60 closing the edge target"
  | openBrace => "\x60\x7b\x60"
  | equals key => "\x60=\x60 after attribute key \x60" ++ key ++ "\x60"
  | keyOrEnd => "an attribute key or \x60\x7d\x60"
  | value key => "a value for \x60" ++ key ++ "\x60"
  | valueOrEnd => "a value or \x60)\x60"

end Wanted

/-- Why a line is not a line of a fact base. -/
inductive LineProblem where
  /-- A quote that opens at `column` is not closed. -/
  | unterminatedString (column : Nat)
  /-- A relation line does not have three words. -/
  | tokenCount (count : Nat)
  | unknownNodeKind (tag : String)
  | unknownRelation (name : String)
  /-- A token, or the end of the line, in the place of what is wanted. -/
  | expected (wanted : Wanted) (found : Option Token)
  | unclosedBlock
  | unclosedList (key : String)
  /-- A token after the end of a block. -/
  | trailing (found : Token)
  | repeatedScheme
  | attributesBeforeTuples
  /-- The text ends and no relation section has started. -/
  | missingTuples
  deriving DecidableEq, Repr

namespace LineProblem

/-- The text of a problem. -/
def message : LineProblem → String
  | unterminatedString column => s!"unterminated string starting at column {column}"
  | tokenCount count =>
    s!"expected \x60relation first second\x60, found {count} token(s)"
  | unknownNodeKind tag => s!"unknown node kind \x60{tag}\x60"
  | unknownRelation name => s!"unknown relation \x60{name}\x60"
  | expected wanted (some t) =>
    s!"expected {wanted.text} at column {t.column}, found {t.kind.display}"
  | expected wanted none => s!"expected {wanted.text}, found end of line"
  | unclosedBlock => "unterminated \x60\x7b\x60"
  | unclosedList key => s!"unterminated \x60(\x60 in value of \x60{key}\x60"
  | trailing t => s!"unexpected {t.kind.display} at column {t.column} after \x60\x7d\x60"
  | repeatedScheme => "SCHEME TUPLE header repeated inside the scheme section"
  | attributesBeforeTuples => "FACT ATTRIBUTE section before any FACT TUPLE section"
  | missingTuples => "missing FACT TUPLE section"

end LineProblem

end ArchFacts
