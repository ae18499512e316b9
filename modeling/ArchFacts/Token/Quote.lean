import ArchFacts.Text.Blank
import ArchFacts.Token.Basic

/-!
# Writing words

A word is written as it is where that reads back as the word in every mode, and else between double
quotes.
-/

namespace ArchFacts.Token

/-- Whether two characters in a row start a comment. -/
def hasCommentMark : List Char → Bool
  | [] => false
  | c :: rest => c = '/' && (rest.head? = some '/' || rest.head? = some '*') || hasCommentMark rest

/-- Whether a character can only be part of a word between quotes. -/
def isSpecial (c : Char) : Bool :=
  Text.isBlank c || (TokenKind.ofPunctuation? c).isSome || c = '"'

/-- Whether a word can only be written between quotes. -/
def needsQuoting (word : List Char) : Bool :=
  word.isEmpty || word.any isSpecial || hasCommentMark word

/-- A character between quotes. -/
def escapeChar : Char → List Char
  | '"' => ['\\', '"']
  | '\\' => ['\\', '\\']
  | '\n' => ['\\', 'n']
  | '\r' => ['\\', 'r']
  | c => [c]

/-- A word as it is written. -/
def quote (word : List Char) : List Char :=
  if needsQuoting word then '"' :: (word.flatMap escapeChar ++ ['"']) else word

end ArchFacts.Token
