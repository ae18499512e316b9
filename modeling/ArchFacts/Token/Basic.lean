/-!
# Tokens

The words and punctuation marks of a line of a fact base, each with the place where it starts.
-/

namespace ArchFacts

/-- What a token is. -/
inductive TokenKind where
  | word (text : String)
  | openBrace
  | closeBrace
  | openParen
  | closeParen
  | equals
  deriving DecidableEq, Repr

namespace TokenKind

/-- A token as messages show it. -/
def display : TokenKind → String
  | word text => "\x60" ++ text ++ "\x60"
  | openBrace => "\x60\x7b\x60"
  | closeBrace => "\x60\x7d\x60"
  | openParen => "\x60(\x60"
  | closeParen => "\x60)\x60"
  | equals => "\x60=\x60"

/-- The token that a punctuation mark stands for. -/
def ofPunctuation? : Char → Option TokenKind
  | '{' => some openBrace
  | '}' => some closeBrace
  | '(' => some openParen
  | ')' => some closeParen
  | '=' => some equals
  | _ => none

end TokenKind

/-- A token and where it starts; lines and columns count from 1. -/
structure Token where
  kind : TokenKind
  line : Nat
  column : Nat
  deriving DecidableEq, Repr

/-- Which characters are punctuation. -/
inductive LexMode where
  /-- None, as in a line of a relation: words are parted by blanks alone. -/
  | words
  /-- The braces, the parentheses and the equals sign, as in a line of attributes. -/
  | punctuated
  deriving DecidableEq, Repr

namespace LexMode

/-- The punctuation token that a character is in this mode. -/
def punctuation? (mode : LexMode) (c : Char) : Option TokenKind :=
  match mode with
  | words => none
  | punctuated => TokenKind.ofPunctuation? c

end LexMode

end ArchFacts
