import ArchFacts.Text.Blank
import ArchFacts.Token.Basic

/-!
# From characters to tokens

`Token.scan` reads one line. A blank ends a word. Two slashes start a comment that ends with the
line; a slash and a star start one that ends with a star and a slash, if need be on a later line, so
a line may begin inside a comment and may leave one open. Text between double quotes belongs to the
word it touches, whatever it holds; in it a backslash before `"` or a backslash stands for that
character, and before `n` or `r` for a line end. A quote that the line does not close is the only
error there is.
-/

namespace ArchFacts

namespace Token

/-- A word that is being read. -/
structure OpenWord where
  /-- Where it starts. -/
  column : Nat
  /-- What has been read of it. -/
  text : String
  deriving DecidableEq, Repr

/-- What the next character belongs to. -/
inductive Place where
  /-- A comment that an end mark closes. -/
  | comment
  /-- Neither a comment nor a quoted text; `word?` is the word it would continue. -/
  | plain (word? : Option OpenWord)
  /-- A quoted text in `word`, opened at the column `opened`. -/
  | quoted (word : OpenWord) (opened : Nat)
  deriving DecidableEq, Repr

/-- What one line holds. -/
structure Scan where
  /-- The tokens in order, or the column of the quote that the line leaves open. -/
  tokens : Except Nat (List Token)
  /-- Whether the line leaves a comment open. -/
  inComment : Bool

namespace Scan

/-- A line with one more token, before all others. -/
def cons (t : Token) (s : Scan) : Scan := { s with tokens := s.tokens.map (t :: ·) }

/-- A line with one more word, before all others, if there is a word. -/
def consWord (line : Nat) (word? : Option OpenWord) (s : Scan) : Scan :=
  match word? with
  | some w => s.cons ⟨.word w.text, line, w.column⟩
  | none => s

end Scan

/-- The character that a backslash and this character stand for in a quoted text. -/
def unescape? : Char → Option Char
  | '"' => some '"'
  | '\\' => some '\\'
  | 'n' => some '\n'
  | 'r' => some '\r'
  | _ => none

/-- Whether a line comment starts with this character. -/
def startsLineComment (c : Char) (rest : List Char) : Bool := c = '/' && rest.head? = some '/'

/-- The tokens of `chars`, the part of a line from `column` on, at a place. -/
def scanFrom (mode : LexMode) (line : Nat) : Place → Nat → List Char → Scan
  | .comment, _, [] => { tokens := .ok [], inComment := true }
  | .comment, column, c :: rest =>
    match c, rest with
    | '*', '/' :: rest => scanFrom mode line (.plain none) (column + 2) rest
    | _, rest => scanFrom mode line .comment (column + 1) rest
  | .plain word?, _, [] => .consWord line word? { tokens := .ok [], inComment := false }
  | .plain word?, column, c :: rest =>
    if startsLineComment c rest then .consWord line word? { tokens := .ok [], inComment := false }
    else
      match c, rest with
      | '/', '*' :: rest => .consWord line word? (scanFrom mode line .comment (column + 2) rest)
      | '"', rest => scanFrom mode line (.quoted (word?.getD ⟨column, ""⟩) column) (column + 1) rest
      | c, rest =>
        if Text.isBlank c then
          .consWord line word? (scanFrom mode line (.plain none) (column + 1) rest)
        else
          match mode.punctuation? c with
          | some kind =>
            .consWord line word?
              (.cons ⟨kind, line, column⟩ (scanFrom mode line (.plain none) (column + 1) rest))
          | none =>
            let word := word?.getD ⟨column, ""⟩
            let word := { word with text := word.text.push c }
            scanFrom mode line (.plain (some word)) (column + 1) rest
  | .quoted _ opened, _, [] => { tokens := .error opened, inComment := false }
  | .quoted word opened, column, c :: rest =>
    match c, rest with
    | '"', rest => scanFrom mode line (.plain (some word)) (column + 1) rest
    | '\\', e :: rest =>
      match unescape? e with
      | some c =>
        scanFrom mode line (.quoted { word with text := word.text.push c } opened) (column + 2) rest
      | none =>
        scanFrom mode line (.quoted { word with text := word.text.push '\\' } opened) (column + 1)
          (e :: rest)
    | c, rest =>
      scanFrom mode line (.quoted { word with text := word.text.push c } opened) (column + 1) rest

/-- How a character is read that begins neither a quoted text nor a comment over several lines. -/
theorem scanFrom_plain {mode : LexMode} {line column : Nat} {word? : Option OpenWord} {c : Char}
    {rest : List Char} (hquote : c ≠ '"') (hcomment : c = '/' → rest.head? ≠ some '*') :
    scanFrom mode line (.plain word?) column (c :: rest) =
      if startsLineComment c rest then .consWord line word? { tokens := .ok [], inComment := false }
      else if Text.isBlank c then
        .consWord line word? (scanFrom mode line (.plain none) (column + 1) rest)
      else
        match mode.punctuation? c with
        | some kind =>
          .consWord line word?
            (.cons ⟨kind, line, column⟩ (scanFrom mode line (.plain none) (column + 1) rest))
        | none =>
          scanFrom mode line (.plain (some { word?.getD ⟨column, ""⟩ with
            text := (word?.getD ⟨column, ""⟩).text.push c })) (column + 1) rest := by
  rw [scanFrom]
  · exact hquote
  · rintro _ rfl rfl
    exact hcomment rfl rfl

/-- The tokens of a line. `inComment` says whether the line before it left a comment open. -/
def scan (mode : LexMode) (inComment : Bool) (line : Nat) (text : List Char) : Scan :=
  scanFrom mode line (if inComment then .comment else .plain none) 1 text

end Token

end ArchFacts
