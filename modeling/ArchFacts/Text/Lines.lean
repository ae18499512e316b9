/-!
# The lines of a text

A line ends with a line feed, or with a carriage return and a line feed. The end is not part of the
line, and a text that ends with a line end has no empty line after it. A carriage return anywhere
else is a character of its line.
-/

namespace ArchFacts.Text

/-- A line without the carriage return that precedes its line feed. -/
def dropReturn (line : List Char) : List Char :=
  if line.getLast? = some '\r' then line.dropLast else line

/-- The lines of a text of which some characters have been read: the lines in `before`, the latest
first, and the characters of the next line in `line`, the latest first. -/
def linesAfter (before : List (List Char)) (line : List Char) : List Char → List (List Char)
  | [] => (if line.isEmpty then before else line.reverse :: before).reverse
  | c :: rest =>
    if c = '\n' then linesAfter (dropReturn line.reverse :: before) [] rest
    else linesAfter before (c :: line) rest

/-- The lines of a text, in order. -/
def lines (text : List Char) : List (List Char) := linesAfter [] [] text

/-- The mark that some editors put at the start of a text to show how it is encoded. -/
def byteOrderMark : Char := '\uFEFF'

/-- A text without the byte order mark at its start, if it has one. Only one is taken away. -/
def dropMark (text : List Char) : List Char :=
  match text with
  | [] => []
  | c :: rest => if c = byteOrderMark then rest else text

end ArchFacts.Text
