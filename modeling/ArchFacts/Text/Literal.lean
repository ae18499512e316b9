import ArchFacts.Text.Hex
import ArchFacts.Text.Printable

/-!
# Quoted literals

Messages show a text that may hold anything as a literal between double quotes: characters that can
be shown stand for themselves, all others are written by escapes, so that the literal has one line
and shows every character.
-/

namespace ArchFacts.Text

/-- A character inside a quoted literal. -/
def literalChar (c : Char) : String :=
  if c = '\x00' then "\\0"
  else if c = '\t' then "\\t"
  else if c = '\n' then "\\n"
  else if c = '\r' then "\\r"
  else if c = '"' then "\\\""
  else if c = '\\' then "\\\\"
  else if isPrintable c then c.toString
  else "\\u\x7b" ++ hexDigits c.toNat ++ "\x7d"

/-- A text as a quoted literal. -/
def literal (s : String) : String :=
  "\"" ++ String.join (s.toList.map literalChar) ++ "\""

end ArchFacts.Text
