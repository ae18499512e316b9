/-!
# JSON values and their text

A JSON value keeps the fields of an object in the order in which they are written, repetitions
included, and a number as it is written. Values are written compactly (`Json.compact`) or over
several lines (`Json.pretty`).
-/

namespace ArchFacts

/-- A JSON value. -/
inductive Json where
  | null
  | bool (b : Bool)
  | number (literal : String)
  | string (s : String)
  | array (items : List Json)
  | object (fields : List (String × Json))

namespace Json

/-- A natural number. -/
def nat (n : Nat) : Json := number (toString n)

/-- The digit that stands for a number below 16. -/
def hexDigit (n : Nat) : Char := Nat.digitChar n

/-- A character between the quotes of a string. Controls, quotes and backslashes are escaped. -/
def escapeChar (c : Char) : List Char :=
  if c = '"' then ['\\', '"']
  else if c = '\\' then ['\\', '\\']
  else if c = '\n' then ['\\', 'n']
  else if c = '\r' then ['\\', 'r']
  else if c = '\t' then ['\\', 't']
  else if c = '\x08' then ['\\', 'b']
  else if c = '\x0C' then ['\\', 'f']
  else if c.toNat < 0x20 then
    ['\\', 'u', '0', '0', hexDigit (c.toNat / 16), hexDigit (c.toNat % 16)]
  else [c]

/-- A string as it is written. -/
def quote (s : String) : String := String.ofList ('"' :: (s.toList.flatMap escapeChar ++ ['"']))

/-- Written parts with commas between them. -/
def commaSeparated : List String → String
  | [] => ""
  | part :: parts => parts.foldl (fun text part => text ++ "," ++ part) part

mutual

/-- A value on one line, without blanks. -/
def compact : Json → String
  | null => "null"
  | bool b => if b then "true" else "false"
  | number literal => literal
  | string s => quote s
  | array items => "[" ++ commaSeparated (compactItems items) ++ "]"
  | object fields => "\x7b" ++ commaSeparated (compactFields fields) ++ "\x7d"

/-- The items of an array. -/
def compactItems : List Json → List String
  | [] => []
  | item :: items => compact item :: compactItems items

/-- The fields of an object. -/
def compactFields : List (String × Json) → List String
  | [] => []
  | (key, value) :: fields => (quote key ++ ":" ++ compact value) :: compactFields fields

end

/-- Brackets around parts, each on a line of its own and indented by two spaces more than
`indent`. Without parts the brackets touch. -/
def enclose (opening closing indent : String) : List String → String
  | [] => opening ++ closing
  | part :: parts =>
    let inner := "\n" ++ indent ++ "  "
    parts.foldl (fun text part => text ++ "," ++ inner ++ part) (opening ++ inner ++ part) ++
      "\n" ++ indent ++ closing

mutual

/-- A value over several lines, all but the first of which are indented by at least `indent`. -/
def prettyAt (indent : String) : Json → String
  | array items => enclose "[" "]" indent (prettyItems (indent ++ "  ") items)
  | object fields => enclose "\x7b" "\x7d" indent (prettyFields (indent ++ "  ") fields)
  | null => "null"
  | bool b => if b then "true" else "false"
  | number literal => literal
  | string s => quote s

/-- The items of an array. -/
def prettyItems (indent : String) : List Json → List String
  | [] => []
  | item :: items => prettyAt indent item :: prettyItems indent items

/-- The fields of an object. -/
def prettyFields (indent : String) : List (String × Json) → List String
  | [] => []
  | (key, value) :: fields =>
    (quote key ++ ": " ++ prettyAt indent value) :: prettyFields indent fields

end

/-- A value over several lines, with two spaces for each level. -/
def pretty (j : Json) : String := prettyAt "" j

end Json

end ArchFacts
