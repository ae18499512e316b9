import ArchFacts.Json.Basic
import ArchFacts.Json.Decimal
import ArchFacts.Text.Hex

/-!
# Reading JSON

A text is cut into tokens, and the tokens are put together with a stack of the arrays and objects
that are open. Refused are, beside what JSON forbids, surrogates that are not a pair, numbers past
the range of double precision, and values that are nested too deeply.
-/

namespace ArchFacts.Json

/-- Why a text is not a JSON value. -/
inductive Problem where
  | unexpectedEnd
  | unexpectedCharacter (c : Char)
  | badEscape
  | badNumber (literal : String)
  /-- A number past the range of double precision. -/
  | numberOutOfRange (literal : String)
  /-- A token where it may not stand. -/
  | misplaced
  | tooDeep
  deriving DecidableEq, Repr

namespace Problem

/-- The text of a problem. -/
def message : Problem → String
  | unexpectedEnd => "unexpected end of text"
  | unexpectedCharacter c => "unexpected character " ++ quote c.toString
  | badEscape => "invalid escape in a string"
  | badNumber literal => "invalid number " ++ literal
  | numberOutOfRange literal => "number out of range: " ++ literal
  | misplaced => "a value, a key or a mark stands where it may not"
  | tooDeep => "values are nested too deeply"

end Problem

/-! ## Tokens -/

/-- A token of JSON. -/
inductive JsonToken where
  | openArray
  | closeArray
  | openObject
  | closeObject
  | comma
  | colon
  | scalar (value : Json)

namespace JsonToken

/-- The token that a mark stands for. -/
def ofMark? : Char → Option JsonToken
  | '[' => some openArray
  | ']' => some closeArray
  | '{' => some openObject
  | '}' => some closeObject
  | ',' => some comma
  | ':' => some colon
  | _ => none

/-- The token that a run of letters, digits and signs stands for. -/
def ofRun (run : List Char) : Except Problem JsonToken :=
  if run = ['n', 'u', 'l', 'l'] then .ok (scalar null)
  else if run = ['t', 'r', 'u', 'e'] then .ok (scalar (bool true))
  else if run = ['f', 'a', 'l', 's', 'e'] then .ok (scalar (bool false))
  else
    match Decimal.ofLiteral? run with
    | some d =>
      if d.outOfRange then .error (.numberOutOfRange (String.ofList run))
      else .ok (scalar (number (String.ofList run)))
    | none => .error (.badNumber (String.ofList run))

end JsonToken

/-- Whether a character can be part of a number. -/
def isNumberChar (c : Char) : Bool :=
  c.isDigit || c = '-' || c = '+' || c = '.' || c = 'e' || c = 'E'

/-- Whether a character is part of a number or of a word such as `null`. -/
def isRunChar (c : Char) : Bool := isNumberChar c || c.isLower

/-- Whether JSON allows a character between tokens. -/
def isSpace (c : Char) : Bool := c = ' ' || c = '\n' || c = '\t' || c = '\r'

/-- Where the reader of a string stands. -/
inductive Escape where
  /-- Between characters. -/
  | none
  /-- After a backslash. -/
  | started
  /-- Inside the four digits after `\u`: those that are missing, and the value of the others. -/
  | digits (missing value : Nat)

/-- Where the reader of a text stands. -/
inductive Place where
  | between
  /-- In a run of letters, digits and signs, the latest first. -/
  | run (read : List Char)
  /-- In a string. `high?` is the first half of a surrogate pair, whose second half must follow. -/
  | string (read : String) (high? : Option Nat) (escape : Escape)

/-- The character that a backslash and this character stand for. -/
def unescape? : Char → Option Char
  | '"' => some '"'
  | '\\' => some '\\'
  | '/' => some '/'
  | 'b' => some '\x08'
  | 'f' => some '\x0C'
  | 'n' => some '\n'
  | 'r' => some '\r'
  | 't' => some '\t'
  | _ => none

/-- Goes on in a string after an escape by a number of 16 bits. -/
def afterUnit (read : String) (high? : Option Nat) (unit : Nat) : Except Problem Place :=
  match high? with
  | some high =>
    if 0xDC00 ≤ unit && unit < 0xE000 then
      .ok (.string (read.push (Char.ofNat (0x10000 + (high - 0xD800) * 0x400 + (unit - 0xDC00))))
        none .none)
    else .error .badEscape
  | none =>
    if 0xD800 ≤ unit && unit < 0xDC00 then .ok (.string read (some unit) .none)
    else if 0xDC00 ≤ unit && unit < 0xE000 then .error .badEscape
    else .ok (.string (read.push (Char.ofNat unit)) none .none)

/-- Goes on in a string with the next character; `none` is the end of the string. -/
def inString (read : String) (high? : Option Nat) (escape : Escape) (c : Char) :
    Except Problem (Option Place) :=
  match escape with
  | .none =>
    if c = '\\' then .ok (some (.string read high? .started))
    else if high?.isSome then .error .badEscape
    else if c = '"' then .ok none
    else if c.toNat < 0x20 then .error (.unexpectedCharacter c)
    else .ok (some (.string (read.push c) none .none))
  | .started =>
    if c = 'u' then .ok (some (.string read high? (.digits 4 0)))
    else
      match unescape? c, high? with
      | some c, none => .ok (some (.string (read.push c) none .none))
      | _, _ => .error .badEscape
  | .digits missing value =>
    match Text.hexValue? c with
    | none => .error .badEscape
    | some d =>
      if missing ≤ 1 then (afterUnit read high? (16 * value + d)).map some
      else .ok (some (.string read high? (.digits (missing - 1) (16 * value + d))))

/-- Goes on between tokens with the next character: the token that it is, if it is one by itself,
and the place after it. -/
def startToken (c : Char) : Except Problem (Option JsonToken × Place) :=
  if isSpace c then .ok (none, .between)
  else if c = '"' then .ok (none, .string "" none .none)
  else if isRunChar c then .ok (none, .run [c])
  else
    match JsonToken.ofMark? c with
    | some t => .ok (some t, .between)
    | none => .error (.unexpectedCharacter c)

/-- The tokens of a text of which some have been read: those in `before`, the latest first. -/
def tokensFrom (before : List JsonToken) : Place → List Char → Except Problem (List JsonToken)
  | .between, [] => .ok before.reverse
  | .run read, [] => do return ((← JsonToken.ofRun read.reverse) :: before).reverse
  | .string .., [] => .error .unexpectedEnd
  | .between, c :: rest => do
    let (token?, place) ← startToken c
    tokensFrom (token?.toList ++ before) place rest
  | .run read, c :: rest =>
    if isRunChar c then tokensFrom before (.run (c :: read)) rest
    else do
      let t ← JsonToken.ofRun read.reverse
      let (token?, place) ← startToken c
      tokensFrom (token?.toList ++ t :: before) place rest
  | .string read high? escape, c :: rest => do
    match ← inString read high? escape c with
    | some place => tokensFrom before place rest
    | none => tokensFrom (.scalar (string read) :: before) .between rest

/-! ## Values -/

/-- An array or object that is open. What it holds so far stands with the latest first. -/
inductive Frame where
  | array (items : List Json)
  /-- The value of `key` comes next. -/
  | object (fields : List (String × Json)) (key : String)

/-- What may come next. -/
inductive Expected where
  | value
  /-- The first item of an array, or its end. -/
  | firstItem
  /-- The first key of an object, or its end. -/
  | firstKey
  /-- A key of an object that holds these fields. -/
  | key (fields : List (String × Json))
  /-- The colon after a key of an object that holds these fields. -/
  | colon (fields : List (String × Json)) (key : String)
  /-- After a value in the innermost array or object that is open. -/
  | afterItem (items : List Json)
  | afterField (fields : List (String × Json))
  /-- The end of the text. -/
  | nothing (value : Json)

/-- How many arrays and objects may be open at once. -/
def depthLimit : Nat := 127

/-- Ends a value inside the arrays and objects that are open. -/
def close (value : Json) : List Frame → List Frame × Expected
  | [] => ([], .nothing value)
  | .array items :: stack => (stack, .afterItem (value :: items))
  | .object fields key :: stack => (stack, .afterField ((key, value) :: fields))

/-- Opens an array or object. -/
def openFrame (stack : List Frame) (next : Expected) : Except Problem (List Frame × Expected) :=
  if stack.length < depthLimit then .ok (stack, next) else .error .tooDeep

/-- Starts a value with a token. -/
def startValue (stack : List Frame) : JsonToken → Except Problem (List Frame × Expected)
  | .scalar v => .ok (close v stack)
  | .openArray => openFrame stack .firstItem
  | .openObject => openFrame stack .firstKey
  | _ => .error .misplaced

/-- Goes on with the next token. -/
def step (stack : List Frame) (expected : Expected) (t : JsonToken) :
    Except Problem (List Frame × Expected) :=
  match expected, t with
  | .value, t => startValue stack t
  | .firstItem, .closeArray => .ok (close (.array []) stack)
  | .firstItem, t => startValue (.array [] :: stack) t
  | .firstKey, .closeObject => .ok (close (.object []) stack)
  | .firstKey, .scalar (.string key) => .ok (stack, .colon [] key)
  | .key fields, .scalar (.string key) => .ok (stack, .colon fields key)
  | .colon fields key, .colon => .ok (.object fields key :: stack, .value)
  | .afterItem items, .comma => .ok (.array items :: stack, .value)
  | .afterItem items, .closeArray => .ok (close (.array items.reverse) stack)
  | .afterField fields, .comma => .ok (stack, .key fields)
  | .afterField fields, .closeObject => .ok (close (.object fields.reverse) stack)
  | _, _ => .error .misplaced

/-- The value that some tokens spell. -/
def ofTokens (stack : List Frame) (expected : Expected) : List JsonToken → Except Problem Json
  | [] =>
    match expected with
    | .nothing value => .ok value
    | _ => .error .unexpectedEnd
  | t :: tokens => do
    let (stack, expected) ← step stack expected t
    ofTokens stack expected tokens

/-- The value that a text spells. -/
def read (text : String) : Except Problem Json := do
  ofTokens [] .value (← tokensFrom [] .between text.toList)

end ArchFacts.Json
