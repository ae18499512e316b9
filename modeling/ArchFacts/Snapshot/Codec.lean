import ArchFacts.Fact
import ArchFacts.Snapshot.Problem

/-!
# The parts of a snapshot as bytes

A number is written in groups of seven bits, the lowest first, in bytes whose highest bit says that
more follow. A text is the number of its bytes and then its bytes in UTF-8; a list is the number of
its items and then its items. Each `put` function writes a part, and the `get` function of the same
name reads it from the front of some bytes and gives the bytes after it.

A reader accepts a number that is padded with empty groups, as long as it does not have more bytes
than the largest number of its width, and its last byte is no larger than that of this number.
-/

namespace ArchFacts.Snapshot

/-- Reads a part from the front of some bytes. -/
abbrev Get (α : Type) := List UInt8 → Except PayloadProblem (α × List UInt8)

/-- A width of numbers, by the largest number that has it: how many bytes it takes, and the last of
them. -/
structure Width where
  bytes : Nat
  lastByte : UInt8

/-- Numbers of 64 bits, which count bytes and items. -/
def count : Width := { bytes := 10, lastByte := 1 }

/-- Numbers of 32 bits, which tell kinds. -/
def choice : Width := { bytes := 5, lastByte := 15 }

/-- Writes a number. -/
def putNumber (n : Nat) : List UInt8 :=
  if n < 128 then [n.toUInt8] else (n % 128 + 128).toUInt8 :: putNumber (n / 128)

/-- Reads a number of at most `bytes` bytes, the last of which is at most `lastByte` if it is the
last that there may be. -/
def getNumberFrom (lastByte : UInt8) : Nat → Get Nat
  | 0, _ => .error .badNumber
  | _ + 1, [] => .error .endOfBytes
  | bytes + 1, b :: rest =>
    if b < 128 then
      if bytes = 0 && lastByte < b then .error .badNumber else .ok (b.toNat, rest)
    else
      match getNumberFrom lastByte bytes rest with
      | .ok (high, rest) => .ok (b.toNat - 128 + 128 * high, rest)
      | .error e => .error e

/-- Reads a number of a width. -/
def getNumber (w : Width) : Get Nat := getNumberFrom w.lastByte w.bytes

/-- Takes some number of bytes. -/
def getBytes (n : Nat) : Get (List UInt8) := fun bytes =>
  let (taken, rest) := bytes.splitAt n
  if taken.length = n then .ok (taken, rest) else .error .endOfBytes

/-- Writes a text. -/
def putText (s : String) : List UInt8 :=
  putNumber s.toByteArray.data.toList.length ++ s.toByteArray.data.toList

/-- Reads a text. -/
def getText : Get String := fun bytes => do
  let (n, rest) ← getNumber count bytes
  let (taken, rest) ← getBytes n rest
  match String.fromUTF8? (ByteArray.mk taken.toArray) with
  | some s => return (s, rest)
  | none => throw .invalidText

/-- Reads some number of items, which come after the items `before`, the latest first. -/
def getMany {α : Type} (get : Get α) (before : List α) : Nat → Get (List α)
  | 0, bytes => .ok (before.reverse, bytes)
  | n + 1, bytes =>
    match get bytes with
    | .ok (item, rest) => getMany get (item :: before) n rest
    | .error e => .error e

/-- Writes a list. -/
def putList {α : Type} (put : α → List UInt8) (items : List α) : List UInt8 :=
  putNumber items.length ++ items.flatMap put

/-- Reads a list. -/
def getList {α : Type} (get : Get α) : Get (List α) := fun bytes => do
  let (n, rest) ← getNumber count bytes
  getMany get [] n rest

/-- Writes a truth value. -/
def putBool (b : Bool) : List UInt8 := [if b then 1 else 0]

/-- Reads a truth value. -/
def getBool : Get Bool
  | [] => .error .endOfBytes
  | b :: rest =>
    if b = 0 then .ok (false, rest) else if b = 1 then .ok (true, rest) else .error .badBool

/-- Writes one of some choices as its place among them. -/
def putChoice {α : Type} [DecidableEq α] (choices : List α) (a : α) : List UInt8 :=
  putNumber (choices.idxOf a)

/-- Reads one of some choices. -/
def getChoice {α : Type} (choices : List α) : Get α := fun bytes => do
  let (n, rest) ← getNumber choice bytes
  match choices[n]? with
  | some a => return (a, rest)
  | none => throw .unknownKind

/-- Writes a key with its values. -/
def putEntry (entry : String × List String) : List UInt8 :=
  putText entry.1 ++ putList putText entry.2

/-- Reads a key with its values. -/
def getEntry : Get (String × List String) := fun bytes => do
  let (key, rest) ← getText bytes
  let (values, rest) ← getList getText rest
  return ((key, values), rest)

/-- Writes attributes. -/
def putAttributes (a : Attributes) : List UInt8 := putList putEntry a.toList

/-- Reads attributes. The lists are taken as they are; of two lists under one key the later
counts. -/
def getAttributes : Get Attributes := fun bytes => do
  let (entries, rest) ← getList getEntry bytes
  return (.ofLists entries, rest)

/-- Writes an entity. -/
def putNode (n : Node) : List UInt8 :=
  putText n.id ++ putText n.name ++ putChoice NodeKind.all n.kind ++ putAttributes n.attributes

/-- Reads an entity. -/
def getNode : Get Node := fun bytes => do
  let (id, rest) ← getText bytes
  let (name, rest) ← getText rest
  let (kind, rest) ← getChoice NodeKind.all rest
  let (attributes, rest) ← getAttributes rest
  return ({ id, name, kind, attributes }, rest)

/-- Writes a relation. -/
def putEdge (e : Edge) : List UInt8 :=
  putText e.source ++ putText e.dest ++ putChoice EdgeKind.all e.kind ++ putBool e.resolved ++
    putAttributes e.attributes

/-- Reads a relation. -/
def getEdge : Get Edge := fun bytes => do
  let (source, rest) ← getText bytes
  let (dest, rest) ← getText rest
  let (kind, rest) ← getChoice EdgeKind.all rest
  let (resolved, rest) ← getBool rest
  let (attributes, rest) ← getAttributes rest
  return ({ source, dest, kind, resolved, attributes }, rest)

end ArchFacts.Snapshot
