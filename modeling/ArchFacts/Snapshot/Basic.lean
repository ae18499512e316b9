import ArchFacts.Snapshot.Codec
import ArchFacts.Store.Basic

/-!
# Snapshots

A snapshot is a store in binary form: four bytes that mark it, a byte for the version of the layout,
the list of the entities and the list of the relations. Whatever follows these lists is ignored.
Indices are not written; they are computed anew.
-/

namespace ArchFacts.Snapshot

/-- What a snapshot begins with. -/
structure Header where
  magic : UInt8 × UInt8 × UInt8 × UInt8
  version : UInt8
  deriving DecidableEq, Repr

namespace Header

/-- The header of the snapshots that this library writes. -/
def current : Header where
  magic := (0x46, 0x42, 0x53, 0x4E)
  version := currentVersion

/-- A header as bytes. -/
def toBytes (h : Header) : List UInt8 :=
  [h.magic.1, h.magic.2.1, h.magic.2.2.1, h.magic.2.2.2, h.version]

/-- The header at the front of some bytes, and the bytes after it. -/
def ofBytes : List UInt8 → Except Problem (Header × List UInt8)
  | a :: b :: c :: d :: version :: rest => .ok (⟨(a, b, c, d), version⟩, rest)
  | bytes => .error (.tooShort bytes.length)

/-- What is wrong with a header, if anything is. -/
def problem? (h : Header) : Option Problem :=
  if h.magic ≠ current.magic then some .badMagic
  else if h.version ≠ currentVersion then some (.unsupportedVersion h.version)
  else none

end Header

/-- The bytes that mark a snapshot. -/
def magicBytes : List UInt8 := Header.current.toBytes.take 4

/-- The entities and relations of a store as bytes. -/
def putStore (s : Store) : List UInt8 :=
  putList putNode s.nodeList ++ putList putEdge s.edgeList

/-- Reads a store. -/
def getStore : Get Store := fun bytes => do
  let (nodes, rest) ← getList getNode bytes
  let (edges, rest) ← getList getEdge rest
  return (.ofLists nodes edges, rest)

/-- The snapshot of a store, as a list of bytes. -/
def toBytes (s : Store) : List UInt8 := Header.current.toBytes ++ putStore s

/-- The store of which some bytes are a snapshot. -/
def ofBytes (bytes : List UInt8) : Except Problem Store := do
  let (header, payload) ← Header.ofBytes bytes
  match header.problem? with
  | some p => throw p
  | none => ((getStore payload).map (·.1)).mapError .corrupt

/-- The snapshot of a store. -/
def encode (s : Store) : ByteArray := ⟨(toBytes s).toArray⟩

/-- The store of which some bytes are a snapshot. The size is checked before all else. -/
def decode (bytes : ByteArray) : Except FactError Store :=
  let result :=
    if bytes.size > sizeLimit then .error (.tooLarge bytes.size) else ofBytes bytes.data.toList
  result.mapError fun p => .serialization p.message

end ArchFacts.Snapshot
