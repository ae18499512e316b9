/-!
# What can be wrong with a snapshot
-/

namespace ArchFacts.Snapshot

/-- The number of bytes of a header. -/
def headerSize : Nat := 5

/-- The version of the layout. -/
def currentVersion : UInt8 := 1

/-- The largest snapshot that is decoded, in bytes. -/
def sizeLimit : Nat := 500 * 1024 * 1024

/-- Why the part after the header cannot be decoded. -/
inductive PayloadProblem where
  | endOfBytes
  /-- A number has too many bytes, or does not fit its width. -/
  | badNumber
  | invalidText
  | badBool
  /-- A number that should tell a kind tells none. -/
  | unknownKind
  deriving DecidableEq, Repr

/-- Why bytes are no snapshot. -/
inductive Problem where
  | tooLarge (size : Nat)
  | tooShort (size : Nat)
  | badMagic
  | unsupportedVersion (version : UInt8)
  | corrupt (problem : PayloadProblem)
  deriving DecidableEq, Repr

namespace PayloadProblem

/-- The text of a problem. -/
def message : PayloadProblem → String
  | endOfBytes => "Hit the end of buffer, expected more data"
  | badNumber => "Found a varint that didn't terminate. Is the usize too big for this platform?"
  | invalidText => "Tried to parse invalid utf-8"
  | badBool => "Found a bool that wasn't 0 or 1"
  | unknownKind => "Serde Deserialization Error"

end PayloadProblem

namespace Problem

/-- The text of a problem. -/
def message : Problem → String
  | tooLarge size => s!"snapshot of {size} bytes exceeds the {sizeLimit} byte limit"
  | tooShort size => s!"snapshot too short: {size} bytes, header needs {headerSize}"
  | badMagic => "not a fact snapshot (bad magic bytes)"
  | unsupportedVersion version =>
    s!"unsupported snapshot version {version} (expected {currentVersion})"
  | corrupt problem => "corrupt snapshot payload: " ++ problem.message

end Problem

end ArchFacts.Snapshot
