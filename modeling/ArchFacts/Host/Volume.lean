import ArchFacts.Host.Basic
import ArchFacts.Host.FilePath
import Std.Data.ExtTreeMap

/-!
# Files as a value

A volume holds files and directories in memory. Commands that run on a volume give a new volume, so
that what they do to files is a value to look at.
-/

namespace ArchFacts

/-- What a path leads to. -/
inductive Entry where
  | directory
  /-- A file of some bytes and then a number of zero bytes. -/
  | file (bytes : ByteArray) (zeros : Nat)

/-- Files and directories by their absolute paths, as lists of segments. -/
structure Volume where
  entries : Std.ExtTreeMap (List String) Entry := ∅
  /-- The directory in which relative paths start. -/
  current : List String := []
  /-- The date and time. -/
  date : String := ""

namespace Volume

/-- What is at an absolute path. The root and the directories above the current one are there. -/
def entry? (v : Volume) (path : List String) : Option Entry :=
  if path.isPrefixOf v.current then some .directory else v.entries[path]?

/-- Whether a directory is at an absolute path. -/
def hasDirectory (v : Volume) (path : List String) : Bool :=
  match v.entry? path with
  | some .directory => true
  | _ => false

/-- Follows a segment from an absolute path. -/
def follow (v : Volume) (path : List String) (segment : String) :
    Except OsError (List String) :=
  if !v.hasDirectory path then .error .notADirectory
  else if segment = "" || segment = "." then .ok path
  else if segment = ".." then .ok path.dropLast
  else if FilePath.segmentLimit < segment.utf8ByteSize then .error .nameTooLong
  else if (v.entry? (path ++ [segment])).isSome then .ok (path ++ [segment])
  else .error .notFound

/-- The absolute path at which some segments of a path begin. -/
def origin (v : Volume) (path : String) : List String :=
  if FilePath.isAbsolute path then [] else v.current

/-- The absolute path of what a path names. It is found segment by segment, so the length of the
path does not count. -/
def locate (v : Volume) (path : String) : Except OsError (List String) :=
  if FilePath.hasNul path then .error .nulInPath
  else if path = "" then .error .notFound
  else (FilePath.segments path).foldlM v.follow (v.origin path)

/-- What a path names. -/
def lookup (v : Volume) (path : String) : Except OsError Entry := do
  if !FilePath.hasNul path && FilePath.limit < path.utf8ByteSize then throw .nameTooLong
  (v.entry? (← v.locate path)).elim (.error .notFound) .ok

/-- An absolute path as text. -/
def display (path : List String) : String := "/" ++ "/".intercalate path

/-- The absolute path at which a file with a path is to be put. A path that ends with a slash can
only name a directory. -/
def destination (v : Volume) (path : String) : Except OsError (List String) := do
  if FilePath.limit < path.utf8ByteSize then throw .nameTooLong
  let parts := (FilePath.segments path).reverse
  match parts.dropWhile (· = "") with
  | [] => throw (if path = "" then .notFound else .busy)
  | last :: before =>
    let dir ← before.reverse.foldlM v.follow (v.origin path)
    if !v.hasDirectory dir then throw .notADirectory
    else if last = "." || last = ".." then throw .busy
    else if FilePath.segmentLimit < last.utf8ByteSize then throw .nameTooLong
    else if parts.head? = some "" then throw .notADirectory
    else if v.hasDirectory (dir ++ [last]) then throw .isADirectory
    else return dir ++ [last]

/-- Puts a file at a path. -/
def put (v : Volume) (path : String) (bytes : ByteArray) (zeros : Nat := 0) :
    Except OsError Volume :=
  (v.destination path).map fun p => { v with entries := v.entries.insert p (.file bytes zeros) }

/-- Writes a file. -/
def write (v : Volume) (path : String) (bytes : ByteArray) : Except OsError Volume :=
  if FilePath.hasNul path then .error .nulInPath else v.put path bytes

/-- The absolute path of a draft in a directory. No detour of the directory's path is left out. -/
def draftPath (v : Volume) (dir : String) : String :=
  let dir := if FilePath.isAbsolute dir then dir else FilePath.join (display v.current) dir
  FilePath.join dir (FilePath.draftName 0)

/-- Makes a draft in the directory of a path and then moves it to the path. -/
def replace (v : Volume) (path : String) (bytes : ByteArray) : Except OsError Volume := do
  let dir := FilePath.directory path
  if FilePath.hasNul dir then throw .nulInPath
  if FilePath.limit < (v.draftPath dir).utf8ByteSize then throw .nameTooLong
  if !v.hasDirectory (← v.locate dir) then throw .notADirectory
  if FilePath.hasNul path then throw .invalidArgument
  v.put path bytes

/-- The files of a volume, by absolute path. -/
def files (v : Volume) : List (List String × ByteArray × Nat) :=
  v.entries.toList.filterMap fun (path, entry) =>
    match entry with
    | .file bytes zeros => some (path, bytes, zeros)
    | .directory => none

/-- The bytes of a file. -/
def contents (bytes : ByteArray) (zeros : Nat) : ByteArray :=
  if zeros = 0 then bytes else ⟨bytes.data ++ Array.replicate zeros 0⟩

/-- Changes the volume by an operation that may be refused. -/
def change (f : Volume → Except OsError Volume) : StateM Volume (Except OsError Unit) := fun v =>
  match f v with
  | .ok v => (.ok (), v)
  | .error e => (.error e, v)

instance : Host (StateM Volume) where
  canonicalize path := do return ((← get).locate path).map display
  isFile path := do
    match (← get).lookup path with
    | .ok (.file ..) => return true
    | _ => return false
  isDirectory path := do
    match (← get).lookup path with
    | .ok .directory => return true
    | _ => return false
  size path := do
    return ((← get).lookup path).map fun
      | .file bytes zeros => bytes.size + zeros
      | .directory => 0
  head path n := do
    match (← get).lookup path with
    | .ok (.file bytes zeros) =>
      return .ok (contents (bytes.extract 0 n) (min zeros (n - bytes.size)))
    | .ok .directory => return .error .isADirectory
    | .error e => return .error e
  read path := do
    match (← get).lookup path with
    | .ok (.file bytes zeros) => return .ok (contents bytes zeros)
    | .ok .directory => return .error .isADirectory
    | .error e => return .error e
  write path bytes := change (·.write path bytes)
  replace path bytes := change (·.replace path bytes)
  date := do return (← get).date

end Volume

end ArchFacts
