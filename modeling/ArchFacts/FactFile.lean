import ArchFacts.Document.Load
import ArchFacts.Document.Render
import ArchFacts.Host.Basic
import ArchFacts.Host.FilePath
import ArchFacts.Snapshot.Basic

/-!
# Files that hold a fact base

A fact base is kept in a file as text or as a snapshot. A file that begins with the mark of
snapshots is read as one, any other file as text.
-/

namespace ArchFacts.FactFile

/-- The forms in which a fact base is kept. -/
inductive Format where
  | text
  | snapshot
  deriving DecidableEq, Repr

namespace Format

/-- The word for a format. -/
def tag : Format → String
  | text => "ta"
  | snapshot => "snapshot"

/-- The format that a word stands for. -/
def ofTag? (word : String) : Option Format := [text, snapshot].find? (·.tag == word)

end Format

/-- The largest text that is read, in bytes. -/
def textLimit : Nat := 256 * 1024 * 1024

/-! ## Contents -/

/-- Whether some bytes are those of a snapshot. -/
def isSnapshot (bytes : ByteArray) : Bool := bytes.data.toList.take 4 = Snapshot.magicBytes

/-- The text that the bytes of a file spell. -/
def textOf (path : String) (bytes : ByteArray) : Except FactError String :=
  match String.fromUTF8? bytes with
  | some text => .ok text
  | none => .error (.file path "stream did not contain valid UTF-8")

/-- The store that the contents of a file describe, and what the load did if they are text. -/
def decode (config : Config) (path : String) (bytes : ByteArray) :
    Except FactError (Store × Option LoadReport) :=
  if isSnapshot bytes then (Snapshot.decode bytes).map (·, none)
  else do
    let (report, s) ← (∅ : Store).load config (← textOf path bytes)
    return (s, some report)

/-- The contents of a file for a store. -/
def encode (config : Config) (date : String) (format : Format) (s : Store) : ByteArray :=
  match format with
  | .text => (s.render config date).toUTF8
  | .snapshot => Snapshot.encode s

/-! ## Files -/

variable {m : Type → Type} [Monad m] [Host m]

/-- An operation of the machine on a path. -/
def onPath {α : Type} (path : String) (op : m (Except OsError α)) : ExceptT FactError m α :=
  ExceptT.mk do return (← op).mapError fun e => .file path e.message

/-- Refuses a file that is too large. -/
def checkSize (path : String) (limit : Nat) : ExceptT FactError m Unit := do
  let size ← onPath path (Host.size path)
  if size > limit then
    throw (.file path
      s!"file size {size} bytes exceeds maximum allowed {limit} bytes")

/-- The text of a file. -/
def readText (path : String) : ExceptT FactError m String := do
  checkSize path textLimit
  let bytes ← onPath path (Host.read path)
  ExceptT.mk (pure (textOf path bytes))

/-- Reads the text of a file into a store. -/
def loadInto (config : Config) (path : String) (s : Store) :
    ExceptT FactError m (LoadReport × Store) := do
  let text ← readText path
  ExceptT.mk (pure (s.load config text))

/-- The store that the text of a file describes. -/
def load (config : Config) (path : String) : ExceptT FactError m Store := do
  return (← loadInto config path ∅).2

/-- Writes a store as text to a file, in one step. -/
def save (config : Config) (path : String) (s : Store) : ExceptT FactError m Unit := do
  let date ← liftM (Host.date : m String)
  onPath path (Host.replace path (encode config date .text s))

/-- The absolute path of a file that is to be read. -/
def inputPath (path : String) : ExceptT FactError m String := do
  let canonical ← onPath path (Host.canonicalize path)
  if ← liftM (Host.isFile canonical : m Bool) then return canonical
  else throw (.file path "not a regular file")

/-- The absolute path of a file that is to be written. -/
def outputPath (path : String) : ExceptT FactError m String := do
  let dir := FilePath.directory path
  let canonical ← onPath dir (Host.canonicalize dir)
  if !(← liftM (Host.isDirectory canonical : m Bool)) then throw (.file dir "not a directory")
  match FilePath.name? path with
  | some name => return FilePath.join canonical name
  | none => throw (.file path "output path has no file name")

/-- The store that a file describes, and what the load did if the file is text. -/
def read (config : Config) (path : String) :
    ExceptT FactError m (Store × Option LoadReport) := do
  let canonical ← inputPath path
  let head ← onPath canonical (Host.head canonical 4)
  if isSnapshot head then
    checkSize canonical Snapshot.sizeLimit
    let bytes ← onPath path (Host.read canonical)
    ExceptT.mk (pure (decode config canonical bytes))
  else
    checkSize canonical textLimit
    let bytes ← onPath canonical (Host.read canonical)
    ExceptT.mk (pure (decode config canonical bytes))

/-- Writes a store to a file. -/
def write (config : Config) (path : String) (format : Format) (s : Store) :
    ExceptT FactError m Unit := do
  let canonical ← outputPath path
  match format with
  | .text => save config canonical s
  | .snapshot => onPath path (Host.write canonical (Snapshot.encode s))

end ArchFacts.FactFile
