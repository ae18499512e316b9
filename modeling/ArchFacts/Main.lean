import ArchFacts.Command.Arguments
import ArchFacts.Command.Run
import Std.Time.Format
import Std.Time.Zoned

/-!
# The program

Runs a command line on the machine the program runs on.
-/

namespace ArchFacts

/-- The number of a failure. Some operations report it as a negative one. -/
def failureNumber (code : UInt32) : Nat := code.toNat.min (UInt32.size - code.toNat)

/-- The kind of a failure that the machine reports. -/
def OsError.ofIO : IO.Error → OsError
  | .noFileOrDirectory .. => .notFound
  | .resourceBusy .. => .busy
  | e@(.inappropriateType _ code _) | e@(.invalidArgument _ code _) =>
    match failureNumber code with
    | 20 => .notADirectory
    | 21 => .isADirectory
    | 22 => .invalidArgument
    | 36 => .nameTooLong
    | _ => .other (toString e)
  | e => .other (toString e)

/-- Carries out an operation on a path that may fail. -/
def attempt {α : Type} (path : String) (op : IO α) : BaseIO (Except OsError α) := do
  if FilePath.hasNul path then return .error .nulInPath
  match ← op.toBaseIO with
  | .ok a => return .ok a
  | .error e => return .error (.ofIO e)

/-- What is at a path. -/
def metadata (path : String) : BaseIO (Except OsError IO.FS.Metadata) :=
  attempt path do ((← IO.currentDir) / path).metadata

/-- Whether there is something of a type at a path. -/
def hasType (type : IO.FS.FileType → Bool) (path : String) : BaseIO Bool := do
  match ← metadata path with
  | .ok m => return type m.type
  | .error _ => return false

instance : Host BaseIO where
  canonicalize path := do
    match ← metadata path with
    | .error e => return .error e
    | .ok _ => attempt path do return (← IO.FS.realPath path).toString
  isFile := hasType fun | .file => true | _ => false
  isDirectory := hasType fun | .dir => true | _ => false
  size path := do return (← metadata path).map (·.byteSize.toNat)
  head path n := attempt path (IO.FS.withFile path .read (·.read n.toUSize))
  read path := attempt path (IO.FS.readBinFile path)
  write path bytes := attempt path (IO.FS.writeBinFile path bytes)
  replace path bytes := do
    let dir := FilePath.directory path
    let name := FilePath.draftName (← IO.rand 0 899999)
    let drafted ← attempt dir do
      let draft := (← IO.currentDir) / dir / name
      IO.FS.writeBinFile draft bytes
      return draft
    match drafted with
    | .error e => return .error e
    | .ok draft =>
      if FilePath.hasNul path then
        discard (attempt dir (IO.FS.removeFile draft))
        return .error .invalidArgument
      attempt path do
        try IO.FS.rename draft path
        catch e =>
          IO.FS.removeFile draft
          throw e
  date := do
    match ← Std.Time.PlainDateTime.now.toBaseIO with
    | .ok now => return now.format "EEEE MMMM dd, uuuu HH:mm:ss"
    | .error _ => return ""

end ArchFacts

open ArchFacts in
/-- Carries out the words of a command line. -/
def main (words : List String) : IO UInt32 := do
  match Command.parse words with
  | .error stop =>
    if stop.exitCode = 0 then IO.println stop.message else IO.eprintln stop.message
    return stop.exitCode
  | .ok invocation =>
    match ← (Command.run invocation : BaseIO (Except FactError String)) with
    | .ok text =>
      IO.print text
      return 0
    | .error e =>
      IO.eprintln s!"Error: {e.message}"
      return 1
