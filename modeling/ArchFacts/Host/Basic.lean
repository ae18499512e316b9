/-!
# The machine a command runs on

Commands read and write files and ask for the date. `Host` lists what they need; a command is
written for any monad that offers it, so that it runs on a real machine and on a value alike.
-/

namespace ArchFacts

/-- Why the machine refuses an operation on a file. -/
inductive OsError where
  | notFound
  | notADirectory
  | isADirectory
  | busy
  | invalidArgument
  | nameTooLong
  /-- The machine ends a path at the character NUL, so a path that holds one is not passed on. -/
  | nulInPath
  | other (text : String)
  deriving DecidableEq, Repr

namespace OsError

/-- The text of an error, with the number by which the machine knows it, if it has met it. -/
def message : OsError → String
  | notFound => "No such file or directory (os error 2)"
  | notADirectory => "Not a directory (os error 20)"
  | isADirectory => "Is a directory (os error 21)"
  | busy => "Device or resource busy (os error 16)"
  | invalidArgument => "Invalid argument (os error 22)"
  | nameTooLong => "File name too long (os error 36)"
  | nulInPath => "file name contained an unexpected NUL byte"
  | other text => text

end OsError

/-- What a command needs from the machine it runs on. -/
class Host (m : Type → Type) where
  /-- The absolute path, without detours, of a file or directory that exists. -/
  canonicalize : String → m (Except OsError String)
  isFile : String → m Bool
  isDirectory : String → m Bool
  /-- The size in bytes. -/
  size : String → m (Except OsError Nat)
  /-- The first bytes of a file, at most as many as asked for. -/
  head : String → Nat → m (Except OsError ByteArray)
  read : String → m (Except OsError ByteArray)
  /-- Writes a file, over the one that is there. -/
  write : String → ByteArray → m (Except OsError Unit)
  /-- Puts a new file in the place of the one that is there, in one step. -/
  replace : String → ByteArray → m (Except OsError Unit)
  /-- The date and time, as the head of a fact base shows it. -/
  date : m String

end ArchFacts
