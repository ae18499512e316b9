/-!
# Paths of files on the machine

The parts of a path as a user writes it. Empty segments and segments `.` after the first mean
nothing.
-/

namespace ArchFacts.FilePath

/-- The segments of a path. -/
def segments (path : String) : List String :=
  (path.toList.foldr (fun c parts =>
    match parts with
    | part :: rest => if c = '/' then [] :: parts else (c :: part) :: rest
    | [] => [[c]]) [[]]).map String.ofList

/-- Whether a path starts at the root. -/
def isAbsolute (path : String) : Bool := path.toList.head? = some '/'

/-- Segments, the last one first, from the last that means something on. -/
def trimEnd : List String → List String
  | [] => []
  | [first] => if first = "" then [] else [first]
  | s :: rest => if s = "" || s = "." then trimEnd rest else s :: rest

/-- The path of the directory that holds what a path names; empty for the directory one is in, and
none for the root and for the empty path. -/
def parent? (path : String) : Option String :=
  match trimEnd (segments path).reverse with
  | [] => none
  | _ :: before =>
    match trimEnd before with
    | [] => some (if isAbsolute path then "/" else "")
    | before => some ("/".intercalate before.reverse)

/-- The name that a path ends with; none if it ends with a step up or does not leave the directory
it starts in. -/
def name? (path : String) : Option String :=
  match trimEnd (segments path).reverse with
  | [] => none
  | s :: _ => if s = ".." || s = "." then none else some s

/-- Whether a path holds the character NUL. -/
def hasNul (path : String) : Bool := path.toList.contains '\x00'

/-- The largest number of bytes in a segment. -/
def segmentLimit : Nat := 255

/-- The largest number of bytes in a path. -/
def limit : Nat := 4095

/-- The path of a file in a directory. -/
def join (dir name : String) : String := if dir = "/" then dir ++ name else dir ++ "/" ++ name

/-- The directory that a file with this path is put into. -/
def directory (path : String) : String :=
  match parent? path with
  | none | some "" => "."
  | some dir => dir

/-- The name of a draft, a new file that is to take the place of another. All names of drafts have
the same length. -/
def draftName (n : Nat) : String := s!".tmp{100000 + n % 900000}"

end ArchFacts.FilePath
