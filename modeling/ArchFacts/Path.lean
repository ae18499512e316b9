/-!
# Paths of source files

One file may be named in many ways. `Path.normalize?` picks one: segments are parted by single
slashes, segments that mean nothing are gone, and a segment `..` has been carried out where there is
a name before it. What is left of a relative path may begin with `..` segments; above the root of an
absolute path there is nothing, so there they are dropped.
-/

namespace ArchFacts.Path

/-- Whether a character parts two segments. -/
def isSeparator (c : Char) : Bool := c = '/' || c = '\\'

/-- The segments of a path. -/
def segments : List Char → List (List Char)
  | [] => [[]]
  | c :: rest =>
    if isSeparator c then [] :: segments rest
    else
      match segments rest with
      | s :: ss => (c :: s) :: ss
      | [] => [[c]]

/-- The segment that stays where it is. -/
def here : List Char := ['.']

/-- The segment that leads one level up. -/
def up : List Char := ['.', '.']

/-- Follows a segment. `stack` holds the segments so far, the last one first. -/
def follow (absolute : Bool) (stack : List (List Char)) (segment : List Char) :
    List (List Char) :=
  if segment = [] || segment = here then stack
  else if segment = up then
    match stack with
    | [] => if absolute then [] else [up]
    | last :: before => if last = up then (if absolute then stack else up :: stack) else before
  else segment :: stack

/-- Whether a path starts at the root. -/
def isAbsolute (path : List Char) : Bool := path.head? = some '/'

/-- The normal form of a path; none if the path leads nowhere. -/
def normalize? (path : String) : Option String :=
  let absolute := isAbsolute path.toList
  match (segments path.toList).foldl (follow absolute) [] with
  | [] => none
  | stack =>
    let joined := ['/'].intercalate stack.reverse
    some (String.ofList (if absolute then '/' :: joined else joined))

/-- A path cut at its last slash. -/
def cut? : List Char → Option (List Char × List Char)
  | [] => none
  | c :: rest =>
    match cut? rest with
    | some (before, name) => some (c :: before, name)
    | none => if c = '/' then some ([], rest) else none

/-- The directory that holds what a normal path names; none for the root and for a path that is a
single segment. -/
def parent? (path : String) : Option String :=
  match cut? path.toList with
  | some (c :: before, _) => some (String.ofList (c :: before))
  | _ => none

/-- The last segment of a normal path. -/
def name (path : String) : String :=
  match cut? path.toList with
  | some (_, name) => String.ofList name
  | none => path

theorem length_of_cut? {path before name : List Char} (h : cut? path = some (before, name)) :
    before.length < path.length := by
  induction path generalizing before with
  | nil => simp [cut?] at h
  | cons c rest ih =>
    simp only [cut?] at h
    split at h
    · next _ _ heq => cases h; simpa using ih heq
    · split at h <;> cases h; simp

theorem length_of_parent? {path dir : String} (h : parent? path = some dir) :
    dir.toList.length < path.toList.length := by
  unfold parent? at h
  split at h
  · next heq => cases h; simpa using length_of_cut? heq
  · cases h

end ArchFacts.Path
