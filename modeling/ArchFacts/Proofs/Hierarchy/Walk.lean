import ArchFacts.Proofs.Hierarchy
import Mathlib.Logic.Relation

/-!
# The walk up from the files

The directories of a hierarchy are found by walking up from one file after another. A walk ends at
the first directory that is known already, for those above it are known too, unless they are still
to be walked to. What a state of the whole walk comes to in the end (`Walk.outcome`) is therefore
changed by no step (`Walk.Step.outcome_eq`), and each step leaves less to be done
(`Walk.Step.size_lt`). So every run ends, and with the same directories, `directories_exact`: those
that walks from all files to the top pass.
-/

namespace ArchFacts.Hierarchy

open Std (ExtTreeSet)

/-- Adds all directories above a path to some directories, whether they are among them or not. -/
def addAllAncestors (dirs : ExtTreeSet String) (path : String) : ExtTreeSet String :=
  match _h : Path.parent? path with
  | none => dirs
  | some dir => addAllAncestors (dirs.insert dir) dir
termination_by path.toList.length
decreasing_by exact Path.length_of_parent? _h

/-- A state of the walk. -/
structure Walk where
  /-- The files from which to walk up. -/
  files : List String
  /-- The directory to which the walk from a file has come; none if no walk is under way. -/
  current : Option String
  /-- The directories that are known. -/
  known : ExtTreeSet String

namespace Walk

/-- The walk begins with no directory known. -/
def start (h : Hierarchy) : Walk := { files := h.files.toList, current := none, known := ∅ }

/-- Steps of the walk. -/
inductive Step : Walk → Walk → Prop
  /-- The walk from the next file begins with the directory that holds it. -/
  | file {file : String} {files : List String} {known : ExtTreeSet String} :
    Step ⟨file :: files, none, known⟩ ⟨files, Path.parent? file, known⟩
  /-- The walk from a file ends at a directory that is known. -/
  | stop {files : List String} {dir : String} {known : ExtTreeSet String} (h : dir ∈ known) :
    Step ⟨files, some dir, known⟩ ⟨files, none, known⟩
  /-- A directory that is not known is so from now on, and the walk goes on above it. -/
  | climb {files : List String} {dir : String} {known : ExtTreeSet String} (h : dir ∉ known) :
    Step ⟨files, some dir, known⟩ ⟨files, Path.parent? dir, known.insert dir⟩

/-- The directories with which a walk ends. -/
def outcome (w : Walk) : ExtTreeSet String :=
  w.files.foldl addAncestors <|
    match w.current with
    | none => w.known
    | some dir => if w.known.contains dir then w.known else addAncestors (w.known.insert dir) dir

/-- A bound of the number of steps that a walk takes. -/
def size (w : Walk) : Nat :=
  (w.files.flatMap String.toList).length + w.files.length +
    w.current.elim 0 fun dir => dir.toList.length + 1

section
variable {w w' : Walk} {h : Hierarchy} {files : List String} {dir : String}
variable {known : ExtTreeSet String}

theorem size_parent?_le (path : String) :
    ((Path.parent? path).elim 0 fun dir => dir.toList.length + 1) ≤ path.toList.length := by
  cases hp : Path.parent? path with
  | none => exact Nat.zero_le _
  | some dir => exact Path.length_of_parent? hp

/-- A step leaves less to be done. -/
theorem Step.size_lt (hstep : Step w w') : w'.size < w.size := by
  cases hstep with
  | @file file files known =>
    have := size_parent?_le file
    simp only [size, List.flatMap_cons, List.length_append, List.length_cons, Option.elim_none]
    omega
  | stop => simp [size]
  | @climb files dir known _ =>
    have := size_parent?_le dir
    simp only [size, Option.elim_some]
    omega

theorem outcome_none : outcome ⟨files, none, known⟩ = files.foldl addAncestors known := rfl

theorem outcome_some : outcome ⟨files, some dir, known⟩ = files.foldl addAncestors
    (if known.contains dir then known else addAncestors (known.insert dir) dir) := rfl

/-- A walk that has just left a path comes to what is above the path. -/
theorem outcome_parent? (path : String) : outcome ⟨files, Path.parent? path, known⟩ =
    files.foldl addAncestors (addAncestors known path) := by
  cases hp : Path.parent? path with
  | none => rw [outcome_none, addAncestors_of_none hp]
  | some dir => rw [outcome_some, addAncestors_of_some hp]

/-- A step does not change what the walk comes to. -/
theorem Step.outcome_eq (hstep : Step w w') : w'.outcome = w.outcome := by
  cases hstep with
  | file => exact outcome_parent? _
  | stop hknown => rw [outcome_none, outcome_some, if_pos (ExtTreeSet.contains_iff_mem.2 hknown)]
  | climb hknown =>
    rw [outcome_parent?, outcome_some, if_neg (mt ExtTreeSet.contains_iff_mem.1 hknown)]

/-- A walk goes on until it has come to its end. -/
theorem exists_step_or_eq (w : Walk) : (∃ w', Step w w') ∨ w = ⟨[], none, w.outcome⟩ := by
  obtain ⟨files, current, known⟩ := w
  cases current with
  | some dir =>
    by_cases hknown : dir ∈ known
    · exact .inl ⟨_, .stop hknown⟩
    · exact .inl ⟨_, .climb hknown⟩
  | none =>
    cases files with
    | cons file files => exact .inl ⟨_, .file⟩
    | nil => exact .inr rfl

/-- No walk goes on without end. -/
theorem wellFounded_step : WellFounded fun w' w => Step w w' :=
  Subrelation.wf Step.size_lt (measure size).wf

/-- A walk that goes on as long as it can ends with what it comes to. -/
theorem reaches_outcome (w : Walk) : Relation.ReflTransGen Step w ⟨[], none, w.outcome⟩ := by
  induction w using wellFounded_step.induction with
  | _ w ih =>
    rcases exists_step_or_eq w with ⟨w', hstep⟩ | hend
    · exact .head hstep (hstep.outcome_eq ▸ ih w' hstep)
    · rw [← hend]

/-- All walks come to the directories of the hierarchy. -/
theorem outcome_of_reaches (hrun : Relation.ReflTransGen Step (start h) w) :
    w.outcome = h.directories := by
  induction hrun with
  | refl => rfl
  | tail _ hstep ih => rw [hstep.outcome_eq, ih]

end

end Walk

section
variable {dirs : ExtTreeSet String} {path dir : String} {h : Hierarchy}

/-- A walk to the top passes all directories above its path. -/
theorem mem_addAllAncestors_iff :
    dir ∈ addAllAncestors dirs path ↔ dir ∈ dirs ∨ Path.Above dir path := by
  fun_induction addAllAncestors dirs path with
  | case1 dirs path hnone =>
    have habove : ¬ Path.Above dir path := fun habove => by
      obtain ⟨p, hp, -⟩ := Path.above_iff.1 habove
      rw [hnone] at hp
      cases hp
    simp [habove]
  | case2 dirs path p hp ih =>
    have habove : Path.Above dir path ↔ dir = p ∨ Path.Above dir p := by
      rw [Path.above_iff]
      simp [hp]
    rw [ih, habove, ExtTreeSet.mem_insert, Std.LawfulEqCmp.compare_eq_iff_eq, eq_comm, or_assoc,
      or_left_comm]

theorem mem_foldl_addAllAncestors_iff {files : List String} :
    dir ∈ files.foldl addAllAncestors dirs ↔ dir ∈ dirs ∨ ∃ file ∈ files, Path.Above dir file := by
  induction files generalizing dirs with
  | nil => simp
  | cons file files ih =>
    rw [List.foldl_cons, ih, mem_addAllAncestors_iff, or_assoc]
    simp only [List.mem_cons, exists_eq_or_imp]

/-- Nothing is lost by ending a walk at a directory that is known. -/
theorem directories_eq (h : Hierarchy) :
    h.directories = h.files.toList.foldl addAllAncestors ∅ := by
  refine ExtTreeSet.ext_mem fun dir => ?_
  rw [mem_directories_iff, mem_foldl_addAllAncestors_iff]
  simp only [ExtTreeSet.mem_toList, ExtTreeSet.not_mem_empty, false_or]

/-- In the order of paths a directory comes after the one that holds it. -/
theorem parent_mem_before {before after : List String} {p : String}
    (hdirs : h.directories.toList = before ++ dir :: after) (hp : Path.parent? dir = some p) :
    p ∈ before := by
  have hmem : dir ∈ h.directories := ExtTreeSet.mem_toList.1 (by simp [hdirs])
  have hparent : p ∈ before ++ dir :: after :=
    hdirs ▸ ExtTreeSet.mem_toList.2 (closed_directories h dir hmem p hp)
  have hlt : compare p dir = .lt := Path.compare_parent? hp
  rcases List.mem_append.1 hparent with hbefore | hrest
  · exact hbefore
  · have hsorted : (dir :: after).Pairwise fun a b => compare a b = .lt :=
      (List.pairwise_append.1 (hdirs ▸ ExtTreeSet.ordered_toList)).2.1
    rcases List.mem_cons.1 hrest with rfl | hafter
    · simp at hlt
    · have hgt := (List.pairwise_cons.1 hsorted).1 p hafter
      rw [Std.OrientedCmp.gt_of_lt hgt] at hlt
      cases hlt

/-- **The early end of a walk loses nothing.** However many files there are, the walk ends, and with
the directories of the hierarchy. They are the non-empty texts with which, and a slash, a file
begins, the same as if every walk went on to the top. With a directory the one that holds it is
among them, and in increasing order it comes before. -/
theorem directories_exact (h : Hierarchy) :
    WellFounded (fun w' w => Walk.Step w w') ∧
    Relation.ReflTransGen Walk.Step (.start h) ⟨[], none, h.directories⟩ ∧
    (∀ w, Relation.ReflTransGen Walk.Step (.start h) w →
      (∃ w', Walk.Step w w') ∨ w = ⟨[], none, h.directories⟩) ∧
    (∀ dir, dir ∈ h.directories ↔
      ∃ file ∈ h.files, dir ≠ "" ∧ ∃ rest, file = dir ++ "/" ++ rest) ∧
    h.directories = h.files.toList.foldl addAllAncestors ∅ ∧
    (∀ dir ∈ h.directories, ∀ p, Path.parent? dir = some p → p ∈ h.directories) ∧
    h.directories.toList.Pairwise (fun a b => compare a b = .lt) ∧
    ∀ before dir after, h.directories.toList = before ++ dir :: after →
      ∀ p, Path.parent? dir = some p → p ∈ before := by
  refine ⟨Walk.wellFounded_step, Walk.reaches_outcome (.start h), fun w hrun => ?_,
    fun dir => mem_directories_iff, directories_eq h, closed_directories h,
    ExtTreeSet.ordered_toList, fun before dir after hdirs p hp => parent_mem_before hdirs hp⟩
  rw [← Walk.outcome_of_reaches hrun]
  exact w.exists_step_or_eq

end

end ArchFacts.Hierarchy
