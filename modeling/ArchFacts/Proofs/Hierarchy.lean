import ArchFacts.Hierarchy
import Mathlib.Data.List.Basic

/-!
# Directories of a hierarchy

The directories of a hierarchy are closed: the directory above a directory or a file of the
hierarchy is one of them (`closed_directories`, `parent_mem_directories`). So they are all that are
above its files, directly or not (`mem_directories_iff`). A directory comes before what it holds in
the order of paths (`compare_parent?`), so a pass over the directories in this order reaches each
after the one above it.
-/

namespace ArchFacts

namespace Path

/-- Whether a path begins with a directory. -/
def Above (dir path : String) : Prop := dir ≠ "" ∧ ∃ rest, path = dir ++ "/" ++ rest

/-- Whether a path is a directory and one segment more. -/
def Holds (dir path : String) : Prop :=
  dir ≠ "" ∧ ∃ last, '/' ∉ last.toList ∧ path = dir ++ "/" ++ last

/-- Whether a text is the last segment of a path. -/
def EndsIn (path last : String) : Prop :=
  '/' ∉ last.toList ∧ (path = last ∨ ∃ before, path = before ++ "/" ++ last)

/-- A path is what stands before and after the slash at which it is cut. -/
theorem eq_of_cut? {path before name : List Char} (h : cut? path = some (before, name)) :
    path = before ++ '/' :: name := by
  induction path generalizing before with
  | nil => cases h
  | cons c rest ih =>
    rw [cut?] at h
    split at h
    · next before' _ heq =>
      cases h
      rw [ih heq, List.cons_append]
    · split at h
      · next hc =>
        cases h
        rw [hc, List.nil_append]
      · cases h

/-- A text comes before each text that it begins. -/
theorem compare_append {s t : String} {c : Char} {cs : List Char}
    (h : t.toList = s.toList ++ c :: cs) : compare s t = .lt := by
  have hlist : ∀ l : List Char, l < l ++ c :: cs := by
    intro l
    induction l with
    | nil => exact List.nil_lt_cons c cs
    | cons d l ih => exact List.cons_lt_cons_iff.2 (.inr ⟨rfl, ih⟩)
  have hlt : s < t := String.lt_iff.2 (h ▸ hlist s.toList)
  exact compareOfLessAndEq_eq_lt.2 hlt

/-- A directory comes before what it holds. -/
theorem compare_parent? {path dir : String} (h : parent? path = some dir) :
    compare dir path = .lt := by
  unfold parent? at h
  split at h
  · next c before name heq =>
    cases h
    exact compare_append (by rw [String.toList_ofList, eq_of_cut? heq])
  · cases h

section
variable {l before segment : List Char} {path dir : String}

/-- A path without a slash is not cut. -/
theorem cut?_eq_none_iff : cut? l = none ↔ '/' ∉ l := by
  induction l with
  | nil => simp [cut?]
  | cons c l ih =>
    rw [cut?, List.mem_cons, not_or, ← ih]
    cases cut? l with
    | none => simp [eq_comm]
    | some x => simp

/-- A path is cut at its last slash. -/
theorem cut?_eq_some_iff : cut? l = some (before, segment) ↔
    l = before ++ '/' :: segment ∧ '/' ∉ segment := by
  constructor
  · intro h
    refine ⟨eq_of_cut? h, ?_⟩
    induction l generalizing before with
    | nil => cases h
    | cons c l ih =>
      rw [cut?] at h
      split at h
      · next heq =>
        cases h
        exact ih heq
      · next hnone =>
        split at h
        · cases h
          exact cut?_eq_none_iff.1 hnone
        · cases h
  · rintro ⟨rfl, hno⟩
    induction before with
    | nil => rw [List.nil_append, cut?, cut?_eq_none_iff.2 hno]; rfl
    | cons c before ih => rw [List.cons_append, cut?, ih]

theorem cut?_of_append {before last : String} (h : '/' ∉ last.toList) :
    cut? (before ++ "/" ++ last).toList = some (before.toList, last.toList) :=
  cut?_eq_some_iff.2 ⟨by simp, h⟩

/-- What a path is put together from after it has been cut. -/
theorem eq_append_of_cut? (h : cut? path.toList = some (before, segment)) :
    path = String.ofList before ++ "/" ++ String.ofList segment := by
  rw [← String.toList_inj, (cut?_eq_some_iff.1 h).1]
  simp

/-- The parent of a path is the directory that is the path less one segment. -/
theorem parent?_eq_some_iff : parent? path = some dir ↔ Holds dir path := by
  unfold parent?
  constructor
  · intro h
    split at h
    · next c before segment heq =>
      cases h
      refine ⟨fun h => by simpa using congrArg String.toList h, String.ofList segment, ?_,
        eq_append_of_cut? heq⟩
      simpa using (cut?_eq_some_iff.1 heq).2
    · cases h
  · rintro ⟨hdir, last, hno, rfl⟩
    obtain ⟨c, cs, hcs⟩ := List.exists_cons_of_ne_nil (mt String.toList_eq_nil_iff.1 hdir)
    rw [cut?_of_append hno, hcs]
    dsimp only
    rw [← hcs, String.ofList_toList]

/-- The name of a path is its last segment. -/
theorem name_eq_iff {last : String} : name path = last ↔ EndsIn path last := by
  unfold name
  constructor
  · rintro rfl
    split
    · next before segment heq =>
      exact ⟨by simpa using (cut?_eq_some_iff.1 heq).2, .inr ⟨_, eq_append_of_cut? heq⟩⟩
    · next hnone => exact ⟨cut?_eq_none_iff.1 hnone, .inl rfl⟩
  · rintro ⟨hno, rfl | ⟨before, rfl⟩⟩
    · rw [cut?_eq_none_iff.2 hno]
    · rw [cut?_of_append hno]
      exact String.ofList_toList

/-- The directories above a path are the first above it, and those above this one. -/
theorem above_iff : Above dir path ↔ ∃ p, parent? path = some p ∧ (dir = p ∨ Above dir p) := by
  constructor
  · rintro ⟨hdir, rest, rfl⟩
    cases hcut : cut? rest.toList with
    | none =>
      exact ⟨dir, parent?_eq_some_iff.2 ⟨hdir, rest, cut?_eq_none_iff.1 hcut, rfl⟩, .inl rfl⟩
    | some x =>
      obtain ⟨before, segment⟩ := x
      refine ⟨dir ++ "/" ++ String.ofList before, parent?_eq_some_iff.2 ⟨fun h => ?_,
        String.ofList segment, ?_, ?_⟩, .inr ⟨hdir, _, rfl⟩⟩
      · simpa using congrArg String.toList h
      · simpa using (cut?_eq_some_iff.1 hcut).2
      · rw [eq_append_of_cut? hcut]
        simp only [String.append_assoc]
  · rintro ⟨p, hp, hdir⟩
    obtain ⟨hne, last, -, rfl⟩ := parent?_eq_some_iff.1 hp
    rcases hdir with rfl | ⟨hdir, rest, rfl⟩
    · exact ⟨hne, last, rfl⟩
    · exact ⟨hdir, rest ++ "/" ++ last, by simp only [String.append_assoc]⟩

end

end Path

namespace Hierarchy

section
variable {dirs : Std.ExtTreeSet String} {path dir p : String} {h : Hierarchy}

/-- Whether the directory above each of some directories is one of them. -/
def Closed (dirs : Std.ExtTreeSet String) : Prop :=
  ∀ dir ∈ dirs, ∀ p, Path.parent? dir = some p → p ∈ dirs

theorem addAncestors_of_none (h : Path.parent? path = none) : addAncestors dirs path = dirs := by
  rw [addAncestors]
  split
  · rfl
  · next hsome =>
    rw [h] at hsome
    cases hsome

theorem addAncestors_of_some (h : Path.parent? path = some dir) :
    addAncestors dirs path =
      if dirs.contains dir then dirs else addAncestors (dirs.insert dir) dir := by
  rw [addAncestors]
  split
  · next hnone =>
    rw [h] at hnone
    cases hnone
  · next hsome =>
    rw [h] at hsome
    cases hsome
    rfl

/-- Adding the directories above a path keeps the directories that are there, adds the one above the
path, and closes directories that are closed but for the path itself. -/
theorem addAncestors_spec (hclosed : ∀ dir ∈ dirs, dir ≠ path →
      ∀ p, Path.parent? dir = some p → p ∈ dirs) :
    (∀ dir ∈ dirs, dir ∈ addAncestors dirs path) ∧
      (∀ p, Path.parent? path = some p → p ∈ addAncestors dirs path) ∧
      Closed (addAncestors dirs path) := by
  induction dirs, path using addAncestors.induct with
  | case1 dirs path hnone =>
    rw [addAncestors_of_none hnone]
    refine ⟨fun _ hdir => hdir, fun p hp => ?_, fun dir hdir p hp => ?_⟩
    · rw [hnone] at hp
      cases hp
    · refine hclosed dir hdir ?_ p hp
      rintro rfl
      rw [hnone] at hp
      cases hp
  | case2 dirs path dir hdir hmem =>
    have hmem' : dir ∈ dirs := by simpa using hmem
    rw [addAncestors_of_some hdir, if_pos hmem]
    refine ⟨fun _ h => h, fun p hp => ?_, fun d hd p hp => ?_⟩
    · rw [hdir] at hp
      cases hp
      exact hmem'
    · by_cases hpath : d = path
      · rw [hpath, hdir] at hp
        cases hp
        exact hmem'
      · exact hclosed d hd hpath p hp
  | case3 dirs path dir hdir hmem ih =>
    -- The directory that is added is the one whose own parent may still be missing.
    have hinsert : ∀ d ∈ dirs.insert dir, d ≠ dir → ∀ p, Path.parent? d = some p →
        p ∈ dirs.insert dir := by
      intro d hd hne p hp
      rw [Std.ExtTreeSet.mem_insert, Std.LawfulEqCmp.compare_eq_iff_eq] at hd ⊢
      by_cases hpath : d = path
      · rw [hpath, hdir] at hp
        cases hp
        exact .inl rfl
      · exact .inr (hclosed d (hd.resolve_left (Ne.symm hne)) hpath p hp)
    obtain ⟨hkeep, -, hall⟩ := ih hinsert
    rw [addAncestors_of_some hdir, if_neg hmem]
    refine ⟨fun d hd => hkeep d (Std.ExtTreeSet.mem_insert.2 (.inr hd)), fun p hp => ?_, hall⟩
    rw [hdir] at hp
    cases hp
    exact hkeep dir (Std.ExtTreeSet.mem_insert.2 (.inl Std.ReflCmp.compare_self))

/-- Adding the directories above some files keeps the directories that are there, adds those above
the files, and keeps closed directories closed. -/
theorem foldl_addAncestors_spec {files : List String} (hclosed : Closed dirs) :
    (∀ dir ∈ dirs, dir ∈ files.foldl addAncestors dirs) ∧
      (∀ file ∈ files, ∀ p, Path.parent? file = some p → p ∈ files.foldl addAncestors dirs) ∧
      Closed (files.foldl addAncestors dirs) := by
  induction files generalizing dirs with
  | nil => exact ⟨fun _ hdir => hdir, nofun, hclosed⟩
  | cons file files ih =>
    obtain ⟨hkeep, hparent, hall⟩ :=
      addAncestors_spec fun dir hdir _ => hclosed dir hdir
    obtain ⟨hkeep', hparent', hall'⟩ := ih hall
    refine ⟨fun dir hdir => hkeep' dir (hkeep dir hdir), ?_, hall'⟩
    rw [List.forall_mem_cons]
    exact ⟨fun p hp => hkeep' p (hparent p hp), hparent'⟩

/-- The directory above a directory of a hierarchy is one of them. -/
theorem closed_directories (h : Hierarchy) : Closed h.directories :=
  (foldl_addAncestors_spec fun _ hdir => absurd hdir Std.ExtTreeSet.not_mem_empty).2.2

/-- The directory above a file of a hierarchy is one of its directories. -/
theorem parent_mem_directories {file : String} (hf : file ∈ h.files.toList)
    (hp : Path.parent? file = some p) : p ∈ h.directories :=
  (foldl_addAncestors_spec fun _ hdir => absurd hdir Std.ExtTreeSet.not_mem_empty).2.1 file hf p hp

/-! ## Which directories there are -/

/-- What is added to the directories is above the path. -/
theorem mem_addAncestors (hdir : dir ∈ addAncestors dirs path) :
    dir ∈ dirs ∨ Path.Above dir path := by
  induction dirs, path using addAncestors.induct with
  | case1 dirs path hnone =>
    rw [addAncestors_of_none hnone] at hdir
    exact .inl hdir
  | case2 dirs path p hp hmem =>
    rw [addAncestors_of_some hp, if_pos hmem] at hdir
    exact .inl hdir
  | case3 dirs path p hp hmem ih =>
    rw [addAncestors_of_some hp, if_neg hmem] at hdir
    rcases ih hdir with hdir | hdir
    · rw [Std.ExtTreeSet.mem_insert, Std.LawfulEqCmp.compare_eq_iff_eq] at hdir
      exact hdir.symm.imp_right fun heq => Path.above_iff.2 ⟨p, hp, .inl heq.symm⟩
    · exact .inr (Path.above_iff.2 ⟨p, hp, .inr hdir⟩)

/-- A directory that has been added is above one of the files. -/
theorem mem_foldl_addAncestors {files : List String} (hdir : dir ∈ files.foldl addAncestors dirs) :
    dir ∈ dirs ∨ ∃ file ∈ files, Path.Above dir file := by
  induction files generalizing dirs with
  | nil => exact .inl hdir
  | cons file files ih =>
    rcases ih hdir with hdir | ⟨file', hfile', hdir⟩
    · exact (mem_addAncestors hdir).imp_right fun hdir => ⟨file, List.mem_cons_self, hdir⟩
    · exact .inr ⟨file', List.mem_cons_of_mem _ hfile', hdir⟩

/-- Closed directories among which is the first above a path have all that are above it. -/
theorem Closed.mem_of_above {path : String} (hclosed : Closed dirs)
    (hp : ∀ p, Path.parent? path = some p → p ∈ dirs) (hdir : Path.Above dir path) :
    dir ∈ dirs := by
  obtain ⟨p, hparent, rfl | hdir⟩ := Path.above_iff.1 hdir
  · exact hp dir hparent
  · exact hclosed.mem_of_above (hclosed p (hp p hparent)) hdir
termination_by path.toList.length
decreasing_by exact Path.length_of_parent? hparent

/-- The directories of a hierarchy are those above its files. -/
theorem mem_directories_iff : dir ∈ h.directories ↔ ∃ file ∈ h.files, Path.Above dir file := by
  simp only [← Std.ExtTreeSet.mem_toList (t := h.files)]
  constructor
  · intro hdir
    exact (mem_foldl_addAncestors hdir).resolve_left Std.ExtTreeSet.not_mem_empty
  · rintro ⟨file, hfile, hdir⟩
    exact (closed_directories h).mem_of_above (fun p => parent_mem_directories hfile) hdir

end

end Hierarchy

end ArchFacts
