import ArchFacts.Proofs.Hierarchy.Containers
import ArchFacts.Proofs.Path.Place

/-!
# Whether links follow the nesting of places

A directory is linked to what its path holds, that is to a path with one segment more. If this
segment is a name, the longer path leads to something directly inside the directory. But the longer
path may also lead up once more: then it is the directory that lies inside
(`Path.Normal.inside_or_up`). Both happen, since all containers have normal paths
(`Path.Normal.of_above`) and a normal path may begin with segments that lead up (`nesting_install`).
-/

namespace ArchFacts

open Std (ExtTreeSet)

namespace Path

/-- Whether a path leads to something that is directly inside a directory. -/
def Inside (dir path : String) : Prop :=
  isAbsolute path.toList = isAbsolute dir.toList ∧
    ∃ name, place path = { place dir with names := (place dir).names ++ [name] }

section
variable {dir path last : String} {k : Nat}

/-! ## One segment more -/

/-- A segment without separators is the only one. -/
theorem splitOnP_last (hno : '/' ∉ last.toList) (hback : '\\' ∉ last.toList) :
    last.toList.splitOnP isSeparator = [last.toList] := by
  refine List.splitOnP_eq_singleton fun c hc => ?_
  have hslash : c ≠ '/' := fun heq => hno (heq ▸ hc)
  have hbackslash : c ≠ '\\' := fun heq => hback (heq ▸ hc)
  simp [isSeparator, hslash, hbackslash]

theorem inner_ne_nil (path : String) : inner path ≠ [] := List.splitOnP_ne_nil _ _

/-- The segments of a path below a directory are those of the directory and then the others. -/
theorem inner_append (hdir : dir ≠ "") (q : String) :
    inner (dir ++ "/" ++ q) = inner dir ++ q.toList.splitOnP isSeparator := by
  have hlist : (dir ++ "/" ++ q).toList = dir.toList ++ '/' :: q.toList := by simp
  obtain ⟨c, cs, hcs⟩ := List.exists_cons_of_ne_nil (mt String.toList_eq_nil_iff.1 hdir)
  have hslash : isSeparator '/' = true := rfl
  rw [inner, inner, (place_append hdir q).1, hlist, ← List.splitOnP_append_cons _ _ hslash, hcs]
  cases isAbsolute (c :: cs) <;> rfl

/-- A normal path has one segment more than the directory that holds it. -/
theorem Normal.inner_of_holds (hn : Normal path) (h : Holds dir path) :
    ∃ last, inner path = inner dir ++ [last] ∧
      place path = (place dir).enter (isAbsolute dir.toList) last ∧
      isAbsolute path.toList = isAbsolute dir.toList := by
  obtain ⟨hdir, last, hno, rfl⟩ := h
  have hback : '\\' ∉ last.toList := fun hmem => hn.no_backslash (by simp [hmem])
  obtain ⟨hroot, hplace⟩ := place_append hdir last
  refine ⟨last.toList, ?_, ?_, hroot⟩
  · rw [inner_append hdir, splitOnP_last hno hback]
  · rw [hplace, splitOnP_last hno hback]
    rfl

/-- If the segments that lead up stand in front, they still do without the last segment; and if the
last one leads up, all do. -/
theorem ups_first_of_concat {segs names : List (List Char)} {s : List Char}
    (h : segs ++ [s] = List.replicate k up ++ names) (hnames : up ∉ names) :
    (∃ k names, segs = List.replicate k up ++ names ∧ up ∉ names) ∧
      (s = up → segs = List.replicate segs.length up) := by
  cases names using List.reverseRecOn with
  | nil =>
    rw [List.append_nil] at h
    have hups : segs = List.replicate segs.length up := List.eq_replicate_iff.2
      ⟨rfl, fun s' hs' => List.eq_of_mem_replicate (h ▸ List.mem_append_left _ hs')⟩
    exact ⟨⟨segs.length, [], by rwa [List.append_nil], List.not_mem_nil⟩, fun _ => hups⟩
  | append_singleton names name =>
    rw [← List.append_assoc] at h
    obtain ⟨hsegs, hlast⟩ := List.append_inj' h rfl
    obtain rfl := List.singleton_inj.1 hlast
    exact ⟨⟨k, names, hsegs, fun hup => hnames (by simp [hup])⟩,
      fun hup => absurd (by simp [hup]) hnames⟩

/-- The directory of a path in normal form is in normal form. -/
theorem Normal.of_holds (hn : Normal path) (h : Holds dir path) : Normal dir := by
  obtain ⟨last, hinner, -, hroot⟩ := hn.inner_of_holds h
  obtain ⟨k, names, hups, hnames⟩ := hn.ups_first
  have hmem : ∀ s ∈ inner dir, s ∈ inner path := fun s hs => by simp [hinner, hs]
  refine ⟨fun hback => ?_, fun s hs => hn.not_idle s (hmem s hs),
    (ups_first_of_concat (hinner.symm.trans hups) hnames).1,
    fun habs hup => hn.rooted (hroot.trans habs) (hmem up hup)⟩
  obtain ⟨-, rest, -, rfl⟩ := h
  exact hn.no_backslash (by simp [hback])

/-- All that is above a normal path is normal. -/
theorem Normal.of_above {path : String} (hn : Normal path) (h : Above dir path) : Normal dir := by
  obtain ⟨p, hp, rfl | hdir⟩ := above_iff.1 h
  · exact hn.of_holds (parent?_eq_some_iff.1 hp)
  · exact Normal.of_above (hn.of_holds (parent?_eq_some_iff.1 hp)) hdir
termination_by path.toList.length
decreasing_by exact length_of_parent? hp

/-! ## Inside or above -/

/-- A path that only leads up, leads up by its number of segments. -/
theorem place_of_inner (hrel : isAbsolute path.toList = false)
    (h : inner path = List.replicate k up) : place path = { levels := k } := by
  rw [inner, hrel, if_neg Bool.false_ne_true] at h
  rw [place, hrel, h]
  simpa using Place.foldl_enter_replicate k 0

/-- What a directory holds is inside it if its path goes down to a name. Else it lies above: both
paths do nothing but lead up, and the longer one leads up further. -/
theorem Normal.inside_or_up (hn : Normal path) (h : Holds dir path) :
    Inside dir path ∧ (place path).names ≠ [] ∨
      isAbsolute path.toList = false ∧
        ∃ k, place dir = { levels := k + 1 } ∧ place path = { levels := k + 2 } := by
  obtain ⟨last, hinner, hplace, hroot⟩ := hn.inner_of_holds h
  obtain ⟨hne, hhere⟩ := hn.not_idle last (by simp [hinner])
  by_cases hup : last = up
  · subst hup
    have hrel : isAbsolute path.toList = false :=
      Bool.eq_false_iff.2 fun habs => hn.rooted habs (by simp [hinner])
    obtain ⟨n, names, hfirst, hnames⟩ := hn.ups_first
    have hups := (ups_first_of_concat (hinner.symm.trans hfirst) hnames).2 rfl
    obtain ⟨k, hk⟩ := Nat.exists_eq_succ_of_ne_zero
      (mt List.length_eq_zero_iff.1 (inner_ne_nil dir))
    rw [hk] at hups
    refine .inr ⟨hrel, k, place_of_inner (hroot ▸ hrel) hups, place_of_inner hrel ?_⟩
    rw [hinner, hups, ← List.replicate_succ']
  · have hdown : place path = { place dir with names := (place dir).names ++ [last] } := by
      rw [hplace, Place.enter, if_neg fun hor => hor.elim hne hhere, if_pos hup]
    exact .inl ⟨⟨hroot, last, hdown⟩, by simp [hdown]⟩

end

end Path

namespace Hierarchy

section
variable {config : Config} {h : Hierarchy} {paths : List String} {path dir : String}
variable {kind : NodeKind}

/-! ## The links of a hierarchy -/

/-- The paths of a hierarchy are in normal form. -/
theorem normal_of_mem_files (hmem : path ∈ (ofPaths paths).files) : Path.Normal path := by
  obtain ⟨p, -, hp⟩ := mem_files_ofPaths.1 hmem
  exact Path.normal_of_normalize? hp

theorem Makes.normal (hmakes : (ofPaths paths).Makes config path kind) : Path.Normal path := by
  cases hmakes with
  | directory _ habove =>
    obtain ⟨file, hfile, habove⟩ := habove
    exact (normal_of_mem_files hfile).of_above habove
  | file _ hfile _ => exact normal_of_mem_files hfile

/-- What containers are linked to are directories among them. -/
theorem Links.makes_directory (hlinks : h.Links config dir path) :
    h.Makes config dir .subsystem := by
  have ⟨hsub, ⟨_, hmakes⟩, _⟩ := hlinks
  refine .directory hsub (mem_directories_iff.1 ?_)
  cases hmakes with
  | directory _ habove =>
    exact closed_directories h path (mem_directories_iff.2 habove) dir hlinks.parent?
  | file _ hfile _ => exact parent_mem_directories (ExtTreeSet.mem_toList.2 hfile) hlinks.parent?

/-- In an empty store a hierarchy has its own links only. -/
theorem links_of_mem_edges (h : Hierarchy)
    (hedge : ⟨dir, path, .contains⟩ ∈ (h.install config ∅).2.edges) : h.Links config dir path := by
  rw [Store.mem_edges_iff] at hedge
  by_cases hlinks : ∃ p, h.Links config p path
  · obtain ⟨p, hlinks⟩ := hlinks
    rw [getElem?_install_of_links Store.coherent_empty hlinks, if_neg (by simp)] at hedge
    by_cases hdir : dir = p
    · rwa [hdir]
    · simp [hdir] at hedge
  · rw [getElem?_install_of_not_links Store.coherent_empty fun _ p hp => hlinks ⟨p, hp⟩] at hedge
    simp at hedge

/-- **How the links of a hierarchy lie.** In an empty store each link leads from a directory to what
its path holds. It goes to something directly inside the directory exactly if the path that is held
goes down to a name. If it does not, both paths do nothing but lead up from the starting directory,
and what is held lies one level above the directory. -/
theorem nesting_install (paths : List String) (config : Config) (dir path : String)
    (hedge : ⟨dir, path, .contains⟩ ∈ ((ofPaths paths).install config ∅).2.edges) :
    (ofPaths paths).Makes config dir .subsystem ∧ Path.Holds dir path ∧
      (Path.Inside dir path ↔ (Path.place path).names ≠ []) ∧
      ((Path.place path).names = [] → Path.isAbsolute path.toList = false ∧
        ∃ k, Path.place dir = { levels := k + 1 } ∧ Path.place path = { levels := k + 2 }) := by
  have hlinks := links_of_mem_edges _ hedge
  have ⟨_, ⟨_, hmakes⟩, hholds⟩ := hlinks
  refine ⟨hlinks.makes_directory, hholds, ?_, ?_⟩
  · constructor
    · rintro ⟨-, name, hplace⟩ hnone
      simp [hplace] at hnone
    · intro hnames
      rcases hmakes.normal.inside_or_up hholds with ⟨hinside, -⟩ | ⟨-, k, -, hup⟩
      · exact hinside
      · exact absurd (by rw [hup]) hnames
  · intro hnone
    rcases hmakes.normal.inside_or_up hholds with ⟨-, hnames⟩ | hup
    · exact absurd hnone hnames
    · exact hup

/-- The directory two levels up holds a file that is inside it, and is held by one that is inside
itself. -/
theorem nesting_install_twoUp :
    let s := ((ofPaths ["lib/../../..//a.c"]).install {} ∅).2
    (⟨"../..", "../../a.c", .contains⟩ ∈ s.edges ∧ Path.Inside "../.." "../../a.c") ∧
    (⟨"..", "../..", .contains⟩ ∈ s.edges ∧ Path.isAbsolute "../..".toList = false ∧
      ∃ k, Path.place ".." = { levels := k + 1 } ∧ Path.place "../.." = { levels := k + 2 }) := by
  intro s
  have hdown : ⟨"../..", "../../a.c", .contains⟩ ∈ s.edges := by decide +kernel
  have hup : ⟨"..", "../..", .contains⟩ ∈ s.edges := by decide +kernel
  obtain ⟨-, -, hinside, -⟩ := nesting_install _ {} _ _ hdown
  obtain ⟨-, -, -, habove⟩ := nesting_install _ {} _ _ hup
  exact ⟨⟨hdown, hinside.2 (by decide +kernel)⟩, hup, habove (by decide +kernel)⟩

/-- A directory that is two levels up is not inside the one to which it is linked. -/
theorem not_inside_install : ¬ ∀ (paths : List String) (config : Config) (dir path : String),
    ⟨dir, path, .contains⟩ ∈ ((ofPaths paths).install config ∅).2.edges →
      Path.Inside dir path := by
  intro hall
  obtain ⟨-, name, hplace⟩ := hall ["../../a"] {} ".." "../.." (by decide +kernel)
  have hnames : (Path.place "../..").names = [] := by decide +kernel
  simp [hplace] at hnames

end

end Hierarchy

end ArchFacts
