import ArchFacts.Path
import Mathlib.Data.List.Induction

/-!
# Normal paths and the places they lead to

A path leads to a place: some levels up, and from there down through names (`Path.place`). The
segments that a walk along a path has on its stack are those of the place it has come to
(`Place.Proper.foldl_follow`), so the normal form of a path is its place written out
(`normalize?_eq`). A place that is written out is read back from the text (`place_eq_of_write`).
Hence two paths have one normal form exactly if they start alike and lead to one place, and a path
can be exchanged for its normal form wherever more segments follow (`normalize?_exact`).
-/

namespace ArchFacts

/-- Where a path leads, be it from the root or from the starting directory. -/
structure Place where
  /-- The number of levels up. -/
  levels : Nat := 0
  /-- The names that lead down from there. -/
  names : List (List Char) := []
  deriving DecidableEq

namespace Path

/-- Whether a segment is the name of something. -/
structure IsName (segment : List Char) : Prop where
  ne_nil : segment ≠ []
  ne_here : segment ≠ here
  ne_up : segment ≠ up
  plain : ∀ c ∈ segment, isSeparator c = false

end Path

namespace Place

open ArchFacts.Path

/-- The place to which one more segment leads. Above the root there is nothing. -/
def enter (rooted : Bool) (x : Place) (segment : List Char) : Place :=
  if segment = [] ∨ segment = here then x
  else if segment ≠ up then { x with names := x.names ++ [segment] }
  else if x.names ≠ [] then { x with names := x.names.dropLast }
  else if rooted then x
  else { x with levels := x.levels + 1 }

/-- The segments of the shortest path to a place. -/
def segments (x : Place) : List (List Char) := List.replicate x.levels up ++ x.names

/-- The shortest path to a place. -/
def write (rooted : Bool) (x : Place) : List Char :=
  (if rooted then ['/'] else []) ++ ['/'].intercalate x.segments

/-- The places to which paths lead: what leads down are names, and nothing leads up from the
root. -/
structure Proper (rooted : Bool) (x : Place) : Prop where
  isName : ∀ name ∈ x.names, IsName name
  levels_eq : rooted = true → x.levels = 0

end Place

namespace Path

/-- The place to which a path leads. -/
def place (path : String) : Place :=
  (path.toList.splitOnP isSeparator).foldl (Place.enter (isAbsolute path.toList)) {}

/-- The segments of a path, less what stands before the slash of an absolute path. -/
def inner (path : String) : List (List Char) :=
  (if isAbsolute path.toList then path.toList.tail else path.toList).splitOnP isSeparator

/-- Whether the segments of a path are parted by slashes, none of them is idle, and those that lead
up stand at the beginning of a path that does not start at the root. -/
structure Normal (path : String) : Prop where
  no_backslash : '\\' ∉ path.toList
  not_idle : ∀ s ∈ inner path, s ≠ [] ∧ s ≠ here
  ups_first : ∃ k names, inner path = List.replicate k up ++ names ∧ up ∉ names
  rooted : isAbsolute path.toList = true → up ∉ inner path

section
variable {l s : List Char} {segs : List (List Char)}

/-! ## Segments -/

/-- The segments of a path are what stands between separators. -/
theorem segments_eq_splitOnP : segments l = l.splitOnP isSeparator := by
  induction l with
  | nil => rfl
  | cons c l ih =>
    rw [segments, ih, List.splitOnP_cons_eq_if_modifyHead]
    split
    · rfl
    · cases h : l.splitOnP isSeparator with
      | nil => exact absurd h (List.splitOnP_ne_nil _ _)
      | cons s ss => rfl

/-- No segment has a character in it that parts segments. -/
theorem eq_false_of_mem_splitOnP {parts : Char → Bool} (h : s ∈ l.splitOnP parts) :
    ∀ c ∈ s, parts c = false := by
  induction l generalizing s with
  | nil =>
    rw [List.splitOnP_nil, List.mem_singleton] at h
    simp [h]
  | cons c l ih =>
    rw [List.splitOnP_cons_eq_if_modifyHead] at h
    split at h
    · rcases List.mem_cons.1 h with rfl | h
      · exact nofun
      · exact ih h
    · next hc =>
      cases hl : l.splitOnP parts with
      | nil => exact absurd hl (List.splitOnP_ne_nil _ _)
      | cons s' ss =>
        rw [hl] at h ih
        rcases List.mem_cons.1 h with rfl | h
        · exact List.forall_mem_cons.2 ⟨by simpa using hc, ih (by simp)⟩
        · exact ih (by simp [h])

/-- Segments that are joined by slashes are found again. -/
theorem splitOnP_intercalate (hne : segs ≠ [])
    (h : ∀ s ∈ segs, ∀ c ∈ s, isSeparator c = false) :
    (['/'].intercalate segs).splitOnP isSeparator = segs := by
  induction segs with
  | nil => exact absurd rfl hne
  | cons s segs ih =>
    cases segs with
    | nil =>
      rw [List.intercalate_singleton]
      exact List.splitOnP_eq_singleton (h s (by simp))
    | cons s' segs =>
      rw [List.intercalate_cons_cons, List.append_assoc, List.singleton_append,
        List.splitOnP_append_cons_of_forall_mem (h s (by simp)) '/' rfl,
        ih (List.cons_ne_nil _ _) fun s hs => h s (by simp [hs])]

/-- Other characters than slashes come from the segments that are joined. -/
theorem mem_intercalate_iff {c : Char} (hc : c ≠ '/') :
    c ∈ ['/'].intercalate segs ↔ ∃ s ∈ segs, c ∈ s := by
  induction segs with
  | nil => simp
  | cons s segs ih =>
    cases segs with
    | nil => simp
    | cons s' segs =>
      rw [List.intercalate_cons_cons, List.append_assoc, List.mem_append, List.mem_append, ih]
      simp [hc]

end

end Path

namespace Place

open ArchFacts.Path

section
variable {rooted : Bool} {x : Place} {s : List Char} {segs : List (List Char)}

/-! ## The walk along a path -/

theorem proper_empty : Proper rooted {} := ⟨nofun, fun _ => rfl⟩

/-- One more segment leads from a place to a place. -/
theorem Proper.enter (hx : x.Proper rooted) (hs : ∀ c ∈ s, isSeparator c = false) :
    (x.enter rooted s).Proper rooted := by
  unfold Place.enter
  split
  · exact hx
  · next hword =>
    split
    · next hup =>
      refine ⟨fun name hname => ?_, hx.levels_eq⟩
      rcases List.mem_append.1 hname with hname | hname
      · exact hx.isName name hname
      · rw [List.mem_singleton.1 hname]
        exact ⟨fun h => hword (.inl h), fun h => hword (.inr h), hup, hs⟩
    · split
      · exact ⟨fun name hname => hx.isName name (List.dropLast_subset _ hname), hx.levels_eq⟩
      · split
        · exact hx
        · next hrooted => exact ⟨hx.isName, fun h => absurd h hrooted⟩

theorem reverse_segments (x : Place) :
    x.segments.reverse = x.names.reverse ++ List.replicate x.levels up := by
  rw [segments, List.reverse_append, List.reverse_replicate]

/-- A segment changes the stack as it changes the place. -/
theorem Proper.follow_eq (hx : x.Proper rooted) (s : List Char) :
    follow rooted x.segments.reverse s = (x.enter rooted s).segments.reverse := by
  obtain ⟨levels, names⟩ := x
  simp only [reverse_segments]
  unfold follow Place.enter
  by_cases hword : s = [] ∨ s = here
  · simp [hword]
  · by_cases hup : s = up
    · subst hup
      cases names using List.reverseRecOn with
      | nil => cases levels <;> cases rooted <;> simp [hword, List.replicate_succ]
      | append_singleton names name =>
        have hname : name ≠ up := (hx.isName name (by simp)).ne_up
        simp [hword, hname]
    · simp [hword, hup]

/-- After some segments the stack holds the segments of the place to which they lead. -/
theorem Proper.foldl_follow (hx : x.Proper rooted)
    (h : ∀ s ∈ segs, ∀ c ∈ s, isSeparator c = false) :
    segs.foldl (follow rooted) x.segments.reverse =
        (segs.foldl (Place.enter rooted) x).segments.reverse ∧
      (segs.foldl (Place.enter rooted) x).Proper rooted := by
  induction segs generalizing x with
  | nil => exact ⟨rfl, hx⟩
  | cons s segs ih =>
    rw [List.foldl_cons, List.foldl_cons, hx.follow_eq s]
    exact ih (hx.enter (h s (by simp))) fun s hs => h s (by simp [hs])

/-! ## Writing a place -/

theorem segments_eq_nil_iff : x.segments = [] ↔ x = {} := by
  obtain ⟨levels, names⟩ := x
  simp [segments]

/-- No segment of a place has a separator in it. -/
theorem Proper.plain (hx : x.Proper rooted) :
    ∀ s ∈ x.segments, ∀ c ∈ s, isSeparator c = false := by
  intro s hs
  rcases List.mem_append.1 hs with hs | hs
  · rw [List.eq_of_mem_replicate hs]
    simp [up, isSeparator]
  · exact (hx.isName s hs).plain

/-- No segment of a place is idle. -/
theorem Proper.ne (hx : x.Proper rooted) : ∀ s ∈ x.segments, s ≠ [] ∧ s ≠ here := by
  intro s hs
  rcases List.mem_append.1 hs with hs | hs
  · rw [List.eq_of_mem_replicate hs]
    decide
  · exact ⟨(hx.isName s hs).ne_nil, (hx.isName s hs).ne_here⟩

theorem foldl_enter_replicate (k n : Nat) :
    (List.replicate k up).foldl (Place.enter false) { levels := n } = { levels := n + k } := by
  induction k generalizing n with
  | zero => rfl
  | succ k ih =>
    rw [List.replicate_succ, List.foldl_cons, show Place.enter false { levels := n } up =
      { levels := n + 1 } from rfl, ih, Nat.add_right_comm, Nat.add_assoc]

/-- Names lead down, one after another. -/
theorem foldl_enter_names (h : ∀ name ∈ segs, IsName name) :
    segs.foldl (Place.enter rooted) x = { x with names := x.names ++ segs } := by
  induction segs generalizing x with
  | nil => simp
  | cons name segs ih =>
    have hname := h name (by simp)
    have henter : x.enter rooted name = { x with names := x.names ++ [name] } := by
      rw [Place.enter, if_neg fun hor => hor.elim hname.ne_nil hname.ne_here, if_pos hname.ne_up]
    rw [List.foldl_cons, henter, ih fun name hname => h name (by simp [hname])]
    simp

/-- The segments of a place lead to it. -/
theorem Proper.foldl_enter_segments (hx : x.Proper rooted) :
    x.segments.foldl (Place.enter rooted) {} = x := by
  rw [segments, List.foldl_append]
  have hups : (List.replicate x.levels up).foldl (Place.enter rooted) {} =
      { levels := x.levels } := by
    cases rooted with
    | false => simpa using foldl_enter_replicate x.levels 0
    | true =>
      rw [hx.levels_eq rfl]
      rfl
  rw [hups, foldl_enter_names hx.isName]
  rfl

/-- Written out, a place has its segments. -/
theorem Proper.splitOnP_segments (hx : x.Proper rooted) (hne : x ≠ {}) :
    (['/'].intercalate x.segments).splitOnP isSeparator = x.segments :=
  splitOnP_intercalate (mt segments_eq_nil_iff.1 hne) hx.plain

/-- The shortest path to a place starts at the root if the place is one below the root. -/
theorem Proper.isAbsolute_write (hx : x.Proper rooted) (hne : x ≠ {}) :
    isAbsolute (x.write rooted) = rooted := by
  cases rooted with
  | true => rfl
  | false =>
    obtain ⟨s, ss, hsegs⟩ := List.exists_cons_of_ne_nil (mt segments_eq_nil_iff.1 hne)
    have hs : s ∈ x.segments := by simp [hsegs]
    obtain ⟨c, cs, rfl⟩ := List.exists_cons_of_ne_nil (hx.ne s hs).1
    have hc : c ≠ '/' := by
      rintro rfl
      exact absurd (hx.plain _ hs '/' (by simp)) (by decide)
    have hhead : (x.write false).head? = some c := by
      rw [write, hsegs]
      cases ss <;> simp [List.intercalate_cons_cons]
    simp [isAbsolute, hhead, hc]

end

end Place

namespace Path

section
variable {p q n : String}

/-! ## Normal forms -/

theorem proper_place (p : String) : (place p).Proper (isAbsolute p.toList) :=
  (Place.proper_empty.foldl_follow fun _ => eq_false_of_mem_splitOnP).2

/-- The walk along a path ends with the segments of its place on the stack. -/
theorem foldl_follow_segments (p : String) :
    (segments p.toList).foldl (follow (isAbsolute p.toList)) [] =
      (place p).segments.reverse := by
  rw [segments_eq_splitOnP]
  exact (Place.proper_empty.foldl_follow fun _ => eq_false_of_mem_splitOnP).1

/-- The normal form of a path is its place, written out. -/
theorem normalize?_eq (p : String) : normalize? p =
    if place p = {} then none
    else some (String.ofList ((place p).write (isAbsolute p.toList))) := by
  unfold normalize?
  dsimp only
  rw [foldl_follow_segments]
  by_cases hp : place p = {}
  · rw [if_pos hp, hp]
    rfl
  · rw [if_neg hp]
    split
    · next hnil =>
      exact absurd (Place.segments_eq_nil_iff.1 (List.reverse_eq_nil_iff.1 hnil)) hp
    · rw [List.reverse_reverse, Place.write]
      cases isAbsolute p.toList <;> rfl

/-- The normal form of a path depends on its start and its place only. -/
theorem normalize?_congr (hroot : isAbsolute p.toList = isAbsolute q.toList)
    (h : place p = place q) : normalize? p = normalize? q := by
  rw [normalize?_eq, normalize?_eq, hroot, h]

/-- A path has no normal form if it leads nowhere. -/
theorem normalize?_eq_none_iff : normalize? p = none ↔ place p = {} := by
  rw [normalize?_eq]
  split <;> simp [*]

/-- The normal form of a path is the shortest path to where it leads. -/
theorem normalize?_eq_some_iff : normalize? p = some n ↔
    place p ≠ {} ∧ n.toList = (place p).write (isAbsolute p.toList) := by
  rw [normalize?_eq, Option.ite_none_left_eq_some, Option.some.injEq]
  refine and_congr_right fun _ => ⟨?_, ?_⟩
  · rintro rfl
    rw [String.toList_ofList]
  · intro h
    rw [← h, String.ofList_toList]

/-- A place that is written out is read back from the text. -/
theorem place_eq_of_write {x : Place} {rooted : Bool} (hx : x.Proper rooted) (hne : x ≠ {})
    (hn : n.toList = x.write rooted) : isAbsolute n.toList = rooted ∧ place n = x := by
  have habs : isAbsolute n.toList = rooted := by rw [hn, hx.isAbsolute_write hne]
  refine ⟨habs, ?_⟩
  rw [place, habs, hn, Place.write]
  cases rooted with
  | false =>
    rw [if_neg Bool.false_ne_true, List.nil_append, hx.splitOnP_segments hne,
      hx.foldl_enter_segments]
  | true =>
    -- What stands before the first slash is an empty segment, which leads nowhere.
    have hslash : isSeparator '/' = true := rfl
    rw [if_pos rfl, List.singleton_append, List.splitOnP_cons_eq_if_modifyHead, if_pos hslash,
      List.foldl_cons, hx.splitOnP_segments hne]
    exact hx.foldl_enter_segments

/-- A path and its normal form start alike and lead to one place. -/
theorem place_of_normalize? (h : normalize? p = some n) :
    isAbsolute n.toList = isAbsolute p.toList ∧ place n = place p := by
  obtain ⟨hne, hn⟩ := normalize?_eq_some_iff.1 h
  exact place_eq_of_write (proper_place p) hne hn

/-- The normal form of a path has the segments of its place. -/
theorem inner_of_normalize? (h : normalize? p = some n) : inner n = (place p).segments := by
  obtain ⟨hne, hn⟩ := normalize?_eq_some_iff.1 h
  have hx := proper_place p
  rw [inner, (place_of_normalize? h).1, hn, Place.write]
  cases habs : isAbsolute p.toList <;> simpa using hx.splitOnP_segments hne

/-- What a path is brought to is in normal form. -/
theorem normal_of_normalize? (h : normalize? p = some n) : Normal n := by
  obtain ⟨hne, hn⟩ := normalize?_eq_some_iff.1 h
  have hx := proper_place p
  have hnames : up ∉ (place p).names := fun hup => (hx.isName up hup).ne_up rfl
  have hinner := inner_of_normalize? h
  refine ⟨fun hmem => ?_, hinner ▸ hx.ne, ?_, fun habs => ?_⟩
  · rw [hn, Place.write, List.mem_append] at hmem
    rcases hmem with hmem | hmem
    · split at hmem <;> simp at hmem
    · obtain ⟨s, hs, hc⟩ := (mem_intercalate_iff (by decide)).1 hmem
      exact absurd (hx.plain s hs _ hc) (by decide)
  · exact ⟨(place p).levels, (place p).names, hinner, hnames⟩
  · rw [(place_of_normalize? h).1] at habs
    rw [hinner, Place.segments, hx.levels_eq habs]
    exact hnames

/-- A path that goes on leads to where its continuation leads from its place. -/
theorem place_append (hp : p ≠ "") (q : String) :
    isAbsolute (p ++ "/" ++ q).toList = isAbsolute p.toList ∧
      place (p ++ "/" ++ q) = (q.toList.splitOnP isSeparator).foldl
        (Place.enter (isAbsolute p.toList)) (place p) := by
  have hlist : (p ++ "/" ++ q).toList = p.toList ++ '/' :: q.toList := by simp
  have habs : isAbsolute (p ++ "/" ++ q).toList = isAbsolute p.toList := by
    obtain ⟨c, cs, hcs⟩ := List.exists_cons_of_ne_nil (mt String.toList_eq_nil_iff.1 hp)
    rw [hlist, hcs]
    rfl
  refine ⟨habs, ?_⟩
  rw [place, habs, hlist, List.splitOnP_append_cons _ _ rfl, List.foldl_append]
  rfl

theorem ne_empty_of_normalize? (h : normalize? p = some n) : p ≠ "" := by
  rintro rfl
  cases h

/-- **Normal forms are canonical.** A path has no normal form exactly if it leads nowhere. Two paths
that lead somewhere have the same normal form exactly if both or neither starts at the root and they
lead to the same place. A normal form is its own normal form; its segments are parted by slashes,
none is idle, and those that lead up stand in front, and only if the path does not start at the
root. Where more segments follow, a path may be exchanged for its normal form. -/
theorem normalize?_exact (p q : String) :
    (normalize? p = none ↔ place p = {}) ∧
    (place p ≠ {} → place q ≠ {} → (normalize? p = normalize? q ↔
      isAbsolute p.toList = isAbsolute q.toList ∧ place p = place q)) ∧
    ∀ n, normalize? p = some n →
      normalize? n = some n ∧ Normal n ∧
      normalize? (p ++ "/" ++ q) = normalize? (n ++ "/" ++ q) := by
  refine ⟨normalize?_eq_none_iff, fun hp _ => ⟨fun h => ?_, fun h => normalize?_congr h.1 h.2⟩,
    fun n hn => ?_⟩
  · obtain ⟨n, hn⟩ := Option.ne_none_iff_exists'.1 (mt normalize?_eq_none_iff.1 hp)
    obtain ⟨hroot, hplace⟩ := place_of_normalize? hn
    obtain ⟨hroot', hplace'⟩ := place_of_normalize? (h ▸ hn)
    exact ⟨hroot.symm.trans hroot', hplace.symm.trans hplace'⟩
  · obtain ⟨hroot, hplace⟩ := place_of_normalize? hn
    have hagain : normalize? n = some n := (normalize?_congr hroot hplace).trans hn
    obtain ⟨hrootp, hplacep⟩ := place_append (ne_empty_of_normalize? hn) q
    obtain ⟨hrootn, hplacen⟩ := place_append (ne_empty_of_normalize? hagain) q
    refine ⟨hagain, normal_of_normalize? hn, normalize?_congr ?_ ?_⟩
    · rw [hrootp, hrootn, hroot]
    · rw [hplacep, hplacen, hroot, hplace]

example : Path.normalize? "src/.././..\\lib//net/" = some "../lib/net" := by decide +kernel

end

end Path

end ArchFacts
