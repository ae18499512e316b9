import ArchFacts.Host.FilePath
import ArchFacts.Proofs.Path.Place

/-!
# The parts of a path

A path is its segments joined by slashes (`segments_intercalate`, `intercalate_segments`). If the
last of them is a name, the path ends with this name (`name?_eq`), and the path of the directory has
the segments before it, up to some that mean nothing (`exists_segments_directory`). The directory's
path starts where the path does, is never empty, and has no character that the path has not.
-/

namespace ArchFacts.FilePath

/-- Whether a segment names something in a directory. -/
structure IsName (segment : String) : Prop where
  ne_empty : segment ≠ ""
  ne_here : segment ≠ "."
  ne_up : segment ≠ ".."
  no_slash : '/' ∉ segment.toList
  no_nul : '\x00' ∉ segment.toList
  short : segment.utf8ByteSize ≤ segmentLimit

/-- Whether a segment leads nowhere. -/
def Idle (segment : String) : Prop := segment = "" ∨ segment = "."
  deriving Decidable

theorem IsName.not_idle {s : String} (h : IsName s) : ¬ Idle s :=
  not_or.2 ⟨h.ne_empty, h.ne_here⟩

section
variable {path s name : String} {l segs before : List String}

/-! ## Segments -/

/-- The segments of a path are what stands between its slashes. -/
theorem map_toList_segments (path : String) :
    (segments path).map String.toList = path.toList.splitOn '/' := by
  have htoList : String.toList ∘ String.ofList = id := funext fun _ => String.toList_ofList
  rw [segments, List.map_map, htoList, List.map_id]
  induction path.toList with
  | nil => rfl
  | cons c l ih =>
    rw [List.splitOn_cons_eq_if_modifyHead, ← ih, List.foldr_cons]
    split
    · next part rest hparts =>
      by_cases hc : c = '/' <;> simp [hc, hparts]
    · next hparts =>
      rw [ih] at hparts
      exact absurd hparts (List.splitOn_ne_nil _ _)

/-- A path is its segments, joined by slashes. -/
theorem intercalate_segments (path : String) : "/".intercalate (segments path) = path := by
  rw [← String.toList_inj, String.toList_intercalate, map_toList_segments]
  exact List.intercalate_splitOn '/'

/-- Segments without slashes are found again in the path they are joined to. -/
theorem segments_intercalate (hne : segs ≠ []) (h : ∀ s ∈ segs, '/' ∉ s.toList) :
    segments ("/".intercalate segs) = segs := by
  apply (List.map_inj_right fun _ _ => String.toList_inj.1).1
  rw [map_toList_segments, String.toList_intercalate]
  exact List.splitOn_intercalate '/' (by simpa using h) (by simpa using hne)

/-- A path has at least one segment. -/
theorem segments_ne_nil (path : String) : segments path ≠ [] := by
  intro h
  apply List.splitOn_ne_nil '/' path.toList
  rw [← map_toList_segments, h, List.map_nil]

/-- No slash is in a segment. -/
theorem no_slash_of_mem_segments (h : s ∈ segments path) : '/' ∉ s.toList := by
  have hsplit : s.toList ∈ path.toList.splitOnP (· == '/') := by
    rw [← List.splitOn_eq_splitOnP, ← map_toList_segments]
    exact List.mem_map_of_mem h
  intro hslash
  have hne := Path.eq_false_of_mem_splitOnP hsplit '/' hslash
  exact absurd hne (by decide)

/-- A path holds NUL exactly if one of its segments does. -/
theorem hasNul_eq_false_iff :
    hasNul path = false ↔ ∀ s ∈ segments path, '\x00' ∉ s.toList := by
  have hnul : '\x00' ∈ path.toList ↔ ∃ s ∈ segments path, '\x00' ∈ s.toList := by
    conv => lhs; rw [← intercalate_segments path, String.toList_intercalate]
    exact (Path.mem_intercalate_iff (by decide)).trans (by simp)
  rw [hasNul, List.contains_eq_mem, decide_eq_false_iff_not, hnul]
  simp

/-- A path starts at the root if nothing stands before its first slash. -/
theorem isAbsolute_iff : isAbsolute path = true ↔ ∃ s segs, segments path = "" :: s :: segs := by
  rw [isAbsolute, decide_eq_true_eq]
  constructor
  · intro h
    obtain ⟨rest, hrest⟩ := List.head?_eq_some_iff.1 h
    obtain ⟨s, segs, hsegs⟩ := List.exists_cons_of_ne_nil (segments_ne_nil path)
    have hsplit := map_toList_segments path
    rw [hrest, hsegs, List.splitOn_cons_eq_if_modifyHead, if_pos (by rfl), List.map_cons,
      List.cons.injEq] at hsplit
    cases segs with
    | nil => exact absurd hsplit.2.symm (List.splitOn_ne_nil _ _)
    | cons s' segs => exact ⟨s', segs, by rw [hsegs, String.toList_eq_nil_iff.1 hsplit.1]⟩
  · rintro ⟨s, segs, h⟩
    rw [← intercalate_segments path, h]
    simp

/-! ## Segments that mean nothing -/

theorem trimEnd_cons (h : ¬ Idle s) : trimEnd (s :: l) = s :: l := by
  obtain ⟨hempty, hhere⟩ := not_or.1 h
  cases l <;> simp [trimEnd, hempty, hhere]

/-- What is cut off a path's end means nothing. -/
theorem exists_trimEnd (l : List String) :
    ∃ idle, l = idle ++ trimEnd l ∧ ∀ s ∈ idle, Idle s := by
  fun_induction trimEnd l with
  | case1 => exact ⟨[], rfl, by simp⟩
  | case2 => exact ⟨[""], rfl, by simp [Idle]⟩
  | case3 first hfirst => exact ⟨[], rfl, by simp⟩
  | case4 s rest hrest hs ih =>
    obtain ⟨idle, hl, hidle⟩ := ih
    refine ⟨s :: idle, by rw [List.cons_append, ← hl], List.forall_mem_cons.2 ⟨?_, hidle⟩⟩
    simpa [Idle] using hs
  | case5 s rest hrest hs => exact ⟨[], rfl, by simp⟩

theorem trimEnd_ne_empty : trimEnd l ≠ [""] := by
  fun_induction trimEnd l with
  | case1 => simp
  | case2 => simp
  | case3 first hfirst => simpa using hfirst
  | case4 s rest hrest hs ih => exact ih
  | case5 s rest hrest hs => exact fun h => hrest (List.cons.inj h).2

/-! ## The directory of a path -/

/-- Nothing is trimmed off a path that ends in a name. -/
theorem trimEnd_reverse_segments (h : segments path = before ++ [name]) (hname : ¬ Idle name) :
    trimEnd (segments path).reverse = name :: before.reverse := by
  rw [h, List.reverse_append, List.reverse_singleton, List.singleton_append, trimEnd_cons hname]

/-- The name that a path ends with is its last segment. -/
theorem name?_eq (h : segments path = before ++ [name]) (hname : ¬ Idle name)
    (hup : name ≠ "..") : name? path = some name := by
  simp only [name?, trimEnd_reverse_segments h hname]
  have hhere : name ≠ "." := fun hhere => hname (.inr hhere)
  simp [hup, hhere]

theorem directory_ne_empty (path : String) : directory path ≠ "" := by
  rw [directory]
  split
  · decide
  · decide
  · next dir hempty _ => exact hempty

/-- The directory of a path with nothing before its name is the root or the directory one is in. -/
theorem directory_of_idle (h : segments path = before ++ [name]) (hname : ¬ Idle name)
    (htrim : trimEnd before.reverse = []) :
    directory path = if isAbsolute path then "/" else "." := by
  rw [directory, parent?, trimEnd_reverse_segments h hname]
  simp only [htrim]
  cases isAbsolute path <;> rfl

/-- Otherwise its segments are those before the name, less those at the end that mean nothing. -/
theorem segments_directory_of_kept {s : String} {l : List String}
    (h : segments path = before ++ [name]) (hname : ¬ Idle name)
    (htrim : trimEnd before.reverse = s :: l) :
    segments (directory path) = (s :: l).reverse := by
  have hmem : ∀ t ∈ (s :: l).reverse, t ∈ segments path := by
    intro t ht
    obtain ⟨idle, hbefore, -⟩ := exists_trimEnd before.reverse
    have ht' : t ∈ before.reverse := by
      rw [hbefore, htrim]
      exact List.mem_append_right _ (List.mem_reverse.1 ht)
    rw [h]
    exact List.mem_append_left _ (List.mem_reverse.1 ht')
  have hsegments : segments ("/".intercalate (s :: l).reverse) = (s :: l).reverse :=
    segments_intercalate (by simp) fun t ht => no_slash_of_mem_segments (hmem t ht)
  have hne : "/".intercalate (s :: l).reverse ≠ "" := by
    intro hempty
    rw [hempty] at hsegments
    exact trimEnd_ne_empty (htrim.trans (List.reverse_eq_iff.1 hsegments.symm))
  rw [directory, parent?, trimEnd_reverse_segments h hname]
  simp only [htrim]
  exact hsegments

/-- A beginning of the segments of a path starts where the path does, unless it is one empty
segment. -/
theorem isAbsolute_eq_of_segments {dir : String} {rest : List String} (hdir : segments dir ≠ [""])
    (h : segments path = segments dir ++ rest) : isAbsolute dir = isAbsolute path := by
  rw [Bool.eq_iff_iff, isAbsolute_iff, isAbsolute_iff, h]
  rcases hsegments : segments dir with _ | ⟨t, _ | ⟨t', segs⟩⟩
  · exact absurd hsegments (segments_ne_nil dir)
  · have ht : t ≠ "" := fun ht => hdir (by rw [hsegments, ht])
    simp [ht]
  · simp

/-- The directory of a path has the segments of the path before its name, up to segments that mean
nothing, and starts where the path does. -/
theorem exists_segments_directory (h : segments path = before ++ [name]) (hname : ¬ Idle name) :
    ∃ kept idle pad, before = kept ++ idle ∧ segments (directory path) = kept ++ pad ∧
      (∀ s ∈ idle ++ pad, Idle s) ∧ isAbsolute (directory path) = isAbsolute path := by
  obtain ⟨idle, hbefore, hidle⟩ := exists_trimEnd before.reverse
  cases htrim : trimEnd before.reverse with
  | nil =>
    have hpad : ∃ pad, segments (directory path) = [] ++ pad ∧ (∀ s ∈ pad, Idle s) ∧
        isAbsolute (directory path) = isAbsolute path := by
      rw [directory_of_idle h hname htrim]
      cases isAbsolute path with
      | true => exact ⟨["", ""], by decide +kernel, by simp [Idle], by decide⟩
      | false => exact ⟨["."], by decide +kernel, by simp [Idle], by decide⟩
    obtain ⟨pad, hdir, hpadIdle, habs⟩ := hpad
    rw [htrim, List.append_nil, List.reverse_eq_iff] at hbefore
    refine ⟨[], before, pad, rfl, hdir, List.forall_mem_append.2 ⟨?_, hpadIdle⟩, habs⟩
    simpa [hbefore] using hidle
  | cons s l =>
    have hdir := segments_directory_of_kept h hname htrim
    have hkept : before = segments (directory path) ++ idle.reverse := by
      rw [hdir, ← List.reverse_append, ← htrim, ← hbefore, List.reverse_reverse]
    have hne : segments (directory path) ≠ [""] := fun hempty =>
      trimEnd_ne_empty (htrim.trans (List.reverse_eq_iff.1 (hdir.symm.trans hempty)))
    have hpath : segments path = segments (directory path) ++ (idle.reverse ++ [name]) := by
      rw [← List.append_assoc, ← hkept, h]
    exact ⟨segments (directory path), idle.reverse, [], hkept, (List.append_nil _).symm,
      by simpa using hidle, isAbsolute_eq_of_segments hne hpath⟩

/-- The directory of a path holds NUL only if the path does. -/
theorem hasNul_directory (h : segments path = before ++ [name]) (hname : ¬ Idle name)
    (hnul : hasNul path = false) : hasNul (directory path) = false := by
  rw [hasNul_eq_false_iff] at hnul ⊢
  obtain ⟨kept, idle, pad, hbefore, hdir, hidle, -⟩ := exists_segments_directory h hname
  rw [hdir, List.forall_mem_append]
  refine ⟨fun s hs => hnul s (by simp [h, hbefore, hs]), fun s hs => ?_⟩
  obtain rfl | rfl := hidle s (List.mem_append_right _ hs) <;> decide

end

end ArchFacts.FilePath
