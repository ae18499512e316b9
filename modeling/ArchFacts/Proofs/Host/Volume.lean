import ArchFacts.Host.Volume
import ArchFacts.Proofs.Except
import ArchFacts.Proofs.Host.FilePath

/-!
# Paths on volumes

An absolute path that is reached from the root by names (`Volume.Reaches`) leads to itself when it
is written out (`Reaches.locate_display`), and so does a path in a directory that is reached when a
file is put at it (`Takes.destination_display`). A volume takes a file at a path (`Volume.Takes`)
if the path leads into a directory and ends with a name that no directory has; the directory of the
path is then found where the path leads (`Takes.locate_directory`). Files come and go without any
effect on this: a volume with the same directories that has all that was there takes the same files
(`Grows.takes`).
-/

namespace ArchFacts.Volume

open FilePath (IsName Idle)

/-- The absolute paths that are reached from the root by names. -/
inductive Reaches (v : Volume) : List String → Prop
  | root : Reaches v []
  | enter {dir : List String} {name : String} : Reaches v dir → v.hasDirectory dir →
      IsName name → (v.entry? (dir ++ [name])).isSome → Reaches v (dir ++ [name])

/-- A volume on which a file was put at an absolute path. -/
def withFile (v : Volume) (p : List String) (bytes : ByteArray) : Volume :=
  { v with entries := v.entries.insert p (.file bytes 0) }

/-- Whether a volume has the directories of another and all that is there. -/
structure Grows (v v' : Volume) : Prop where
  current : v'.current = v.current
  hasDirectory : ∀ p, v'.hasDirectory p = v.hasDirectory p
  isSome : ∀ p, (v.entry? p).isSome → (v'.entry? p).isSome

/-- Whether a file may be put at a path, which leads to a name in a directory, and whether the
absolute paths of the file and of a draft of it are not too long. -/
structure Takes (v : Volume) (path : String) (dir : List String) (name : String) : Prop where
  current : ∀ s ∈ v.current, IsName s
  no_nul : FilePath.hasNul path = false
  destination : v.destination path = .ok (dir ++ [name])
  fits : (display (dir ++ [name])).utf8ByteSize ≤ FilePath.limit
  draft_fits : (display (dir ++ [FilePath.draftName 0])).utf8ByteSize ≤ FilePath.limit

/-- Whether a path leads to a file at the absolute path `p`, and what the file holds. -/
def Holds (v : Volume) (path : String) (p : List String) (bytes : ByteArray) : Prop :=
  v.locate path = .ok p ∧
    ∃ data zeros, v.lookup (display p) = .ok (.file data zeros) ∧ contents data zeros = bytes

section
variable {v v' : Volume} {path s name : String} {p q dir segs : List String}

/-! ## Contents -/

theorem toList_contents (data : ByteArray) (zeros : Nat) :
    (contents data zeros).data.toList = data.data.toList ++ List.replicate zeros 0 := by
  rw [contents]
  split
  · next h => simp [h]
  · simp

/-- The first bytes of a file are those of what it holds. -/
theorem toList_contents_head (data : ByteArray) (zeros n : Nat) :
    (contents (data.extract 0 n) (min zeros (n - data.size))).data.toList =
      (contents data zeros).data.toList.take n := by
  simp [toList_contents, List.take_append, Nat.min_comm]

/-- The size of a file is that of what it holds. -/
theorem size_contents (data : ByteArray) (zeros : Nat) :
    (contents data zeros).size = data.size + zeros := by
  simp [← ByteArray.size_data, ← Array.length_toList, toList_contents]

/-! ## Following segments -/

/-- What a segment does: nothing, or it leads up, or it leads down to what has its name. -/
theorem follow_eq_ok_iff : v.follow p s = .ok q ↔ v.hasDirectory p = true ∧
    (Idle s ∧ q = p ∨ s = ".." ∧ q = p.dropLast ∨
      ¬ Idle s ∧ s ≠ ".." ∧ s.utf8ByteSize ≤ FilePath.segmentLimit ∧
        (v.entry? (p ++ [s])).isSome ∧ q = p ++ [s]) := by
  have hup : ¬ Idle ".." := by simp [Idle]
  have hsame : (s = "" || s = ".") = decide (Idle s) := (Bool.decide_or ..).symm
  rw [follow, hsame]
  cases v.hasDirectory p with
  | false => simp
  | true =>
    by_cases hidle : Idle s
    · have hdown : s ≠ ".." := fun h => hup (h ▸ hidle)
      simp [hidle, hdown, eq_comm (a := p)]
    · by_cases hs : s = ".."
      · subst hs
        simp [hup, eq_comm (a := q)]
      · by_cases hlong : FilePath.segmentLimit < s.utf8ByteSize
        · simp [hidle, hs, hlong, Nat.not_le.2 hlong]
        · cases hentry : v.entry? (p ++ [s]) <;>
            simp [hidle, hs, hlong, Nat.not_lt.1 hlong, eq_comm (a := q)]

theorem follow_idle (hp : v.hasDirectory p = true) (hs : Idle s) : v.follow p s = .ok p :=
  follow_eq_ok_iff.2 ⟨hp, .inl ⟨hs, rfl⟩⟩

/-- A name leads to what has it. -/
theorem follow_name (hp : v.hasDirectory p = true) (hname : IsName name)
    (h : (v.entry? (p ++ [name])).isSome) : v.follow p name = .ok (p ++ [name]) :=
  follow_eq_ok_iff.2 ⟨hp, .inr (.inr ⟨hname.not_idle, hname.ne_up, hname.short, h, rfl⟩)⟩

/-- Segments that mean nothing lead nowhere. -/
theorem foldlM_follow_idle (hp : v.hasDirectory p = true) (h : ∀ s ∈ segs, Idle s) :
    segs.foldlM v.follow p = .ok p := by
  induction segs with
  | nil => rfl
  | cons s segs ih =>
    rw [List.foldlM_cons, follow_idle hp (h s (by simp)), ok_bind]
    exact ih fun t ht => h t (by simp [ht])

/-- Segments that mean nothing lead nowhere, if they lead to anything. -/
theorem eq_of_foldlM_follow_idle (h : segs.foldlM v.follow p = .ok q)
    (hidle : ∀ s ∈ segs, Idle s) : q = p := by
  refine foldlM_preserves (P := fun x => x = p) h rfl fun s hs x y hx hstep => ?_
  have hdir := (follow_eq_ok_iff.1 hstep).1
  rw [follow_idle hdir (hidle s hs)] at hstep
  exact (Except.ok.inj hstep).symm.trans hx

/-! ## What is at absolute paths -/

theorem hasDirectory_root : v.hasDirectory [] = true := rfl

theorem directory_of_hasDirectory (h : v.hasDirectory p = true) : v.entry? p = some .directory := by
  rw [hasDirectory] at h
  split at h
  · assumption
  · cases h

/-- The directories above the current one are there. -/
theorem hasDirectory_above_current (h : p <+: v.current) : v.hasDirectory p = true := by
  rw [hasDirectory, entry?, if_pos (List.isPrefixOf_iff_prefix.2 h)]

/-! ## Absolute paths that are reached -/

/-- The directory of what is reached is reached. -/
theorem Reaches.dropLast (h : v.Reaches p) : v.Reaches p.dropLast := by
  cases h with
  | root => exact .root
  | enter hdir => rwa [List.dropLast_concat]

/-- The current directory and those above it are reached if their names are names. -/
theorem reaches_above_current (hcurrent : ∀ s ∈ v.current, IsName s) (h : p <+: v.current) :
    v.Reaches p := by
  induction p using List.reverseRecOn with
  | nil => exact .root
  | append_singleton p name ih =>
    have hp : p <+: v.current := (List.prefix_append p [name]).trans h
    have hentry := directory_of_hasDirectory (hasDirectory_above_current h)
    exact .enter (ih hp) (hasDirectory_above_current hp) (hcurrent name (h.subset (by simp)))
      (by rw [hentry]; rfl)

/-- A path begins at what is reached. -/
theorem reaches_origin (hcurrent : ∀ s ∈ v.current, IsName s) : v.Reaches (v.origin path) := by
  rw [origin]
  split
  · exact .root
  · exact reaches_above_current hcurrent List.prefix_rfl

/-- What segments without slashes and NUL lead to is reached. -/
theorem Reaches.follow (hp : v.Reaches p) (hslash : '/' ∉ s.toList) (hnul : '\x00' ∉ s.toList)
    (h : v.follow p s = .ok q) : v.Reaches q := by
  obtain ⟨hdir, ⟨-, rfl⟩ | ⟨-, rfl⟩ | ⟨hidle, hup, hshort, hentry, rfl⟩⟩ := follow_eq_ok_iff.1 h
  · exact hp
  · exact hp.dropLast
  · obtain ⟨hempty, hhere⟩ := not_or.1 hidle
    exact hp.enter hdir ⟨hempty, hhere, hup, hslash, hnul, hshort⟩ hentry

/-- What the segments of a path lead to is reached. -/
theorem Reaches.foldlM_follow (hp : v.Reaches p) (hslash : ∀ s ∈ segs, '/' ∉ s.toList)
    (hnul : ∀ s ∈ segs, '\x00' ∉ s.toList) (h : segs.foldlM v.follow p = .ok q) : v.Reaches q :=
  foldlM_preserves h hp fun s hs _ _ hx hstep => hx.follow (hslash s hs) (hnul s hs) hstep

/-- What is reached consists of names. -/
theorem Reaches.isName (h : v.Reaches p) : ∀ s ∈ p, IsName s := by
  induction h with
  | root => simp
  | enter _ _ hname _ ih => exact List.forall_mem_append.2 ⟨ih, by simpa using hname⟩

/-- The names of what is reached lead to it. -/
theorem Reaches.foldlM_root (h : v.Reaches p) : p.foldlM v.follow [] = .ok p := by
  induction h with
  | root => rfl
  | enter _ hdir hname hentry ih =>
    rw [List.foldlM_append, ih, ok_bind, List.foldlM_cons, follow_name hdir hname hentry]
    rfl

/-! ## Absolute paths as text -/

/-- An absolute path is written with an empty segment first. -/
theorem display_eq (hp : p ≠ []) : display p = "/".intercalate ("" :: p) := by
  rw [display, String.intercalate_cons_of_ne_nil hp, String.empty_append]

/-- Names are found again in the absolute path that is written of them. -/
theorem segments_display (hp : p ≠ []) (h : ∀ s ∈ p, IsName s) :
    FilePath.segments (display p) = "" :: p := by
  rw [display_eq hp]
  refine FilePath.segments_intercalate (by simp) (List.forall_mem_cons.2 ⟨by simp, ?_⟩)
  exact fun s hs => (h s hs).no_slash

theorem isAbsolute_display : FilePath.isAbsolute (display p) = true := by
  simp [FilePath.isAbsolute, display]

theorem hasNul_display (h : ∀ s ∈ p, IsName s) : FilePath.hasNul (display p) = false := by
  by_cases hp : p = []
  · subst hp
    decide
  · rw [FilePath.hasNul_eq_false_iff, segments_display hp h]
    exact List.forall_mem_cons.2 ⟨by simp, fun s hs => (h s hs).no_nul⟩

/-- What is reached is where its own path leads. -/
theorem Reaches.locate_display (h : v.Reaches p) : v.locate (display p) = .ok p := by
  have hne : display p ≠ "" := by simp [display]
  have hroot : v.follow [] "" = .ok [] := follow_idle hasDirectory_root (.inl rfl)
  rw [locate, hasNul_display h.isName, if_neg Bool.false_ne_true, if_neg hne, origin,
    if_pos isAbsolute_display]
  by_cases hp : p = []
  · subst hp
    have hidle : ∀ s ∈ ["", ""], Idle s := by simp [Idle]
    exact foldlM_follow_idle hasDirectory_root hidle
  · rw [segments_display hp h.isName, List.foldlM_cons, hroot, ok_bind, h.foldlM_root]

/-- What is there is found by its own path, if this is not too long. -/
theorem Reaches.lookup_display {e : Entry} (h : v.Reaches p) (hentry : v.entry? p = some e)
    (hfits : (display p).utf8ByteSize ≤ FilePath.limit) : v.lookup (display p) = .ok e := by
  have hshort : (!FilePath.hasNul (display p) &&
      decide (FilePath.limit < (display p).utf8ByteSize)) = false := by
    simp [Nat.not_lt.2 hfits]
  rw [lookup, hshort, h.locate_display]
  show (v.entry? p).elim _ _ = _
  rw [hentry]
  rfl

theorem ne_slash_of_display (hp : p ≠ []) (h : ∀ s ∈ p, IsName s) : display p ≠ "/" := by
  intro hslash
  have hroot : FilePath.segments "/" = ["", ""] := by decide +kernel
  have hsegments := segments_display hp h
  rw [hslash, hroot, List.cons.injEq] at hsegments
  rw [← hsegments.2] at h
  exact (h "" (by simp)).ne_empty rfl

/-- The absolute path of what is in a directory, put together by the program. -/
theorem join_display (h : ∀ s ∈ dir, IsName s) :
    FilePath.join (display dir) name = display (dir ++ [name]) := by
  by_cases hdir : dir = []
  · subst hdir
    rfl
  · rw [FilePath.join, if_neg (ne_slash_of_display hdir h), display_eq hdir,
      display_eq (by simp), ← List.cons_append,
      String.intercalate_append_of_ne_nil (by simp) (by simp), String.intercalate_singleton]

/-- The directory of what is in a directory, as it is found from the path. -/
theorem directory_display (h : ∀ s ∈ dir, IsName s) (hname : IsName name) :
    FilePath.directory (display (dir ++ [name])) = display dir := by
  have hsegments : FilePath.segments (display (dir ++ [name])) = ("" :: dir) ++ [name] :=
    segments_display (by simp) (by simpa [or_imp, forall_and] using ⟨h, hname⟩)
  cases dir using List.reverseRecOn with
  | nil =>
    rw [FilePath.directory_of_idle hsegments hname.not_idle (by decide), isAbsolute_display]
    rfl
  | append_singleton above last =>
    have hlast : ¬ Idle last := (h last (by simp)).not_idle
    have htrim : FilePath.trimEnd ("" :: (above ++ [last])).reverse =
        last :: ("" :: above).reverse := by
      rw [← List.cons_append, List.reverse_append]
      exact FilePath.trimEnd_cons hlast
    have hdir := FilePath.segments_directory_of_kept hsegments hname.not_idle htrim
    rw [← FilePath.intercalate_segments (FilePath.directory _), hdir, display_eq (by simp)]
    simp

/-! ## Where files are put -/

/-- Where nothing is empty at the front, nothing is dropped. -/
theorem eq_cons_of_dropWhile_eq_cons {last : String} {before : List String}
    (h : segs.dropWhile (· = "") = last :: before) (hend : segs.head? ≠ some "") :
    segs = last :: before ∧ last ≠ "" := by
  cases segs with
  | nil => cases h
  | cons s segs =>
    have hs : s ≠ "" := fun hs => hend (congrArg some hs)
    rw [List.dropWhile_cons_of_neg (by simpa using hs)] at h
    cases h
    exact ⟨rfl, hs⟩

/-- A file is put into the directory that the segments before the last lead to, by the last
segment. -/
theorem destination_eq_ok_iff : v.destination path = .ok p ↔
    path.utf8ByteSize ≤ FilePath.limit ∧ ∃ before name dir,
      FilePath.segments path = before ++ [name] ∧ ¬ Idle name ∧ name ≠ ".." ∧
        name.utf8ByteSize ≤ FilePath.segmentLimit ∧
        before.foldlM v.follow (v.origin path) = .ok dir ∧ v.hasDirectory dir = true ∧
        v.hasDirectory (dir ++ [name]) = false ∧ p = dir ++ [name] := by
  constructor
  · intro h
    rw [destination] at h
    split at h
    · cases h
    next hfits =>
    dsimp only at h
    split at h
    · cases h
    next last before hparts =>
    obtain ⟨dir, hdir, h⟩ := bind_eq_ok_iff.1 h
    split at h
    · cases h
    next hisDir =>
    split at h
    · cases h
    next hname =>
    split at h
    · cases h
    next hshort =>
    split at h
    · cases h
    next hend =>
    split at h
    · cases h
    next hfree =>
    cases h
    obtain ⟨hsegments, hempty⟩ := eq_cons_of_dropWhile_eq_cons hparts hend
    rw [Bool.or_eq_true, decide_eq_true_eq, decide_eq_true_eq, not_or] at hname
    exact ⟨Nat.not_lt.1 hfits, before.reverse, last, dir,
      List.reverse_eq_cons_iff.1 hsegments, not_or.2 ⟨hempty, hname.1⟩, hname.2,
      Nat.not_lt.1 hshort, hdir, by simpa using hisDir, by simpa using hfree, rfl⟩
  · rintro ⟨hfits, before, name, dir, hsegments, hidle, hup, hshort, hdir, hisDir, hfree, rfl⟩
    have hempty : name ≠ "" := fun h => hidle (.inl h)
    have hhere : name ≠ "." := fun h => hidle (.inr h)
    rw [destination, if_neg (Nat.not_lt.2 hfits), hsegments]
    simp [hempty, hhere, hup, hdir, ok_bind, hisDir, Nat.not_lt.2 hshort, hfree]
    rfl

/-! ## Volumes that grow -/

/-- In a volume that has grown a segment leads where it did. -/
theorem Grows.follow (hv : v.Grows v') (h : v.follow p s = .ok q) : v'.follow p s = .ok q := by
  rw [follow_eq_ok_iff] at h ⊢
  obtain ⟨hdir, hidle | hup | ⟨hidle, hup, hshort, hentry, rfl⟩⟩ := h
  · exact ⟨hv.hasDirectory p ▸ hdir, .inl hidle⟩
  · exact ⟨hv.hasDirectory p ▸ hdir, .inr (.inl hup)⟩
  · exact ⟨hv.hasDirectory p ▸ hdir,
      .inr (.inr ⟨hidle, hup, hshort, hv.isSome _ hentry, rfl⟩)⟩

theorem Grows.foldlM_follow (hv : v.Grows v') (h : segs.foldlM v.follow p = .ok q) :
    segs.foldlM v'.follow p = .ok q := by
  induction segs generalizing p with
  | nil => exact h
  | cons s segs ih =>
    rw [List.foldlM_cons] at h ⊢
    obtain ⟨r, hr, h⟩ := bind_eq_ok_iff.1 h
    rw [hv.follow hr, ok_bind]
    exact ih h

theorem Grows.origin (hv : v.Grows v') : v'.origin path = v.origin path := by
  rw [Volume.origin, Volume.origin, hv.current]

/-- In a volume that has grown a file is put where it was before. -/
theorem Grows.destination (hv : v.Grows v') (h : v.destination path = .ok p) :
    v'.destination path = .ok p := by
  rw [destination_eq_ok_iff] at h ⊢
  obtain ⟨hfits, before, name, dir, hsegments, hidle, hup, hshort, hdir, hisDir, hfree, hp⟩ := h
  refine ⟨hfits, before, name, dir, hsegments, hidle, hup, hshort, ?_, ?_, ?_, hp⟩
  · rw [hv.origin]
    exact hv.foldlM_follow hdir
  · rw [hv.hasDirectory, hisDir]
  · rw [hv.hasDirectory, hfree]

/-- A volume that has grown takes the files that it took before. -/
theorem Grows.takes (hv : v.Grows v') (h : v.Takes path dir name) : v'.Takes path dir name where
  current := hv.current ▸ h.current
  no_nul := h.no_nul
  destination := hv.destination h.destination
  fits := h.fits
  draft_fits := h.draft_fits

/-- The time does not change what is there. -/
theorem grows_date (date : String) : v.Grows { v with date } :=
  ⟨rfl, fun _ => rfl, fun _ => id⟩

/-- A file that takes no directory's place is there. -/
theorem entry_withFile_self (h : v.hasDirectory p = false) (bytes : ByteArray) :
    Volume.entry? (v.withFile p bytes) p = some (.file bytes 0) := by
  have hcurrent : p.isPrefixOf v.current = false := by
    rw [Bool.eq_false_iff]
    intro hp
    rw [hasDirectory_above_current (List.isPrefixOf_iff_prefix.1 hp)] at h
    cases h
  simp [Volume.entry?, withFile, hcurrent]

theorem entry_withFile_of_ne (h : p ≠ q) (bytes : ByteArray) :
    Volume.entry? (v.withFile p bytes) q = v.entry? q := by
  simp [Volume.entry?, withFile, Std.ExtTreeMap.getElem?_insert, h]

/-- A file takes no directory's place. -/
theorem grows_insert (h : v.hasDirectory p = false) (bytes : ByteArray) :
    v.Grows (v.withFile p bytes) where
  current := rfl
  hasDirectory q := by
    by_cases hq : p = q
    · subst hq
      rw [h, Volume.hasDirectory, entry_withFile_self h]
    · rw [Volume.hasDirectory, entry_withFile_of_ne hq, Volume.hasDirectory]
  isSome q hentry := by
    by_cases hq : p = q
    · subst hq
      rw [entry_withFile_self h]
      rfl
    · rwa [entry_withFile_of_ne hq]

/-! ## Volumes that take a file -/

section
variable (h : v.Takes path dir name)
include h

/-- The segments before the name lead to the directory, and no directory has the name. -/
theorem Takes.exists_segments : ∃ before, FilePath.segments path = before ++ [name] ∧
    IsName name ∧ before.foldlM v.follow (v.origin path) = .ok dir ∧
      v.hasDirectory dir = true ∧ v.hasDirectory (dir ++ [name]) = false := by
  obtain ⟨-, before, name', dir', hsegments, hidle, hup, hshort, hdir, hisDir, hfree, hp⟩ :=
    destination_eq_ok_iff.1 h.destination
  obtain ⟨rfl, hname⟩ := List.append_inj' hp rfl
  cases hname
  have hmem : name ∈ FilePath.segments path := by simp [hsegments]
  obtain ⟨hempty, hhere⟩ := not_or.1 hidle
  exact ⟨before, hsegments, ⟨hempty, hhere, hup, FilePath.no_slash_of_mem_segments hmem,
    FilePath.hasNul_eq_false_iff.1 h.no_nul name hmem, hshort⟩, hdir, hisDir, hfree⟩

theorem Takes.isName : IsName name := by
  obtain ⟨_, _, hname, -⟩ := h.exists_segments
  exact hname

theorem Takes.hasDirectory : v.hasDirectory dir = true := by
  obtain ⟨_, _, _, _, hdir, -⟩ := h.exists_segments
  exact hdir

theorem Takes.not_hasDirectory : v.hasDirectory (dir ++ [name]) = false := by
  obtain ⟨_, _, _, _, _, hfree⟩ := h.exists_segments
  exact hfree

/-- The name of the file is found at the end of the path. -/
theorem Takes.name?_eq : FilePath.name? path = some name := by
  obtain ⟨before, hsegments, hname, -⟩ := h.exists_segments
  exact FilePath.name?_eq hsegments hname.not_idle hname.ne_up

/-- The directory of the file is reached. -/
theorem Takes.reaches : v.Reaches dir := by
  obtain ⟨before, hsegments, -, hdir, -⟩ := h.exists_segments
  have hmem : ∀ s ∈ before, s ∈ FilePath.segments path := fun s hs => by simp [hsegments, hs]
  exact (reaches_origin h.current).foldlM_follow
    (fun s hs => FilePath.no_slash_of_mem_segments (hmem s hs))
    (fun s hs => FilePath.hasNul_eq_false_iff.1 h.no_nul s (hmem s hs)) hdir

/-- The directory of the path is found where the path leads. -/
theorem Takes.locate_directory : v.locate (FilePath.directory path) = .ok dir := by
  obtain ⟨before, hsegments, hname, hdir, hisDir, -⟩ := h.exists_segments
  obtain ⟨kept, idle, pad, rfl, hsegments', hidle, habs⟩ :=
    FilePath.exists_segments_directory hsegments hname.not_idle
  obtain ⟨hidle, hpad⟩ := List.forall_mem_append.1 hidle
  rw [List.foldlM_append] at hdir
  obtain ⟨kept', hkept, hdir⟩ := bind_eq_ok_iff.1 hdir
  cases eq_of_foldlM_follow_idle hdir hidle
  rw [locate, FilePath.hasNul_directory hsegments hname.not_idle h.no_nul,
    if_neg Bool.false_ne_true, if_neg (FilePath.directory_ne_empty path), hsegments', origin, habs,
    List.foldlM_append]
  rw [origin] at hkept
  rw [hkept, ok_bind, foldlM_follow_idle hisDir hpad]

theorem Takes.forall_isName : ∀ s ∈ dir ++ [name], IsName s :=
  List.forall_mem_append.2 ⟨h.reaches.isName, by simpa using h.isName⟩

/-- The absolute path of the file leads where its path does. -/
theorem Takes.destination_display :
    v.destination (display (dir ++ [name])) = .ok (dir ++ [name]) := by
  have hroot : v.follow [] "" = .ok [] := follow_idle hasDirectory_root (.inl rfl)
  refine destination_eq_ok_iff.2 ⟨h.fits, "" :: dir, name, dir,
    segments_display (by simp) h.forall_isName, h.isName.not_idle, h.isName.ne_up, h.isName.short,
    ?_, h.hasDirectory, h.not_hasDirectory, rfl⟩
  rw [origin, if_pos isAbsolute_display, List.foldlM_cons, hroot, ok_bind, h.reaches.foldlM_root]

/-- A file that is put where a path leads is found there. -/
theorem Takes.holds (bytes : ByteArray) :
    (v.withFile (dir ++ [name]) bytes).Holds path (dir ++ [name]) bytes := by
  obtain ⟨before, hsegments, hname, hdir, hisDir, hfree⟩ := h.exists_segments
  have hgrows := grows_insert hfree bytes
  have hentry := entry_withFile_self hfree bytes
  have hreaches := (hgrows.takes h).reaches.enter (hgrows.takes h).hasDirectory hname
    (by rw [hentry]; rfl)
  have hne : path ≠ "" := by
    rintro rfl
    have hlast : (FilePath.segments "").getLast? = some name := by
      rw [hsegments, List.getLast?_concat]
    exact hname.ne_empty (Option.some.inj hlast).symm
  refine ⟨?_, bytes, 0, hreaches.lookup_display hentry h.fits, rfl⟩
  rw [locate, h.no_nul, if_neg Bool.false_ne_true, if_neg hne, hsegments, List.foldlM_append,
    hgrows.origin, hgrows.foldlM_follow hdir, ok_bind, List.foldlM_cons,
    follow_name (hgrows.takes h).hasDirectory hname (by rw [hentry]; rfl)]
  rfl

/-- The volume after a file was put where a path leads. -/
theorem Takes.put_display (bytes : ByteArray) :
    v.put (display (dir ++ [name])) bytes = .ok (v.withFile (dir ++ [name]) bytes) := by
  rw [put, h.destination_display]
  rfl

/-- A file is written where its absolute path leads. -/
theorem Takes.write_display (bytes : ByteArray) :
    v.write (display (dir ++ [name])) bytes = .ok (v.withFile (dir ++ [name]) bytes) := by
  rw [write, hasNul_display h.forall_isName, if_neg Bool.false_ne_true, h.put_display]

/-- A draft may be made beside the file, and takes its place. -/
theorem Takes.replace_display (bytes : ByteArray) :
    v.replace (display (dir ++ [name])) bytes = .ok (v.withFile (dir ++ [name]) bytes) := by
  have hdraft : v.draftPath (display dir) = display (dir ++ [FilePath.draftName 0]) := by
    rw [draftPath, if_pos isAbsolute_display, join_display h.reaches.isName]
  rw [replace, directory_display h.reaches.isName h.isName]
  dsimp only
  rw [hasNul_display h.reaches.isName, if_neg Bool.false_ne_true, hdraft,
    if_neg (Nat.not_lt.2 h.draft_fits), h.reaches.locate_display, ok_bind, h.hasDirectory,
    if_neg (by decide), hasNul_display h.forall_isName, if_neg Bool.false_ne_true, h.put_display]

/-- The directory of the file is found by its own path, which is shorter than the file's. -/
theorem Takes.lookup_directory : v.lookup (display dir) = .ok .directory := by
  refine h.reaches.lookup_display (directory_of_hasDirectory h.hasDirectory) ?_
  have hfits := h.fits
  rw [← join_display h.reaches.isName, FilePath.join] at hfits
  split at hfits <;> simp only [String.utf8ByteSize_append] at hfits <;> omega

end

end

end ArchFacts.Volume
