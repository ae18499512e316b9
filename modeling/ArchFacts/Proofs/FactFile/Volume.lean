import ArchFacts.Command.Run
import ArchFacts.Proofs.Host.Volume

/-!
# Files on volumes

What reading and writing do depends on a volume by one file only. A path that leads to a file with
some contents (`Volume.Holds`) is read as what these contents are read as (`run_read`), and the
volume stays as it is. Where a volume takes a file (`Volume.Takes`), a store is written: the volume
has one more file, which holds the store in a format, and nothing else changes (`run_write`). This
file is what is read there next (`run_write_read`), in the format that its first bytes show
(`exists_run_head`).
-/

namespace ArchFacts

namespace FactFile

open Volume (Holds display contents)

/-- The largest file of a format that is read, in bytes. -/
def Format.limit : Format → Nat
  | .text => textLimit
  | .snapshot => Snapshot.sizeLimit

/-- The format in which a file with some contents is read. -/
def formatOf (bytes : ByteArray) : Format := if isSnapshot bytes then .snapshot else .text

/-- The refusal of a file that is too large. -/
def tooLarge (path : String) (size limit : Nat) : FactError :=
  .file path s!"file size {size} bytes exceeds maximum allowed {limit} bytes"

/-- What a file at some path is read as, if it holds these contents. -/
def readContents (config : Config) (path : String) (bytes : ByteArray) :
    Except FactError (Store × Option LoadReport) :=
  if bytes.size > (formatOf bytes).limit then
    .error (tooLarge path bytes.size (formatOf bytes).limit)
  else decode config path bytes

theorem formatOf_eq_text_iff {bytes : ByteArray} :
    formatOf bytes = .text ↔ isSnapshot bytes = false := by
  rw [formatOf]
  cases isSnapshot bytes <;> simp

section
variable {v v' : Volume} {path : String} {p : List String} {bytes : ByteArray} {config : Config}
variable {α : Type}

/-! ## Reading -/

theorem run_onPath {op : StateM Volume (Except OsError α)} {x : α}
    (h : op.run v = (.ok x, v')) :
    (onPath path op : ExceptT FactError (StateM Volume) α).run.run v = (.ok x, v') := by
  simp only [onPath, ExceptT.run_mk, StateT.run_bind, h]
  rfl

theorem run_liftM {op : StateM Volume α} {x : α} (h : op.run v = (x, v')) :
    (liftM op : ExceptT FactError (StateM Volume) α).run.run v = (.ok x, v') := by
  show ((op.run v) >>= fun p => pure (Except.ok p.1, p.2) : Id _) = _
  rw [h]
  rfl

/-- A file is found where its path leads. -/
theorem run_inputPath (h : v.Holds path p bytes) :
    (inputPath path : ExceptT FactError (StateM Volume) String).run.run v =
      (.ok (display p), v) := by
  obtain ⟨hp, data, zeros, hfile, -⟩ := h
  have hcanonical : (Host.canonicalize path : StateM Volume _).run v = (.ok (display p), v) := by
    simp [Host.canonicalize, hp, Except.map]
    rfl
  have hisFile : (Host.isFile (display p) : StateM Volume Bool).run v = (true, v) := by
    simp [Host.isFile, hfile]
    rfl
  rw [inputPath, run_bind_of_ok (run_onPath hcanonical), run_bind_of_ok (run_liftM hisFile)]
  rfl

/-- The size that is checked is that of what the file holds. -/
theorem run_checkSize (h : v.Holds path p bytes) (limit : Nat) :
    (checkSize (display p) limit : ExceptT FactError (StateM Volume) Unit).run.run v =
      (if bytes.size > limit then .error (tooLarge (display p) bytes.size limit)
        else .ok (), v) := by
  obtain ⟨hp, data, zeros, hfile, rfl⟩ := h
  have hsize : (Host.size (display p) : StateM Volume _).run v =
      (.ok (contents data zeros).size, v) := by
    simp [Host.size, hfile, Except.map, Volume.size_contents]
    rfl
  rw [checkSize, run_bind_of_ok (run_onPath hsize)]
  split <;> rfl

/-- A file that is not too large is decoded. -/
theorem run_checkSize_read (h : v.Holds path p bytes) (limit : Nat) (name : String) :
    (do
      checkSize (display p) limit
      let bytes ← onPath name (Host.read (display p))
      ExceptT.mk (pure (decode config (display p) bytes)) :
        ExceptT FactError (StateM Volume) _).run.run v =
      (if bytes.size > limit then .error (tooLarge (display p) bytes.size limit)
        else decode config (display p) bytes, v) := by
  have hchecked := run_checkSize h limit
  obtain ⟨-, data, zeros, hfile, hcontents⟩ := h
  have hbytes : (Host.read (display p) : StateM Volume _).run v = (.ok bytes, v) := by
    simp [Host.read, hfile, hcontents]
    rfl
  by_cases hlimit : bytes.size > limit
  · rw [if_pos hlimit] at hchecked ⊢
    rw [run_bind_of_error hchecked]
  · rw [if_neg hlimit] at hchecked ⊢
    rw [run_bind_of_ok hchecked, run_bind_of_ok (run_onPath hbytes)]
    rfl

/-- The first bytes of a file show in which format it is. -/
theorem exists_run_head (h : v.Holds path p bytes) : ∃ head,
    (Host.head (display p) 4 : StateM Volume _).run v = (.ok head, v) ∧
      isSnapshot head = isSnapshot bytes := by
  obtain ⟨-, data, zeros, hfile, hcontents⟩ := h
  refine ⟨contents (data.extract 0 4) (min zeros (4 - data.size)), ?_, ?_⟩
  · simp [Host.head, hfile]
    rfl
  · rw [isSnapshot, isSnapshot, Volume.toList_contents_head, hcontents, List.take_take,
      Nat.min_self]

/-- A file is read as what it holds, and reading it changes nothing. -/
theorem run_read (h : v.Holds path p bytes) :
    (read config path : ExceptT FactError (StateM Volume) _).run.run v =
      (readContents config (display p) bytes, v) := by
  obtain ⟨head, hhead, hsnapshot⟩ := exists_run_head h
  rw [read, run_bind_of_ok (run_inputPath h), run_bind_of_ok (run_onPath hhead), hsnapshot,
    readContents, formatOf]
  cases isSnapshot bytes with
  | true => exact run_checkSize_read h Snapshot.sizeLimit path
  | false => exact run_checkSize_read h textLimit (display p)

/-- What an operation gives where its errors are those of a path. -/
theorem run_of_onPath {op : StateM Volume (Except OsError α)} {x : α}
    (h : (onPath path op : ExceptT FactError (StateM Volume) α).run.run v = (.ok x, v')) :
    op.run v = (.ok x, v') := by
  have hrun : ((op.run v).1.mapError fun e => FactError.file path e.message, (op.run v).2) =
      (.ok x, v') := h
  rcases hop : op.run v with ⟨_ | y, w⟩ <;> rw [hop] at hrun <;> cases hrun
  rfl

/-- What is read is a file. -/
theorem exists_holds_of_run_read {x : Store × Option LoadReport}
    (h : (read config path : ExceptT FactError (StateM Volume) _).run.run v = (.ok x, v')) :
    ∃ p bytes, v.Holds path p bytes := by
  obtain ⟨_, _, hinput, -⟩ := exists_of_run_bind_eq_ok h
  obtain ⟨canonical, w, hcanonical, hinput⟩ := exists_of_run_bind_eq_ok hinput
  have hrun : ((v.locate path).map display, v) = (.ok canonical, w) := run_of_onPath hcanonical
  obtain ⟨hlocate, rfl⟩ := Prod.mk.inj hrun
  obtain ⟨p, hp, rfl⟩ := map_eq_ok_iff.1 hlocate
  have hfile : ∃ data zeros, v.lookup (display p) = .ok (.file data zeros) := by
    by_contra hno
    have hisFile : (Host.isFile (display p) : StateM Volume Bool).run v = (false, v) := by
      rcases hentry : v.lookup (display p) with e | _ | ⟨data, zeros⟩
      · simp [Host.isFile, hentry]
        rfl
      · simp [Host.isFile, hentry]
        rfl
      · exact absurd ⟨data, zeros, hentry⟩ hno
    rw [run_bind_of_ok (run_liftM hisFile)] at hinput
    cases hinput
  obtain ⟨data, zeros, hfile⟩ := hfile
  exact ⟨p, _, hp, data, zeros, hfile, rfl⟩

/-! ## Writing -/

/-- A change of the volume that is not refused is made. -/
theorem run_change {f : Volume → Except OsError Volume} (h : f v = .ok v') :
    (onPath path (Volume.change f) : ExceptT FactError (StateM Volume) Unit).run.run v =
      (.ok (), v') := by
  apply run_onPath
  show Volume.change f v = _
  rw [Volume.change, h]

variable {dir : List String} {name : String}

/-- The place of a file is found where its path leads. -/
theorem run_outputPath (h : v.Takes path dir name) :
    (outputPath path : ExceptT FactError (StateM Volume) String).run.run v =
      (.ok (display (dir ++ [name])), v) := by
  have hcanonical : (Host.canonicalize (FilePath.directory path) : StateM Volume _).run v =
      (.ok (display dir), v) := by
    simp [Host.canonicalize, h.locate_directory, Except.map]
    rfl
  have hisDirectory : (Host.isDirectory (display dir) : StateM Volume Bool).run v = (true, v) := by
    simp [Host.isDirectory, h.lookup_directory]
    rfl
  rw [outputPath, run_bind_of_ok (run_onPath hcanonical), run_bind_of_ok (run_liftM hisDirectory),
    h.name?_eq, ← Volume.join_display h.reaches.isName]
  rfl

/-- Where a volume takes a file, a store is written in any format, and nothing else changes. -/
theorem run_write (h : v.Takes path dir name) (format : Format) (s : Store) :
    (write config path format s : ExceptT FactError (StateM Volume) _).run.run v =
      (.ok (), v.withFile (dir ++ [name]) (encode config v.date format s)) := by
  rw [write, run_bind_of_ok (run_outputPath h)]
  cases format with
  | text =>
    have hdate : (liftM (Host.date : StateM Volume String) :
        ExceptT FactError (StateM Volume) String).run.run v = (.ok v.date, v) := rfl
    dsimp only
    rw [save, run_bind_of_ok hdate]
    exact run_change (h.replace_display _)
  | snapshot => exact run_change (h.write_display _)

/-- What was written is read at the same path. -/
theorem run_write_read (config : Config) (h : v.Takes path dir name) (format : Format) (s : Store) :
    (do write config path format s; read config path :
      ExceptT FactError (StateM Volume) _).run.run v =
      (readContents config (display (dir ++ [name])) (encode config v.date format s),
        v.withFile (dir ++ [name]) (encode config v.date format s)) := by
  rw [run_bind_of_ok (run_write h format s), run_read (h.holds _)]

/-- A conversion of a file that is read writes what was read. -/
theorem run_convert {json : Bool} {input : String} {format : Format} {s : Store}
    {report? : Option LoadReport}
    (hread : (read config input : ExceptT FactError (StateM Volume) _).run.run v =
      (.ok (s, report?), v)) (h : v.Takes path dir name) :
    (Command.runTask config json (.convert input path format) :
      ExceptT FactError (StateM Volume) String).run.run v =
      (.ok (Command.convertReport json input path format s),
        v.withFile (dir ++ [name]) (encode config v.date format s)) := by
  rw [Command.runTask, run_bind_of_ok hread]
  dsimp only
  rw [run_bind_of_ok (run_write h format s)]
  rfl

end

end FactFile

end ArchFacts
