import ArchFacts.Proofs.Document.Reload
import ArchFacts.Proofs.FactFile.Volume
import ArchFacts.Proofs.Snapshot.History

/-!
# Conversions between text and snapshots

Text that is written begins as a comment does and never with the mark of snapshots, so that contents
are always read in the format in which they were written (`formatOf_encode`). The store that a text
describes obeys the rules on stores, and relations between the same ends have the same attributes in
it; this is what both formats preserve, so it is read back from either
(`exists_readContents_encode`). Where a volume takes a file, the store is written to it and read
from it (`run_rewrite`), and the volume still takes the files that follow (`takes_withFile`).
Conversions may follow each other as they like, therefore (`foldlM_rewrite`).
-/

namespace ArchFacts.FactFile

open Volume (display)

/-! ## Contents -/

section
variable {config : Config} {s : Store} {report : LoadReport} {bytes : ByteArray}
variable {path date : String} {format : Format}

/-- Written text begins as a comment does. -/
theorem exists_render_eq (config : Config) (date : String) (s : Store) :
    ∃ rest, s.render config date = "//" ++ rest := by
  obtain ⟨line, lines, hlines⟩ : ∃ line lines,
      (Document.ofStore config s).renderLines config date = ('/' :: '/' :: line) :: lines :=
    ⟨_, _, rfl⟩
  refine ⟨String.ofList (line ++ '\n' :: lines.flatMap (· ++ ['\n'])), String.toList_inj.1 ?_⟩
  rw [Store.render, Document.render, hlines]
  simp

/-- The size of written text is the number of the bytes of its characters. -/
theorem size_encode_text (config : Config) (date : String) (s : Store) :
    (encode config date .text s).size =
      ((Document.ofStore config s).renderLines config date |>.flatMap (· ++ ['\n'])
        |>.flatMap String.utf8EncodeChar).length := by
  rw [encode, String.toUTF8, Store.render, Document.render, String.toByteArray_ofList,
    List.utf8Encode, List.size_toByteArray]

/-- What is written in a format is read in this format. -/
theorem formatOf_encode (config : Config) (date : String) (format : Format) (s : Store) :
    formatOf (encode config date format s) = format := by
  cases format with
  | snapshot => rfl
  | text =>
    obtain ⟨rest, hrest⟩ := exists_render_eq config date s
    have hstart : "//".toByteArray.data.toList = [0x2F, 0x2F] := rfl
    have hbytes : (encode config date .text s).data.toList =
        0x2F :: 0x2F :: rest.toByteArray.data.toList := by
      rw [encode, hrest, String.toUTF8, String.toByteArray_append, ByteArray.data_append,
        Array.toList_append, hstart]
      rfl
    rw [formatOf_eq_text_iff, isSnapshot, hbytes]
    simp [Snapshot.magicBytes, Snapshot.Header.toBytes, Snapshot.Header.current]

/-- What is written is marked as a snapshot exactly if it is one. -/
theorem isSnapshot_encode (config : Config) (date : String) (format : Format) (s : Store) :
    isSnapshot (encode config date format s) = decide (format = .snapshot) := by
  have hformat := formatOf_encode config date format s
  cases format with
  | snapshot => rfl
  | text => exact formatOf_eq_text_iff.1 hformat

/-- A text that is loaded is read if it is not marked as a snapshot and is not too large. -/
theorem readContents_of_load {text : String} (hformat : formatOf text.toUTF8 = .text)
    (hsize : text.toUTF8.size ≤ textLimit)
    (hload : (∅ : Store).load config text = .ok (report, s)) :
    readContents config path text.toUTF8 = .ok (s, some report) := by
  have hspelt : textOf path text.toUTF8 = .ok text := by
    rw [textOf, String.toUTF8, Snapshot.fromUTF8?_toByteArray]
  have hlimit : ¬ text.toUTF8.size > (formatOf text.toUTF8).limit := by
    rw [hformat]
    exact Nat.not_lt.2 hsize
  rw [readContents, if_neg hlimit, decode, formatOf_eq_text_iff.1 hformat, hspelt]
  simp only [ok_bind, Bool.false_eq_true, if_false, hload]
  rfl

/-- The snapshot of a canonical store is read if it is not too large. -/
theorem readContents_snapshot (hs : s.Canonical)
    (hsize : (Snapshot.encode s).size ≤ Snapshot.sizeLimit) :
    readContents config path (Snapshot.encode s) = .ok (s, none) := by
  have hlimit : ¬ (Snapshot.encode s).size > (formatOf (Snapshot.encode s)).limit :=
    Nat.not_lt.2 hsize
  have hmarked : isSnapshot (Snapshot.encode s) = true := rfl
  rw [readContents, if_neg hlimit, decode, if_pos hmarked, Snapshot.decode_encode hs hsize]
  rfl

/-- Contents that are read as text spell a text that describes a store. -/
theorem exists_ofText_of_readContents
    (h : readContents config path bytes = .ok (s, some report)) :
    ∃ text, Store.ofText config text = .ok s := by
  rw [readContents] at h
  split at h
  · cases h
  rw [decode] at h
  split at h
  · obtain ⟨s', -, hs'⟩ := map_eq_ok_iff.1 h
    cases hs'
  · obtain ⟨text, -, h⟩ := bind_eq_ok_iff.1 h
    obtain ⟨⟨report', s'⟩, hload, h⟩ := bind_eq_ok_iff.1 h
    cases h
    exact ⟨text, by rw [Store.ofText, hload]; rfl⟩

/-! ## Conversions -/

/-- What is written of the store that some text describes is read as this store, in any format. -/
theorem exists_readContents_encode {text : String} (htext : Store.ofText config text = .ok s)
    (hv : config.validate = .ok ()) (hf : config.entityRelation ≠ "FACT")
    (hs : config.entityRelation ≠ "SCHEME") (hdate : '\n' ∉ date.toList)
    (hsize : (encode config date format s).size ≤ format.limit) :
    ∃ report?, readContents config path (encode config date format s) = .ok (s, report?) := by
  cases format with
  | text =>
    obtain ⟨⟨report, s'⟩, hload, rfl⟩ :=
      map_eq_ok_iff.1 (Store.ofText_render_again htext hv hf hs hdate)
    exact ⟨some report, readContents_of_load (formatOf_encode config date .text s') hsize hload⟩
  | snapshot =>
    obtain ⟨hc, hw, -⟩ := Store.ofText_spec htext
    exact ⟨none, readContents_snapshot (hw.canonical hc) hsize⟩

/-- A file that a store is to be written to. -/
structure Target where
  format : Format
  path : String
  /-- When the file is written. -/
  date : String

/-- Writes a store to a file, and reads the file. -/
def rewrite (config : Config) (s : Store) (t : Target) :
    ExceptT FactError (StateM Volume) Store := do
  modify fun v => { v with date := t.date }
  write config t.path t.format s
  let (s, _) ← read config t.path
  return s

/-- Converts a file to another one, as the command does, and gives the path of the new file. -/
def convertTo (config : Config) (json : Bool) (input : String) (t : Target) :
    ExceptT FactError (StateM Volume) String := do
  modify fun v => { v with date := t.date }
  let _ ← Command.runTask config json (.convert input t.path t.format)
  return t.path

variable {v : Volume} {dir : List String} {name : String} {targets : List Target}

theorem run_modify_date (date : String) :
    (modify fun v => { v with date } : ExceptT FactError (StateM Volume) PUnit).run.run v =
      (.ok (), { v with date }) :=
  rfl

/-- A store is read back from a file that it was written to, if it is read from what is written. The
file is all that changes on the volume. -/
theorem run_rewrite {t : Target} {report? : Option LoadReport} (h : v.Takes t.path dir name)
    (hread : readContents config (display (dir ++ [name])) (encode config t.date t.format s) =
      .ok (s, report?)) :
    (rewrite config s t).run.run v = (.ok s, { v with date := t.date }.withFile (dir ++ [name])
      (encode config t.date t.format s)) := by
  have htakes := (Volume.grows_date t.date).takes h
  have hback := run_write_read config htakes t.format s
  rw [hread] at hback
  rw [rewrite, run_bind_of_ok (run_modify_date t.date), ← bind_assoc, run_bind_of_ok hback]
  rfl

/-- A conversion of a file that is read as a store writes the store. -/
theorem run_convertTo {t : Target} {p : List String} {report? : Option LoadReport} (json : Bool)
    (hfile : v.Holds path p bytes)
    (hbytes : readContents config (display p) bytes = .ok (s, report?))
    (h : v.Takes t.path dir name) :
    (convertTo config json path t).run.run v = (.ok t.path,
      { v with date := t.date }.withFile (dir ++ [name]) (encode config t.date t.format s)) := by
  have htakes := (Volume.grows_date t.date).takes h
  have hfile' : { v with date := t.date }.Holds path p bytes := hfile
  rw [convertTo, run_bind_of_ok (run_modify_date t.date),
    run_bind_of_ok (run_convert ((run_read hfile').trans (by rw [hbytes])) htakes)]
  rfl

/-- After a file was put on a volume, the volume takes the files that it took before. -/
theorem takes_withFile (h : v.Takes path dir name) (date : String)
    (htakes : ∀ t ∈ targets, ∃ dir name, v.Takes t.path dir name) :
    ∀ t ∈ targets, ∃ dir' name',
      ({ v with date }.withFile (dir ++ [name]) bytes).Takes t.path dir' name' := by
  intro t ht
  obtain ⟨dir', name', h'⟩ := htakes t ht
  have hdate := Volume.grows_date (v := v) date
  have hgrows := Volume.grows_insert (hdate.takes h).not_hasDirectory bytes
  exact ⟨dir', name', hgrows.takes (hdate.takes h')⟩

/-- A store passes through files of any formats, one after the other. -/
theorem exists_run_foldlM_rewrite
    (htakes : ∀ t ∈ targets, ∃ dir name, v.Takes t.path dir name)
    (hread : ∀ t ∈ targets, ∀ path, ∃ report?,
      readContents config path (encode config t.date t.format s) = .ok (s, report?)) :
    ∃ v', (targets.foldlM (rewrite config) s).run.run v = (.ok s, v') := by
  induction targets generalizing v with
  | nil => exact ⟨v, rfl⟩
  | cons t targets ih =>
    rw [List.forall_mem_cons] at htakes hread
    obtain ⟨⟨dir, name, h⟩, htakes⟩ := htakes
    obtain ⟨report?, hread₁⟩ := hread.1 (display (dir ++ [name]))
    rw [List.foldlM_cons, run_bind_of_ok (run_rewrite h hread₁)]
    exact ih (takes_withFile h t.date htakes) hread.2

/-- The command that converts files may be repeated as well: each time the file that was written
last is converted, and the last of these files is read as what the first was read as. -/
theorem exists_run_foldlM_convertTo {p : List String} {report? : Option LoadReport} (json : Bool)
    (hfile : v.Holds path p bytes)
    (hbytes : readContents config (display p) bytes = .ok (s, report?))
    (htakes : ∀ t ∈ targets, ∃ dir name, v.Takes t.path dir name)
    (hread : ∀ t ∈ targets, ∀ path, ∃ report?,
      readContents config path (encode config t.date t.format s) = .ok (s, report?)) :
    ∃ v' last report?, (targets.foldlM (convertTo config json) path).run.run v = (.ok last, v') ∧
      (read config last : ExceptT FactError (StateM Volume) _).run.run v' =
        (.ok (s, report?), v') := by
  induction targets generalizing v path p bytes report? with
  | nil => exact ⟨v, path, report?, rfl, by rw [run_read hfile, hbytes]⟩
  | cons t targets ih =>
    rw [List.forall_mem_cons] at htakes hread
    obtain ⟨⟨dir, name, h⟩, htakes⟩ := htakes
    obtain ⟨report?', hread₁⟩ := hread.1 (display (dir ++ [name]))
    rw [List.foldlM_cons, run_bind_of_ok (run_convertTo json hfile hbytes h)]
    exact ih (((Volume.grows_date t.date).takes h).holds _) hread₁
      (takes_withFile h t.date htakes) hread.2

/-- The first bytes of a file that was written show the format in which it was written. -/
theorem exists_head_of_run_write (h : v.Takes path dir name) (format : Format) (s : Store) :
    ∃ v' canonical head,
      (write config path format s : ExceptT FactError (StateM Volume) _).run.run v =
        (.ok (), v') ∧
      (inputPath path : ExceptT FactError (StateM Volume) _).run.run v' = (.ok canonical, v') ∧
      (Host.head canonical 4 : StateM Volume _).run v' = (.ok head, v') ∧
      isSnapshot head = decide (format = .snapshot) := by
  have hfile := h.holds (encode config v.date format s)
  obtain ⟨head, hhead, hsnapshot⟩ := exists_run_head hfile
  refine ⟨_, _, head, run_write h format s, run_inputPath hfile, hhead, ?_⟩
  rw [hsnapshot, isSnapshot_encode]

/-- **Conversions lose nothing.** A store that is read from text passes through any sequence of
files, of texts and of snapshots, at any dates: where a volume takes the files, each is written, and
what was written is read as the store again, to the last index, if no file is too large to be read.
So the command that converts files may be repeated, each time on the file that it wrote last. What
is written as text is read as text, and what is written as a snapshot is read as a snapshot,
whatever the store is: the first bytes of the file show the format. -/
theorem foldlM_rewrite
    (hread : (read config path : ExceptT FactError (StateM Volume) _).run.run v =
      (.ok (s, some report), v))
    (hv : config.validate = .ok ()) (hf : config.entityRelation ≠ "FACT")
    (hs : config.entityRelation ≠ "SCHEME")
    (htakes : ∀ t ∈ targets, ∃ dir name, v.Takes t.path dir name)
    (hdate : ∀ t ∈ targets, '\n' ∉ t.date.toList)
    (hsize : ∀ t ∈ targets, (encode config t.date t.format s).size ≤ t.format.limit) :
    (∃ v', (targets.foldlM (rewrite config) s).run.run v = (.ok s, v')) ∧
      (∀ json, ∃ v' last report?,
        (targets.foldlM (convertTo config json) path).run.run v = (.ok last, v') ∧
          (read config last : ExceptT FactError (StateM Volume) _).run.run v' =
            (.ok (s, report?), v')) ∧
      ∀ {w : Volume} {output dir name}, w.Takes output dir name → ∀ format s',
        ∃ w' canonical head,
          (write config output format s' : ExceptT FactError (StateM Volume) _).run.run w =
            (.ok (), w') ∧
          (inputPath output : ExceptT FactError (StateM Volume) _).run.run w' =
            (.ok canonical, w') ∧
          (Host.head canonical 4 : StateM Volume _).run w' = (.ok head, w') ∧
          isSnapshot head = decide (format = .snapshot) := by
  obtain ⟨p, bytes, hfile⟩ := exists_holds_of_run_read hread
  rw [run_read hfile, Prod.mk.injEq] at hread
  obtain ⟨text, htext⟩ := exists_ofText_of_readContents hread.1
  have hwritten : ∀ t ∈ targets, ∀ path, ∃ report?,
      readContents config path (encode config t.date t.format s) = .ok (s, report?) :=
    fun t ht _ => exists_readContents_encode htext hv hf hs (hdate t ht) (hsize t ht)
  exact ⟨exists_run_foldlM_rewrite htakes hwritten,
    fun json => exists_run_foldlM_convertTo json hfile hread.1 htakes hwritten,
    exists_head_of_run_write⟩

/-- A text with repeated, crossed and dangling facts is loaded, and what is loaded is not too large
to be read again. -/
theorem exists_load_tangledText : ∃ report s,
    (∅ : Store).load {} Store.tangledText = .ok (report, s) ∧
      (encode {} "then" .text s).size ≤ textLimit ∧
      (Snapshot.encode s).size ≤ Snapshot.sizeLimit := by
  -- The text is counted as a list of bytes, which takes less time than to build it.
  have hfits : (((∅ : Store).load {} Store.tangledText).toOption.any fun x =>
      ((Document.ofStore {} x.2).renderLines {} "then" |>.flatMap (· ++ ['\n'])
        |>.flatMap String.utf8EncodeChar).length ≤ textLimit &&
      (Snapshot.toBytes x.2).length ≤ Snapshot.sizeLimit) = true := by
    rw [Store.load, Document.parse, Store.tangledText, String.toList_join]
    decide +kernel
  obtain ⟨⟨report, s⟩, hsome, hlengths⟩ := (Option.any_eq_true _ _).1 hfits
  rw [Bool.and_eq_true, decide_eq_true_eq, decide_eq_true_eq, ← size_encode_text] at hlengths
  refine ⟨report, s, ?_, hlengths⟩
  cases hload : (∅ : Store).load {} Store.tangledText with
  | error e => rw [hload] at hsome; cases hsome
  | ok x => rw [hload] at hsome; cases hsome; rfl

/-- A volume with the file of a text and a directory beside it. -/
def tangledVolume : Volume where
  entries := ((∅ : Std.ExtTreeMap (List String) Entry).insert ["home", "base.ta"]
    (.file Store.tangledText.toUTF8 0)).insert ["home", "out"] .directory
  current := ["home"]

theorem holds_tangledVolume :
    tangledVolume.Holds "base.ta" ["home", "base.ta"] Store.tangledText.toUTF8 := by
  have hlocate : tangledVolume.locate "base.ta" = .ok ["home", "base.ta"] := by decide +kernel
  have hdisplay : tangledVolume.locate (display ["home", "base.ta"]) =
      .ok ["home", "base.ta"] := by decide +kernel
  have hentry : tangledVolume.entry? ["home", "base.ta"] =
      some (.file Store.tangledText.toUTF8 0) := by
    rw [Volume.entry?, if_neg (by decide), tangledVolume, Std.ExtTreeMap.getElem?_insert,
      if_neg (by decide), Std.ExtTreeMap.getElem?_insert_self]
  have hlookup : tangledVolume.lookup (display ["home", "base.ta"]) =
      .ok (.file Store.tangledText.toUTF8 0) := by
    simp only [Volume.lookup, hdisplay, ok_bind, hentry]
    rfl
  exact ⟨hlocate, _, 0, hlookup, rfl⟩

/-- Files beside the text, below it and in its place: a snapshot of what is read as text, text of
what is read as a snapshot, and each of its own kind. -/
def alternatingTargets : List Target :=
  [⟨.snapshot, "base.fb", "now"⟩, ⟨.snapshot, "out/base.fb", "now"⟩,
    ⟨.text, "/home/base.ta", "then"⟩, ⟨.text, "./out/../again.ta", "then"⟩,
    ⟨.snapshot, "base.fb", "later"⟩]

theorem takes_alternatingTargets :
    ∀ t ∈ alternatingTargets, ∃ dir name, tangledVolume.Takes t.path dir name := by
  have hcurrent : ∀ s ∈ tangledVolume.current, FilePath.IsName s := by
    intro s hs
    cases List.mem_singleton.1 hs
    exact ⟨by decide, by decide, by decide, by decide, by decide, by decide⟩
  have htakes : ∀ {path dir name}, (FilePath.hasNul path = false ∧
      tangledVolume.destination path = .ok (dir ++ [name]) ∧
      (display (dir ++ [name])).utf8ByteSize ≤ FilePath.limit ∧
      (display (dir ++ [FilePath.draftName 0])).utf8ByteSize ≤ FilePath.limit) →
      tangledVolume.Takes path dir name :=
    fun ⟨hnul, hdestination, hfits, hdraft⟩ => ⟨hcurrent, hnul, hdestination, hfits, hdraft⟩
  simp only [alternatingTargets, List.forall_mem_cons]
  exact ⟨⟨["home"], "base.fb", htakes (by decide +kernel)⟩,
    ⟨["home", "out"], "base.fb", htakes (by decide +kernel)⟩,
    ⟨["home"], "base.ta", htakes (by decide +kernel)⟩,
    ⟨["home"], "again.ta", htakes (by decide +kernel)⟩,
    ⟨["home"], "base.fb", htakes (by decide +kernel)⟩, by simp⟩

theorem foldlM_rewrite_tangled : ∃ s report,
    (read {} "base.ta" : ExceptT FactError (StateM Volume) _).run.run tangledVolume =
      (.ok (s, some report), tangledVolume) ∧
    Config.validate {} = .ok () ∧
    (∀ t ∈ alternatingTargets, ∃ dir name, tangledVolume.Takes t.path dir name) ∧
    (∀ t ∈ alternatingTargets, (encode {} t.date t.format s).size ≤ t.format.limit) ∧
    (∃ v', (alternatingTargets.foldlM (rewrite {}) s).run.run tangledVolume = (.ok s, v')) ∧
    ∀ json, ∃ v' last report?,
      (alternatingTargets.foldlM (convertTo {} json) "base.ta").run.run tangledVolume =
        (.ok last, v') ∧
      (read {} last : ExceptT FactError (StateM Volume) _).run.run v' = (.ok (s, report?), v') := by
  obtain ⟨report, s, hload, htext, hsnapshot⟩ := exists_load_tangledText
  have hformat : formatOf Store.tangledText.toUTF8 = .text := by decide +kernel
  have hsmall : Store.tangledText.toUTF8.size ≤ textLimit := by decide +kernel
  have hread : (read {} "base.ta" : ExceptT FactError (StateM Volume) _).run.run tangledVolume =
      (.ok (s, some report), tangledVolume) := by
    rw [run_read holds_tangledVolume, readContents_of_load hformat hsmall hload]
  have hdate : ∀ t ∈ alternatingTargets, '\n' ∉ t.date.toList := by decide
  have hsize : ∀ t ∈ alternatingTargets, (encode {} t.date t.format s).size ≤ t.format.limit := by
    simp only [alternatingTargets, List.forall_mem_cons]
    exact ⟨hsnapshot, hsnapshot, htext, htext, hsnapshot, by simp⟩
  obtain ⟨hrewrite, hconvert, -⟩ := foldlM_rewrite hread Config.validate_default (by decide)
    (by decide) takes_alternatingTargets hdate hsize
  exact ⟨s, report, hread, Config.validate_default, takes_alternatingTargets, hsize, hrewrite,
    hconvert⟩

end

end ArchFacts.FactFile
