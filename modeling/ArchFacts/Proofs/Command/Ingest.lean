import ArchFacts.Command.Run
import ArchFacts.Proofs.Snapshot.RoundTrip
import ArchFacts.Proofs.Store.Grounded
import ArchFacts.Proofs.Store.RoundTrip

/-!
# What an ingestion leaves, and the formats it is written in

The store that an ingestion leaves obeys the rules on stores, and all its relations are resolved and
have both ends (`ingest_spec`). Written as a snapshot, it reads back as it is. Written as text, it
reads back with the same entities and the same relations, but a block of attributes in text is meant
for all relations between two entities, whatever their kinds. So relations that share both ends come
back with each other's attributes, and the formats agree exactly if such relations had the same
attributes before (`readBack_ingest`).
-/

namespace ArchFacts.Command

open Store

section
variable {config : Config} {hierarchy : Bool} {records : List Record} {report : IngestReport}
variable {s : Store} {generated : String}

/-- An ingestion takes elementary steps, which resolve no relation without both ends, and then
resolves the store. -/
theorem exists_steps_of_ingest {P : Attributes → Prop} (hP : Attributes.Rule P) {s' : Store}
    (hc : s.Coherent) (h : ingest config hierarchy records s = .ok (report, s')) :
    ∃ s₁, Steps P s s₁ ∧ s.Extends s₁ ∧ s' = s₁.resolve.2 := by
  obtain ⟨⟨replay, s₁⟩, hreplay, h⟩ := bind_eq_ok_iff.1 h
  have hsteps : Steps P s s₁ := .replay hP hc hreplay
  have hext : s.Extends s₁ := .replay hc hreplay
  cases hierarchy with
  | false =>
    cases h
    exact ⟨s₁, hsteps, hext, rfl⟩
  | true =>
    cases h
    have hc₁ : s₁.Coherent := Steps.coherent hsteps hc
    have hinstall : Steps P s₁ ((Hierarchy.ofStore config s₁).install config s₁).2 :=
      .install hP hc₁ _ config
    have hc₂ := Steps.coherent hinstall hc₁
    exact ⟨_, hsteps.trans (hinstall.trans (Steps.attach hP hc₂ _ _)),
      hext.trans ((Extends.install hc₁ _ config).trans (.attach hc₂ _ _)), rfl⟩

/-- After an ingestion into a grounded store every relation is resolved and has both ends. -/
theorem grounded_ingest (hc : s.Coherent) (hg : s.Grounded) {s' : Store}
    (h : ingest config hierarchy records s = .ok (report, s')) {key : EdgeKey} {e : Edge}
    (he : s'.edges[key]? = some e) : e.resolved = true ∧ s'.hasEnds key = true := by
  obtain ⟨s₁, hsteps, hext, rfl⟩ := exists_steps_of_ingest Attributes.rule_true hc h
  have hg₁ : s₁.Grounded := hg.of_extends hext
  exact hg₁.resolve (Steps.coherent hsteps hc) he

/-- The store that records fill, with or without the hierarchy of source files, obeys the rules on
stores, and each of its relations is resolved and has both ends. -/
theorem ingest_spec (h : ingest config hierarchy records ∅ = .ok (report, s)) :
    s.Coherent ∧ s.WellFormed ∧
      ∀ {key : EdgeKey} {e}, s.edges[key]? = some e → e.resolved = true ∧ s.hasEnds key = true := by
  obtain ⟨s₁, hsteps, -, rfl⟩ := exists_steps_of_ingest Attributes.rule_proper coherent_empty h
  have hsteps' : Steps Attributes.Proper ∅ s₁.resolve.2 := hsteps.tail .resolve
  exact ⟨Steps.coherent hsteps' coherent_empty,
    Steps.wellFormed hsteps' coherent_empty wellFormed_empty,
    grounded_ingest coherent_empty grounded_empty h⟩

/-- **The formats of a fact base.** The store that an ingestion leaves reads back from its snapshot
as it is. From its text it reads back with the same entities and with relations under the same keys,
each with the attributes of all relations between its ends, merged by kind. A relation that is the
only one between its ends has its own attributes then, and both stores are the same exactly if every
relation has all attributes of the relations between its ends. -/
theorem readBack_ingest (h : ingest config hierarchy records ∅ = .ok (report, s))
    (hv : config.validate = .ok ()) (hf : config.entityRelation ≠ "FACT")
    (hs : config.entityRelation ≠ "SCHEME") (hg : '\n' ∉ generated.toList)
    (hsize : (Snapshot.encode s).size ≤ Snapshot.sizeLimit) :
    Snapshot.decode (Snapshot.encode s) = .ok s ∧
      ∃ s', ofText config (s.render config generated) = .ok s' ∧ s'.nodes = s.nodes ∧
        s'.edges = s.edges.map (fun key e =>
          { e with attributes := s.pairAttributes key.source key.dest }) ∧
        (∀ e ∈ s.edgeList, (∀ kind, kind ≠ e.kind → s.edge? ⟨e.source, e.dest, kind⟩ = none) →
          s'.edge? e.toEdgeKey = some e) ∧
        (s' = s ↔ ∀ e ∈ s.edgeList, s.pairAttributes e.source e.dest = e.attributes) := by
  obtain ⟨hc, hw, hall⟩ := ingest_spec h
  obtain ⟨s', htext, -, hnodes, hedges⟩ := ofText_render_of_resolved hc hw hall hv hf hs hg
  have hget : ∀ e ∈ s.edgeList, s'.edge? e.toEdgeKey =
      some { e with attributes := s.pairAttributes e.source e.dest } := by
    intro e he
    rw [edge?, hedges, Std.ExtTreeMap.getElem?_map, (mem_edgeList hc).1 he]
    rfl
  refine ⟨Snapshot.decode_encode (hw.canonical hc) hsize, s', htext, hnodes, hedges, ?_, ?_, ?_⟩
  · intro e he halone
    rw [hget e he, pairAttributes_of_alone hc hw he halone]
  · rintro rfl e he
    have hsame := (hget e he).symm.trans ((mem_edgeList hc).1 he)
    exact congrArg Edge.attributes (Option.some.inj hsame)
  · intro hsame
    have hback := ofText_render_of_pairAttributes hc hw hall hsame hv hf hs hg
    exact Except.ok.inj (htext.symm.trans hback)

/-- Requests for a function that calls an object and refers to it, the call standing on a line. -/
def callAndReference : List Record :=
  [.node "a" none .function, .node "b" none .object, .edge ⟨"a", "b", .calls⟩,
    .edge ⟨"a", "b", .references⟩, .attr (.edge ⟨"a", "b", .calls⟩) "line" "3"]

/-- The store that these requests fill. -/
def callAndReferenceStore : Store :=
  (Record.sendAll Store.sink ∅ callAndReference).2.resolve.2

theorem ingest_callAndReference : ingest {} false callAndReference ∅ = .ok ({
      replay := (Record.sendAll Store.sink ∅ callAndReference).1
      attached? := none
      resolution := (Record.sendAll Store.sink ∅ callAndReference).2.resolve.1 },
    callAndReferenceStore) := by
  have hvalid : callAndReference.forM Record.validate = .ok () := by rfl
  rw [ingest, Record.replay, hvalid]
  rfl

theorem size_callAndReference :
    (Snapshot.encode callAndReferenceStore).size ≤ Snapshot.sizeLimit := by
  decide +kernel

/-- The values of the call are those of the reference too, once the facts have been written and
read. -/
theorem readBack_ingest_callAndReference :
    Config.validate {} = .ok () ∧
      Snapshot.decode (Snapshot.encode callAndReferenceStore) = .ok callAndReferenceStore ∧
      ∃ s', ofText {} (callAndReferenceStore.render {} "then") = .ok s' ∧
        s'.nodes = callAndReferenceStore.nodes ∧
        s'.edges = callAndReferenceStore.edges.map (fun key e =>
          { e with attributes := callAndReferenceStore.pairAttributes key.source key.dest }) ∧
        (∀ e ∈ callAndReferenceStore.edgeList, (∀ kind, kind ≠ e.kind →
          callAndReferenceStore.edge? ⟨e.source, e.dest, kind⟩ = none) →
          s'.edge? e.toEdgeKey = some e) ∧
        (s' = callAndReferenceStore ↔ ∀ e ∈ callAndReferenceStore.edgeList,
          callAndReferenceStore.pairAttributes e.source e.dest = e.attributes) :=
  ⟨Config.validate_default, readBack_ingest ingest_callAndReference Config.validate_default
    (by decide) (by decide) (by decide) size_callAndReference⟩

/-- The formats need not agree: a reference comes back from text with the attributes of the call
between the same entities, and from the snapshot without attributes, as it was. -/
theorem readBack_differs :
    ∃ report s s', ingest {} false callAndReference ∅ = .ok (report, s) ∧
      Snapshot.decode (Snapshot.encode s) = .ok s ∧
      ofText {} (s.render {} "then") = .ok s' ∧
      (s.edge? ⟨"a", "b", .references⟩).map (·.attributes.values "line") = some [] ∧
      (s'.edge? ⟨"a", "b", .references⟩).map (·.attributes.values "line") = some ["3"] ∧
      s' ≠ s := by
  obtain ⟨hc, hw, hall⟩ := ingest_spec ingest_callAndReference
  obtain ⟨s', htext, -, -, hedges⟩ := ofText_render_of_resolved hc hw hall
    Config.validate_default (by decide) (by decide) (show '\n' ∉ "then".toList by decide)
  have hbefore : (callAndReferenceStore.edge? ⟨"a", "b", .references⟩).map
      (·.attributes.values "line") = some [] := by decide +kernel
  have hafter : (s'.edge? ⟨"a", "b", .references⟩).map (·.attributes.values "line") =
      some ["3"] := by
    have hpair : (callAndReferenceStore.edge? ⟨"a", "b", .references⟩).map
        (fun _ => (callAndReferenceStore.pairAttributes "a" "b").values "line") =
        some ["3"] := by decide +kernel
    rw [← hpair, edge?, hedges, Std.ExtTreeMap.getElem?_map, Option.map_map]
    rfl
  refine ⟨_, _, s', ingest_callAndReference, Snapshot.decode_encode (hw.canonical hc)
    size_callAndReference, htext, hbefore, hafter, ?_⟩
  rintro rfl
  rw [hafter] at hbefore
  cases hbefore

end

end ArchFacts.Command
