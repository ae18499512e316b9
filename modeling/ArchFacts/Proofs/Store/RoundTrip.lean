import ArchFacts.Proofs.Document.OfStore
import ArchFacts.Proofs.Document.RoundTrip
import ArchFacts.Proofs.History

/-!
# Written stores read back

What is written of a store fills the empty store with the same entities and relations. No entity is
refused, since ids are distinct; no relation puts another out, since a store has one parent at most
for each entity; no block is in vain (`apply_ofStore`). If every relation has both ends, all are
resolved and none is dropped, so the text of a store whose attributes were built by operations reads
back as the store (`load_render`). The attributes of a relation are those of all relations between
its ends, and so its own if there is no other (`pairAttributes_of_alone`).
-/

namespace ArchFacts.Store

section
variable {s : Store} {config : Config}

theorem takeLabel_bare (n : Node) : n.bare.takeLabel = n.bare := by
  rw [Node.takeLabel, Attributes.take, Node.bare, Attributes.values_empty, Attributes.erase_empty]
  rfl

/-! ## Filling a store anew -/

/-- Entities that are those of a store without their attributes, in any order, are all added to the
empty store. -/
theorem addNodes_bare (hc : s.Coherent) {ns : List Node}
    (h : ns.Perm (s.nodeList.map Node.bare)) :
    ((∅ : Store).addNodes ns).1 = { added := s.nodeCount } ∧ ((∅ : Store).addNodes ns).2.edges = ∅ ∧
      ∀ id : String, ((∅ : Store).addNodes ns).2.nodes[id]? = s.nodes[id]?.map Node.bare := by
  have hfree : ∀ id : String, (∅ : Store).nodes[id]? = none :=
    fun _ => Std.ExtTreeMap.getElem?_empty
  have hdistinct : ns.Pairwise (·.id ≠ ·.id) := by
    refine (h.pairwise_iff fun {_ _} hne => hne.symm).2 (List.pairwise_map.2 ?_)
    exact hc.pairwise_id_ne
  obtain ⟨hcount, hedges, hnodes⟩ := addNodes_spec (fun n _ => hfree n.id) hdistinct {}
  refine ⟨?_, hedges, ?_⟩
  · rw [addNodes, hcount, h.length_eq, List.length_map, length_nodeList, Nat.zero_add]
  · intro id
    refine Option.ext ?_
    intro n
    rw [addNodes, hnodes, hfree, Option.map_eq_some_iff]
    simp only [h.mem_iff, List.mem_map, mem_nodeList hc]
    constructor
    · rintro (hn | ⟨_, ⟨m, hm, rfl⟩, rfl, rfl⟩)
      · cases hn
      · exact ⟨m, hm, (takeLabel_bare m).symm⟩
    · rintro ⟨m, hm, rfl⟩
      obtain rfl := hc.node_id hm
      exact .inr ⟨m.bare, ⟨m, hm, rfl⟩, rfl, takeLabel_bare m⟩

/-- Relations that are those of a well-formed store without their attributes, in any order, are all
added to a store without relations. -/
theorem addEdges_bare (hc : s.Coherent) (hw : s.WellFormed) {s₀ : Store} (hc₀ : s₀.Coherent)
    (hnone : s₀.edges = ∅) {es : List Edge} (h : es.Perm (s.edgeList.map Edge.bare)) :
    (s₀.addEdges es).1 = { added := s.edgeCount } ∧ (s₀.addEdges es).2.nodes = s₀.nodes ∧
      ∀ key : EdgeKey, (s₀.addEdges es).2.edges[key]? = s.edges[key]?.map Edge.bare := by
  have hfree : ∀ key : EdgeKey, s₀.edges[key]? = none := by
    intro key
    rw [hnone]
    exact Std.ExtTreeMap.getElem?_empty
  have hmem : ∀ {e}, e ∈ es ↔ ∃ e' : Edge, s.edges[e'.toEdgeKey]? = some e' ∧ e'.bare = e := by
    intro e
    simp only [h.mem_iff, List.mem_map, mem_edgeList hc]
  have hkey : ∀ e ∈ es, e.toEdgeKey ∈ s.edges := by
    intro e he
    obtain ⟨e', he', rfl⟩ := hmem.1 he
    exact mem_edges_iff.2 ⟨e', he'⟩
  have hself : ∀ e ∈ es, e.isSelfContainment = false :=
    fun e he => hw.not_selfContainment (hkey e he)
  have hrival : ∀ e ∈ es, ∀ k ∈ s₀.edges, ¬ e.Rivals k := by
    intro e _ k hk
    rw [hnone] at hk
    exact absurd hk Std.ExtTreeMap.not_mem_empty
  have hdistinct : es.Pairwise fun e e' => e.toEdgeKey ≠ e'.toEdgeKey := by
    refine (h.pairwise_iff fun {_ _} hne => hne.symm).2 (List.pairwise_map.2 ?_)
    exact hc.pairwise_key_ne
  -- An entity has one parent at most, so rivals would have one key.
  have hpairs : es.Pairwise fun e e' => e.toEdgeKey ≠ e'.toEdgeKey ∧ ¬ e'.Rivals e.toEdgeKey := by
    refine hdistinct.imp_of_mem ?_
    intro e e' he he' hne
    refine ⟨hne, fun hr => ?_⟩
    exact hne (hw.parent_unique (hkey e he) (hkey e' he') hr.2.1 hr.1 hr.2.2.symm)
  obtain ⟨hcount, hnodes, hedges⟩ :=
    addEdges_spec hc₀ (fun e _ => hfree e.toEdgeKey) hself hrival hpairs {}
  refine ⟨?_, hnodes, ?_⟩
  · rw [addEdges, hcount, h.length_eq, List.length_map, length_edgeList, Nat.zero_add]
  · intro key
    refine Option.ext ?_
    intro e
    rw [addEdges, hedges, hfree, Option.map_eq_some_iff, hmem]
    constructor
    · rintro (he | ⟨⟨e', he', rfl⟩, rfl⟩)
      · cases he
      · exact ⟨e', he', rfl⟩
    · rintro ⟨e', he', rfl⟩
      obtain rfl := hc.edge_key he'
      exact .inr ⟨⟨e', he', rfl⟩, rfl⟩

/-- The blocks of the document of a store give a store of the same entities and relations, which
have no attributes yet, the attributes of the store. -/
theorem applyBlocks_bare (config : Config) (hc : s.Coherent) (hw : s.WellFormed) {s₀ : Store}
    (hc₀ : s₀.Coherent) (hnodes : ∀ id : String, s₀.nodes[id]? = s.nodes[id]?.map Node.bare)
    (hedges : ∀ key : EdgeKey, s₀.edges[key]? = s.edges[key]?.map Edge.bare) :
    let filled := s₀.applyBlocks (Document.ofStore config s).blocks
    filled.1 = 0 ∧ filled.2.nodes = s.nodes ∧
      ∀ key : EdgeKey, filled.2.edges[key]? = s.edges[key]?.map fun e =>
        { e with resolved := false, attributes := s.pairAttributes key.source key.dest } := by
  have hmeets : ∀ b ∈ (Document.ofStore config s).blocks, s₀.Meets b := by
    intro b hb
    rcases ((Document.mem_blocks_ofStore hc).1 hb).2 with ⟨n, hn, rfl⟩ | ⟨e, he, rfl⟩
    · exact ⟨n.bare, by rw [hnodes, hn]; rfl⟩
    · exact ⟨e.toEdgeKey, mem_edges_iff.2 ⟨e.bare, by rw [hedges, he]; rfl⟩, rfl, rfl⟩
  have hnone : (Document.ofStore config s).blocks.countP (fun b => ¬ s₀.Meets b) = 0 :=
    List.countP_eq_zero.2 fun b hb => by simpa using hmeets b hb
  refine ⟨(applyBlocks_fst hc₀ _).trans hnone, Std.ExtTreeMap.ext_getElem? ?_, ?_⟩
  · intro id
    rw [getElem?_applyBlocks_nodes, hnodes]
    cases hn : s.nodes[id]? with
    | none => rfl
    | some n =>
      have hattributes : (Document.ofStore config s).blocks.foldl (fun a b => b.onNode id a) ∅ =
          n.attributes := Document.foldl_onNode_ofStore hc hw hn
      exact congrArg (fun a => some { n with attributes := a }) hattributes
  · intro key
    rw [getElem?_applyBlocks_edges hc₀, hedges, ← Document.foldl_onEdge_ofStore hc key,
      Option.map_map]
    rfl

/-- The document of a well-formed store fills the empty store with what the store holds, its
relations unresolved. -/
theorem apply_ofStore (hr : EdgeKind.ofTag? config.entityRelation = none) (hc : s.Coherent)
    (hw : s.WellFormed) :
    ∃ s', (Document.ofStore config s).apply config ∅ =
        .ok ({ nodesAdded := s.nodeCount, edgesAdded := s.edgeCount }, s') ∧
      s'.Coherent ∧ s'.nodes = s.nodes ∧
      ∀ key : EdgeKey, s'.edges[key]? = s.edges[key]?.map fun e =>
        { e with resolved := false, attributes := s.pairAttributes key.source key.dest } := by
  obtain ⟨nodes, edges, hfacts, hnodes, hedges⟩ := Document.factsOf_ofStore hr hc
  have happly := Document.apply_eq (s := ∅) hfacts
  have hnamed : (nodes.map (Document.ofStore config s).withLabel).Perm
      (s.nodeList.map Node.bare) := by
    refine (hnodes.map _).trans (.of_eq ?_)
    rw [List.map_map]
    exact List.map_congr_left fun n hn =>
      Document.withLabel_ofStore hc hw ((mem_nodeList hc).1 hn)
  have hc₁ := coherent_empty.addNodes (nodes.map (Document.ofStore config s).withLabel)
  obtain ⟨hadded, hnone, hnodes₁⟩ := addNodes_bare hc hnamed
  have hc₂ := hc₁.addEdges edges
  obtain ⟨hlinked, hkept, hedges₂⟩ := addEdges_bare hc hw hc₁ hnone hedges
  have hnodes₂ := fun id : String => (congrArg (·[id]?) hkept).trans (hnodes₁ id)
  obtain ⟨hmissing, hnodes₃, hedges₃⟩ :=
    applyBlocks_bare config hc hw hc₂ hnodes₂ hedges₂
  dsimp only at happly
  rw [hadded, hlinked, hmissing] at happly
  exact ⟨_, happly, hc₂.applyBlocks _, hnodes₃, hedges₃⟩

/-! ## Reading what was written -/

/-- If all relations between two entities have the same attributes, merging them gives these. -/
theorem pairAttributes_of_forall_eq (hc : s.Coherent) (hw : s.WellFormed) {e : Edge}
    (he : e ∈ s.edgeList) (hsame : ∀ kind e', s.edge? ⟨e.source, e.dest, kind⟩ = some e' →
      e'.attributes = e.attributes) : s.pairAttributes e.source e.dest = e.attributes := by
  have hget : s.edges[e.toEdgeKey]? = some e := (mem_edgeList hc).1 he
  rw [pairAttributes, ← List.foldl_map (g := Attributes.merge)]
  refine Attributes.foldl_merge_of_forall_eq (hw.edge_proper hget) ?_ ?_
  · refine List.ne_nil_of_mem (List.mem_map_of_mem (List.mem_filterMap.2 ⟨e.kind, ?_, hget⟩))
    cases e.kind <;> decide
  · intro a ha
    obtain ⟨e', he', rfl⟩ := List.mem_map.1 ha
    obtain ⟨kind, -, hkind⟩ := List.mem_filterMap.1 he'
    exact hsame kind e' hkind

/-- A relation that is the only one between its ends has its own attributes. -/
theorem pairAttributes_of_alone (hc : s.Coherent) (hw : s.WellFormed) {e : Edge}
    (he : e ∈ s.edgeList)
    (halone : ∀ kind, kind ≠ e.kind → s.edge? ⟨e.source, e.dest, kind⟩ = none) :
    s.pairAttributes e.source e.dest = e.attributes := by
  refine pairAttributes_of_forall_eq hc hw he fun kind e' he' => ?_
  by_cases hkind : kind = e.kind
  · subst hkind
    have hget : s.edges[e.toEdgeKey]? = some e := (mem_edgeList hc).1 he
    rw [Option.some.inj (he'.symm.trans hget)]
  · rw [halone kind hkind] at he'
    cases he'

/-- What is written of a well-formed store of which every relation has both ends reads back as the
store, its relations resolved. -/
theorem load_render_of_wellFormed {generated : String} (hc : s.Coherent) (hw : s.WellFormed)
    (hends : ∀ e ∈ s.edgeList, s.hasEnds e.toEdgeKey = true) (hv : config.validate = .ok ())
    (hf : config.entityRelation ≠ "FACT") (hs : config.entityRelation ≠ "SCHEME")
    (hg : '\n' ∉ generated.toList) :
    ∃ s', (∅ : Store).load config (s.render config generated) =
        .ok ({
          nodesAdded := s.nodeCount
          edgesAdded := s.edgeCount
          resolution := { resolved := s.edgeCount } }, s') ∧
      s'.nodes = s.nodes ∧
      s'.edges = s.edges.map fun key e =>
        { e with resolved := true, attributes := s.pairAttributes key.source key.dest } := by
  have hr : EdgeKind.ofTag? config.entityRelation = none := (Config.of_validate hv).2
  have hk : Document.Known config (Document.ofStore config s).relations := Document.known_ofStore
  obtain ⟨d, hparse, hd⟩ :=
    Document.parse_render hv hf hs hg (Document.relations_ofStore ▸ Document.tidy_relationsOf) hk
  rw [Document.rebuilt_eq fun b hb => Document.proper_of_mem_blocks_ofStore hc hw hb] at hd
  obtain ⟨s', happly, hc', hnodes, hedges⟩ := apply_ofStore hr hc hw
  have hk' : Document.Known config d.unlined.relations := hd ▸ Document.known_unlined.2 hk
  rw [← Document.apply_unlined hr hk, ← hd,
    Document.apply_unlined hr (Document.known_unlined.1 hk')] at happly
  have hends' : ∀ key ∈ s'.edges, s'.hasEnds key = true := by
    intro key hkey
    obtain ⟨e', he'⟩ := mem_edges_iff.1 hkey
    rw [hedges] at he'
    obtain ⟨e, he, -⟩ := Option.map_eq_some_iff.1 he'
    obtain rfl := hc.edge_key he
    have := hends e ((mem_edgeList hc).2 he)
    rwa [hasEnds, hasNode, hasNode, ← hnodes] at this
  obtain ⟨hreport, hresolved⟩ := resolve_spec hc' hends'
  have hedges' : s'.resolve.2.edges = s.edges.map fun key e =>
      { e with resolved := true, attributes := s.pairAttributes key.source key.dest } := by
    refine Std.ExtTreeMap.ext_getElem? ?_
    intro key
    rw [hresolved, hedges, Std.ExtTreeMap.getElem?_map, Option.map_map]
    rfl
  refine ⟨s'.resolve.2, ?_, resolve_nodes.trans hnodes, hedges'⟩
  rw [load, render, hparse, ok_bind, happly, ok_bind]
  dsimp only
  rw [hreport, hedges', Std.ExtTreeMap.size_map]
  rfl

/-- The text of a well-formed store in which every relation is resolved and has both ends reads back
with the same entities and with relations under the same keys, each with the attributes of all
relations between its ends. -/
theorem ofText_render_of_resolved (hc : s.Coherent) (hw : s.WellFormed)
    (hall : ∀ {key : EdgeKey} {e}, s.edges[key]? = some e →
      e.resolved = true ∧ s.hasEnds key = true)
    (hv : config.validate = .ok ()) (hf : config.entityRelation ≠ "FACT")
    (hs : config.entityRelation ≠ "SCHEME") {generated : String} (hg : '\n' ∉ generated.toList) :
    ∃ s', ofText config (s.render config generated) = .ok s' ∧ s'.Coherent ∧
      s'.nodes = s.nodes ∧ s'.edges = s.edges.map (fun key e =>
        { e with attributes := s.pairAttributes key.source key.dest }) := by
  have hends : ∀ e ∈ s.edgeList, s.hasEnds e.toEdgeKey = true :=
    fun e he => (hall ((mem_edgeList hc).1 he)).2
  obtain ⟨s', hload, hnodes, hedges⟩ := load_render_of_wellFormed hc hw hends hv hf hs hg
  have hsteps : Steps (fun _ => True) ∅ s' := .load Attributes.rule_true coherent_empty hload
  refine ⟨s', ?_, Steps.coherent hsteps coherent_empty, hnodes, ?_⟩
  · rw [ofText, hload]
    rfl
  · rw [hedges]
    refine Std.ExtTreeMap.ext_getElem? fun key => ?_
    rw [Std.ExtTreeMap.getElem?_map, Std.ExtTreeMap.getElem?_map]
    cases he : s.edges[key]? with
    | none => rfl
    | some e => rw [Option.map_some, Option.map_some, (hall he).1]

/-- If moreover each relation has the attributes of all relations between its ends, the text reads
back as the store. -/
theorem ofText_render_of_pairAttributes (hc : s.Coherent) (hw : s.WellFormed)
    (hall : ∀ {key : EdgeKey} {e}, s.edges[key]? = some e →
      e.resolved = true ∧ s.hasEnds key = true)
    (hsame : ∀ e ∈ s.edgeList, s.pairAttributes e.source e.dest = e.attributes)
    (hv : config.validate = .ok ()) (hf : config.entityRelation ≠ "FACT")
    (hs : config.entityRelation ≠ "SCHEME") {generated : String} (hg : '\n' ∉ generated.toList) :
    ofText config (s.render config generated) = .ok s := by
  obtain ⟨s', htext, hc', hnodes, hedges⟩ := ofText_render_of_resolved hc hw hall hv hf hs hg
  obtain rfl : s' = s := by
    refine hc'.ext hc hnodes (Std.ExtTreeMap.ext_getElem? fun key => ?_)
    rw [hedges, Std.ExtTreeMap.getElem?_map]
    cases he : s.edges[key]? with
    | none => rfl
    | some e =>
      obtain rfl := hc.edge_key he
      rw [Option.map_some, hsame e ((mem_edgeList hc).2 he)]
  exact htext

/-- **A written store reads back.** Take the store after a history of plain changes, every relation
of which has both ends. What is written of it fills the empty store with the same entities, names
and attributes included, and with relations under the same keys, all resolved. Nothing is refused
or dropped. A relation has the attributes of all relations between its ends, merged by kind, and so
its own if it is the only one. -/
theorem load_render {history : List Change} {generated : String} (h : ∀ c ∈ history, c.Plain)
    (hends : ∀ e ∈ (after history).edgeList, (after history).hasEnds e.toEdgeKey = true)
    (hv : config.validate = .ok ()) (hf : config.entityRelation ≠ "FACT")
    (hs : config.entityRelation ≠ "SCHEME") (hg : '\n' ∉ generated.toList) :
    let s := after history
    (∃ s', (∅ : Store).load config (s.render config generated) =
        .ok ({
          nodesAdded := s.nodeCount
          edgesAdded := s.edgeCount
          resolution := { resolved := s.edgeCount } }, s') ∧
      s'.nodes = s.nodes ∧
      s'.edges = s.edges.map fun key e =>
        { e with resolved := true, attributes := s.pairAttributes key.source key.dest }) ∧
    ∀ e ∈ s.edgeList, (∀ kind, kind ≠ e.kind → s.edge? ⟨e.source, e.dest, kind⟩ = none) →
      s.pairAttributes e.source e.dest = e.attributes := by
  intro s
  have hc : s.Coherent := coherent_after history
  have hw : s.WellFormed := wellFormed_of_plain h
  exact ⟨load_render_of_wellFormed hc hw hends hv hf hs hg, fun _ => pairAttributes_of_alone hc hw⟩

/-- A function, named unlike its id, that calls an object and refers to it. Both relations have a
value under one key. -/
def crossed : List Change :=
  [.createNode "f" "the \"f\"" .function, .createNode "// x\n" "// x\n" .object,
    .createEdge ⟨"f", "// x\n", .calls⟩,
    .addEdge
      { source := "f"
        dest := "// x\n"
        kind := .references
        attributes := (∅ : Attributes).insert "line" "7" },
    .addEdgeAttribute ⟨"f", "// x\n", .calls⟩ "line" "3", .addNodeAttribute "f" "filename" ""]

theorem load_render_crossed :
    (∀ c ∈ crossed, c.Plain) ∧
      (∀ e ∈ (after crossed).edgeList, (after crossed).hasEnds e.toEdgeKey = true) ∧
      Config.validate {} = .ok () ∧
      ∃ s', (∅ : Store).load {} ((after crossed).render {} "now") =
          .ok ({
            nodesAdded := (after crossed).nodeCount
            edgesAdded := (after crossed).edgeCount
            resolution := { resolved := (after crossed).edgeCount } }, s') ∧
        s'.nodes = (after crossed).nodes ∧
        s'.edges = (after crossed).edges.map fun key e =>
          { e with
            resolved := true
            attributes := (after crossed).pairAttributes key.source key.dest } :=
  have h : ∀ c ∈ crossed, c.Plain := by
    simp only [crossed, List.forall_mem_cons, Change.Plain, Change.Follows]
    exact ⟨trivial, trivial, trivial, .insert _ _ .empty, trivial, trivial, by simp⟩
  have hends : ∀ e ∈ (after crossed).edgeList, (after crossed).hasEnds e.toEdgeKey = true := by
    decide +kernel
  have hv : Config.validate {} = .ok () := Config.validate_default
  ⟨h, hends, hv, (load_render h hends hv (by decide) (by decide) (by decide)).1⟩

end

end ArchFacts.Store
