import ArchFacts.Proofs.Document.Parse
import ArchFacts.Proofs.Store.Grounded
import ArchFacts.Proofs.Store.Offer

/-!
# What a document leaves in a store

A document that was read is put into a store in passes: entities are added (`populate`), relations
are offered (`link`), blocks are applied and relations settled (`fill`). A text that is read leaves
the store that its document fills (`load_eq`). The entities and relations of that store are told
by those of the passes before (`getElem?_fill_nodes`, `getElem?_fill_edges`).
-/

namespace ArchFacts.Document

/-- Whether a document declares an entity with an id. -/
def declares (config : Config) (d : Document) (id : String) : Bool :=
  d.tuples.any fun t => t.1 = config.entityRelation && t.2.first = id

/-- Whether an id is that of an entity of a store, or a document declares one. -/
def provides (config : Config) (s : Store) (d : Document) (id : String) : Bool :=
  s.hasNode id || d.declares config id

/-- The entities that a document declares, under the names that it gives them. -/
abbrev declared (config : Config) (d : Document) : List Node :=
  (d.tuples.filterMap (nodeOf? config)).map d.withLabel

/-- The relations that a document states. -/
abbrev stated (config : Config) (d : Document) : List Edge := d.tuples.filterMap (edgeOf? config)

/-- A store with the entities that a document declares. -/
def populate (config : Config) (s : Store) (d : Document) : Store :=
  (s.addNodes (d.declared config)).2

/-- A store with the entities that a document declares and the relations that it states. -/
def link (config : Config) (s : Store) (d : Document) : Store :=
  (d.stated config).foldl Store.offer (d.populate config s)

/-- What putting a document into a store counts. -/
def report (config : Config) (s : Store) (d : Document) : LoadReport where
  nodesAdded := (s.addNodes (d.declared config)).1.added
  duplicateNodes := (s.addNodes (d.declared config)).1.refused
  edgesAdded := ((d.populate config s).addEdges (d.stated config)).1.added
  rejectedEdges := ((d.populate config s).addEdges (d.stated config)).1.refused
  missingTargets := ((d.link config s).applyBlocks d.blocks).1

/-- A store with all that a document says, its relations settled. -/
def fill (config : Config) (s : Store) (d : Document) : Store :=
  ((d.link config s).applyBlocks d.blocks).2.resolve.2

section
variable {config : Config} {d : Document} {s s' : Store} {t : String × Pair} {id : String}
variable {key : EdgeKey} {e : Edge}

/-! ## Entities and relations -/

/-- After the declarations an id is that of an entity if the store or the document provides it. -/
theorem hasNode_populate (hk : ∀ t ∈ d.tuples, config.Knows t) :
    (d.populate config s).hasNode id = d.provides config s id := by
  have hdeclares : d.declares config id = true ↔
      ∃ n ∈ d.declared config, n.id = id := by
    simp only [declares, List.any_eq_true, Bool.and_eq_true, decide_eq_true_eq, List.mem_map,
      List.mem_filterMap]
    constructor
    · rintro ⟨t, ht, hname, rfl⟩
      have hkind := hk t ht
      rw [Config.Knows, if_pos hname] at hkind
      obtain ⟨kind, hkind⟩ := Option.isSome_iff_exists.1 hkind
      exact ⟨_, ⟨_, ⟨t, ht, by rw [nodeOf?, if_pos hname, hkind]; rfl⟩, rfl⟩, rfl⟩
    · rintro ⟨_, ⟨n, ⟨t, ht, hn⟩, rfl⟩, rfl⟩
      unfold nodeOf? at hn
      split at hn
      · next hname =>
        obtain ⟨kind, _, rfl⟩ := Option.map_eq_some_iff.1 hn
        exact ⟨t, ht, hname, rfl⟩
      · cases hn
  rw [Bool.eq_iff_iff, populate, Store.hasNode_addNodes, ← hdeclares, provides, Bool.or_eq_true]

/-- After the declarations a relation has the ends that the store and the document provide. -/
theorem hasEnds_populate (hk : ∀ t ∈ d.tuples, config.Knows t) {key : EdgeKey} :
    (d.populate config s).hasEnds key =
      (d.provides config s key.source && d.provides config s key.dest) := by
  rw [Store.hasEnds, hasNode_populate hk, hasNode_populate hk]

/-- The relation that a tuple states is open and has no attributes. -/
theorem edgeOf?_eq_some {e : Edge} : edgeOf? config t = some e ↔
    t.1 ≠ config.entityRelation ∧ t = (e.kind.tag, ⟨e.source, e.dest⟩) ∧ e.bare = e := by
  unfold edgeOf?
  constructor
  · intro h
    split at h
    · cases h
    · next hname =>
      obtain ⟨kind, hkind, rfl⟩ := Option.map_eq_some_iff.1 h
      exact ⟨hname, Prod.ext (EdgeKind.eq_tag_of_ofTag? hkind) rfl, rfl⟩
  · rintro ⟨hname, rfl, he⟩
    rw [if_neg hname, EdgeKind.ofTag?_tag, ← he]
    rfl

/-- The relations that a document states are open and have no attributes. -/
theorem bare_of_mem (he : e ∈ d.stated config) : e.bare = e := by
  obtain ⟨t, _, ht⟩ := List.mem_filterMap.1 he
  exact (edgeOf?_eq_some.1 ht).2.2

/-- A document states no relation resolved. -/
theorem resolved_of_mem (he : e ∈ d.stated config) : e.resolved = false := by
  rw [← bare_of_mem he]
  rfl

/-- Declaring entities changes no relation. -/
theorem edges_populate (config : Config) (s : Store) (d : Document) :
    (d.populate config s).edges = s.edges := Store.addNodes_edges s _

theorem coherent_populate (hc : s.Coherent) : (d.populate config s).Coherent := hc.addNodes _

theorem coherent_link (hc : s.Coherent) : (d.link config s).Coherent :=
  (coherent_populate hc).foldl_offer _

/-- Relations bring no ends. -/
theorem hasEnds_link {key : EdgeKey} :
    (d.link config s).hasEnds key = (d.populate config s).hasEnds key :=
  Store.hasEnds_congr (Store.foldl_offer_nodes _ _)

/-- A document adds no resolved relation. -/
theorem grounded_link (hc : s.Coherent) (hg : s.Grounded) : (d.link config s).Grounded := by
  have hpopulate : s.Extends (d.populate config s) := .addNodes s _
  have hlink : (d.populate config s).Extends (d.link config s) := by
    rw [link, ← Store.addEdges_snd]
    refine .addEdges (coherent_populate hc) fun e he hr => ?_
    rw [resolved_of_mem he] at hr
    cases hr
  intro key e h hr
  exact hg.of_extends (hpopulate.trans hlink) h hr

/-- A relation in a store with those of a document was there before, or is open and has no
attributes. -/
theorem getElem?_link_cases (hc : s.Coherent) (h : (d.link config s).edges[key]? = some e) :
    s.edges[key]? = some e ∨ e.resolved = false ∧ e.attributes = ∅ := by
  rcases Store.getElem?_foldl_offer_cases (coherent_populate hc) h with he | ⟨he, -⟩
  · exact .inl (edges_populate config s d ▸ he)
  · rw [← bare_of_mem he]
    exact .inr ⟨rfl, rfl⟩

/-! ## All passes -/

/-- Applying a document whose tuples are known never fails. -/
theorem apply_eq_ok (hne : ∀ r ∈ d.relations, r.pairs ≠ ∅) (hk : ∀ t ∈ d.tuples, config.Knows t) :
    d.apply config s =
      .ok (d.report config s, ((d.link config s).applyBlocks d.blocks).2) := by
  have happly := apply_eq (d := d) (s := s) (factsOf_of_knows hne hk)
  dsimp only at happly
  rw [happly, report, link, ← Store.addEdges_snd, populate]
  rfl

/-- A text that is read leaves the store that its document fills, and the report counts what putting
the document in does and what the resolution after that does. -/
theorem load_eq {text : String} (h : parse config text = .ok d) (s : Store) :
    s.load config text = .ok ({ d.report config s with
      resolution := ((d.link config s).applyBlocks d.blocks).2.resolve.1 }, d.fill config s) := by
  rw [Store.load, h, ok_bind, apply_eq_ok (parse_tidy h).nonempty (parse_knows h), ok_bind]
  rfl

/-- A text that is read leaves the store that its document fills. -/
theorem load_eq_ok {text : String} (h : parse config text = .ok d) (s : Store) :
    ∃ report, s.load config text = .ok (report, d.fill config s) ∧
      report.nodesAdded = (s.addNodes (d.declared config)).1.added := ⟨_, load_eq h s, rfl⟩

/-- Whatever is loaded is what a document that was read fills a store with. -/
theorem exists_parse_of_load {text : String} {report : LoadReport}
    (h : s.load config text = .ok (report, s')) :
    ∃ d, parse config text = .ok d ∧ s' = d.fill config s := by
  obtain ⟨d, hparse, -⟩ := bind_eq_ok_iff.1 h
  obtain ⟨report', hload, -⟩ := load_eq_ok hparse s
  exact ⟨d, hparse, congrArg Prod.snd (Except.ok.inj (h.symm.trans hload))⟩

theorem coherent_fill (hc : s.Coherent) : (d.fill config s).Coherent :=
  ((coherent_link hc).applyBlocks d.blocks).resolve

/-- The blocks of a document change the attributes of entities, and neither names nor kinds. -/
theorem getElem?_fill_nodes : (d.fill config s).nodes[id]? =
    (d.populate config s).nodes[id]?.map fun n => { n with
      attributes := d.blocks.foldl (fun a b => b.onNode id a) n.attributes } := by
  rw [fill, Store.resolve_nodes, Store.getElem?_applyBlocks_nodes, link, Store.foldl_offer_nodes]

theorem hasNode_fill : (d.fill config s).hasNode id = (d.populate config s).hasNode id := by
  rw [Bool.eq_iff_iff, Store.hasNode_iff, Store.hasNode_iff, getElem?_fill_nodes]
  cases (d.populate config s).nodes[id]? <;> simp

theorem hasEnds_fill : (d.fill config s).hasEnds key = (d.populate config s).hasEnds key := by
  rw [Store.hasEnds, Store.hasEnds, hasNode_fill, hasNode_fill]

/-- Of the relations that are there or stated, those stay that are resolved or have both ends. They
are resolved, and have the attributes that the document adds. -/
theorem getElem?_fill_edges (hc : s.Coherent) : (d.fill config s).edges[key]? =
    ((d.link config s).edges[key]?.bind fun e =>
      if e.resolved = true ∨ (d.populate config s).hasEnds key = true then
        some { e with
          resolved := true
          attributes := d.blocks.foldl (fun a b => b.onEdge key a) e.attributes }
      else none) := by
  rw [fill, ((coherent_link hc).applyBlocks d.blocks).getElem?_resolve,
    Store.getElem?_applyBlocks_edges (coherent_link hc), Store.hasEnds_applyBlocks, hasEnds_link]
  cases (d.link config s).edges[key]? <;> rfl

/-- What a document whose tuples are known and a resolution leave in a grounded store: the entities
of both, and the relations of both that have their ends among these, each with the attributes that
the document adds. -/
theorem exists_apply (hne : ∀ r ∈ d.relations, r.pairs ≠ ∅)
    (hk : ∀ t ∈ d.tuples, config.Knows t) (hc : s.Coherent) (hg : s.Grounded) :
    ∃ report s', d.apply config s = .ok (report, s') ∧
      (∀ {id : String}, s'.resolve.2.nodes[id]? =
        (d.populate config s).nodes[id]?.map fun n => { n with
          attributes := d.blocks.foldl (fun a b => b.onNode id a) n.attributes }) ∧
      ∀ {key : EdgeKey}, s'.resolve.2.edges[key]? =
        if (d.populate config s).hasEnds key = true then
          (d.link config s).edges[key]?.map fun e => { e with
            resolved := true
            attributes := d.blocks.foldl (fun a b => b.onEdge key a) e.attributes }
        else none := by
  have hg' : (d.link config s).Grounded := grounded_link hc hg
  refine ⟨_, _, apply_eq_ok hne hk, getElem?_fill_nodes, ?_⟩
  intro key
  rw [hg'.getElem?_resolve_applyBlocks (coherent_link hc), hasEnds_link]

end

end ArchFacts.Document
