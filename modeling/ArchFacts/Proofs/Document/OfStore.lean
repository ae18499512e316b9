import ArchFacts.Document.Render
import ArchFacts.Proofs.Document.Facts
import ArchFacts.Proofs.Store.Fill
import ArchFacts.Proofs.Store.WellFormed

/-!
# The document of a store

The document of a store declares the entities and relations of the store, though in the order of
their relations (`factsOf_ofStore`), and names the entities by their labels (`withLabel_ofStore`).
Its blocks, taken in order, give every entity its own attributes back (`foldl_onNode_ofStore`). A
block is meant for all relations between two entities, so each of these gets the attributes of them
all, merged by kind (`foldl_onEdge_ofStore`).
-/

namespace ArchFacts

/-- Keys with the same ends are in the order of their kinds. -/
theorem EdgeKey.compare_kinds (source dest : String) (kind kind' : EdgeKind) :
    compare (⟨source, dest, kind⟩ : EdgeKey) ⟨source, dest, kind'⟩ = compare kind kind' := by
  have hends : ∀ text : String, compare text text = .eq := fun _ => Std.ReflCmp.compare_self
  change (compare source source).then ((compare dest dest).then (compare kind kind')) = _
  rw [hends, hends]
  rfl

/-- The attributes of all relations from one entity to another, merged in the order of kinds. -/
def Store.pairAttributes (s : Store) (source dest : String) : Attributes :=
  (EdgeKind.all.filterMap fun kind => s.edge? ⟨source, dest, kind⟩).foldl
    (fun a e => a.merge e.attributes) ∅

namespace Document

/-- The pairs that declare what a store holds. -/
def pairsOf (config : Config) (s : Store) : List (String × Pair) :=
  s.nodeList.map (fun n => (config.entityRelation, ⟨n.id, n.kind.tag⟩)) ++
    s.edgeList.map (fun e => (e.kind.tag, ⟨e.source, e.dest⟩))

/-- The block of an entity. -/
def nodeBlock (n : Node) : Block := { target := .entity n.id, attributes := shownAttributes n }

/-- The block of a relation. -/
def edgeBlock (e : Edge) : Block :=
  { target := .pair e.source e.dest, attributes := e.attributes }

section
variable {config : Config} {s : Store} {n : Node} {e : Edge} {b : Block}

theorem relations_ofStore : (ofStore config s).relations = relationsOf (pairsOf config s) := by
  rw [relationsOf, pairsOf, List.foldl_append, List.foldl_map, List.foldl_map]
  rfl

theorem blocks_ofStore : (ofStore config s).blocks =
    (s.nodeList.map nodeBlock ++ s.edgeList.map edgeBlock).filter (!·.attributes.isEmpty) := rfl

/-! ## Declarations -/

/-- Every pair of the document of a store is one that the settings know. -/
theorem known_ofStore : Known config (ofStore config s).relations := by
  rw [relations_ofStore]
  refine known_relationsOf ?_
  intro t ht
  rcases List.mem_append.1 ht with ht | ht
  · obtain ⟨n, -, rfl⟩ := List.mem_map.1 ht
    exact .inl ⟨rfl, by simp⟩
  · obtain ⟨e, -, rfl⟩ := List.mem_map.1 ht
    exact .inr (by simp)

/-- A store declares nothing twice. -/
theorem nodup_pairsOf (hr : EdgeKind.ofTag? config.entityRelation = none) (hc : s.Coherent) :
    (pairsOf config s).Nodup := by
  refine List.nodup_append.2 ⟨?_, ?_, ?_⟩
  · exact List.pairwise_map.2 (hc.pairwise_id_ne.imp fun hne heq => hne (congrArg (·.2.first) heq))
  · refine List.pairwise_map.2 (hc.pairwise_key_ne.imp fun {e e'} hne heq => hne ?_)
    have hkind : EdgeKind.ofTag? e.kind.tag = EdgeKind.ofTag? e'.kind.tag :=
      congrArg (fun t : String × Pair => EdgeKind.ofTag? t.1) heq
    rw [EdgeKind.ofTag?_tag, EdgeKind.ofTag?_tag, Option.some.injEq] at hkind
    have hsource : e.source = e'.source := congrArg (·.2.first) heq
    have hdest : e.dest = e'.dest := congrArg (·.2.second) heq
    calc e.toEdgeKey = ⟨e.source, e.dest, e.kind⟩ := rfl
      _ = e'.toEdgeKey := by rw [hsource, hdest, hkind]
  · -- The entity relation is no relation between entities.
    intro t ht t' ht' heq
    obtain ⟨n, -, rfl⟩ := List.mem_map.1 ht
    obtain ⟨e, -, rfl⟩ := List.mem_map.1 ht'
    have hname : config.entityRelation = e.kind.tag := congrArg Prod.fst heq
    rw [hname, EdgeKind.ofTag?_tag] at hr
    cases hr

/-- The document of a store declares the entities and relations of the store. -/
theorem factsOf_ofStore (hr : EdgeKind.ofTag? config.entityRelation = none) (hc : s.Coherent) :
    ∃ nodes edges, factsOf config (ofStore config s).relations = .ok (nodes, edges) ∧
      nodes.Perm (s.nodeList.map fun n => { id := n.id, kind := n.kind }) ∧
      edges.Perm (s.edgeList.map Edge.bare) := by
  have hperm : (ofStore config s).tuples.Perm (pairsOf config s) := by
    rw [tuples, relations_ofStore]
    exact tuples_relationsOf_perm (nodup_pairsOf hr hc)
  have hentity : ∀ n : Node, nodeOf? config (config.entityRelation, ⟨n.id, n.kind.tag⟩) =
      some { id := n.id, kind := n.kind } := fun n => by simp [nodeOf?]
  have hnotEntity : ∀ n : Node, edgeOf? config (config.entityRelation, ⟨n.id, n.kind.tag⟩) =
      none := fun n => by simp [edgeOf?]
  have htag : ∀ e : Edge, e.kind.tag ≠ config.entityRelation := by
    intro e heq
    rw [← heq, EdgeKind.ofTag?_tag] at hr
    cases hr
  have hnotRelation : ∀ e : Edge, nodeOf? config (e.kind.tag, ⟨e.source, e.dest⟩) = none :=
    fun e => by simp [nodeOf?, htag e]
  have hrelation : ∀ e : Edge, edgeOf? config (e.kind.tag, ⟨e.source, e.dest⟩) =
      some e.bare := fun e => by simp [edgeOf?, htag e, Edge.bare]
  refine ⟨_, _, factsOf_eq hr known_ofStore, (hperm.filterMap _).trans (.of_eq ?_),
    (hperm.filterMap _).trans (.of_eq ?_)⟩
  · simp [pairsOf, List.filterMap_append, List.filterMap_map, hentity,
      hnotRelation, List.filterMap_eq_map']
  · simp [pairsOf, List.filterMap_append, List.filterMap_map, hnotEntity, hrelation,
      List.filterMap_eq_map']

/-! ## Labels -/

theorem proper_shownAttributes (h : n.attributes.Proper) : (shownAttributes n).Proper := by
  unfold shownAttributes
  split
  · exact h
  · exact Attributes.rule_proper.insert h

/-- An entity without a label shows its name as the only label, unless it is the id. -/
theorem values_label_shownAttributes (h : n.attributes.values labelKey = []) :
    (shownAttributes n).values labelKey = if n.name = n.id then [] else [n.name] := by
  unfold shownAttributes
  split
  · exact h
  · rw [Attributes.values_insert, h, if_pos ⟨rfl, List.not_mem_nil⟩, List.nil_append]

/-- Without its label, what an entity shows is what it has. -/
theorem erase_label_shownAttributes (hp : n.attributes.Proper)
    (h : n.attributes.values labelKey = []) :
    (shownAttributes n).erase labelKey = n.attributes := by
  refine (Attributes.rule_proper.erase (proper_shownAttributes hp)).ext hp ?_
  intro key
  rw [Attributes.values_erase]
  split
  · next hk => rw [hk, h]
  · next hk =>
    unfold shownAttributes
    split
    · rfl
    · rw [Attributes.values_insert, if_neg fun hl => hk hl.1]

/-- An entity of a well-formed store has no label. -/
theorem values_label_eq_nil (hw : s.WellFormed) {id : String} (hn : s.nodes[id]? = some n) :
    n.attributes.values labelKey = [] :=
  Attributes.values_eq_nil_of_not_mem (hw.no_label hn)

/-- The blocks of the document of a store are those that have something to show. -/
theorem mem_blocks_ofStore (hc : s.Coherent) : b ∈ (ofStore config s).blocks ↔
    b.attributes.isEmpty = false ∧ ((∃ n, s.nodes[n.id]? = some n ∧ nodeBlock n = b) ∨
      ∃ e, s.edges[e.toEdgeKey]? = some e ∧ edgeBlock e = b) := by
  simp only [blocks_ofStore, List.mem_filter, List.mem_append, List.mem_map, Store.mem_nodeList hc,
    Store.mem_edgeList hc, Bool.not_eq_true', and_comm]

/-- The attributes in the blocks of the document of a well-formed store are proper. -/
theorem proper_of_mem_blocks_ofStore (hc : s.Coherent) (hw : s.WellFormed)
    (hb : b ∈ (ofStore config s).blocks) : b.attributes.Proper := by
  rcases ((mem_blocks_ofStore hc).1 hb).2 with ⟨n, hn, rfl⟩ | ⟨e, he, rfl⟩
  · exact proper_shownAttributes (hw.node_proper hn)
  · exact hw.edge_proper he

/-- The document of a store names an entity if its name is not its id. -/
theorem label?_ofStore (hc : s.Coherent) (hw : s.WellFormed) {id : String}
    (hn : s.nodes[id]? = some n) :
    (ofStore config s).label? id = if n.name = n.id then none else some n.name := by
  have hlabel : ∀ b ∈ (ofStore config s).blocks, b.target = .entity id →
      (b.attributes.values labelKey).head? = if n.name = n.id then none else some n.name := by
    intro b hb htarget
    rcases ((mem_blocks_ofStore hc).1 hb).2 with ⟨m, hm, rfl⟩ | ⟨e, -, rfl⟩
    · obtain rfl : m.id = id := Target.entity.inj htarget
      obtain rfl : m = n := Option.some.inj (hm.symm.trans hn)
      rw [nodeBlock, values_label_shownAttributes (values_label_eq_nil hw hn)]
      split <;> rfl
    · cases htarget
  unfold label?
  by_cases hname : n.name = n.id
  · rw [if_pos hname]
    refine List.findSome?_eq_none_iff.2 fun b hb => ?_
    split
    · next htarget => rw [hlabel b hb htarget, if_pos hname]
    · rfl
  · simp only [if_neg hname] at hlabel ⊢
    have hid : n.id = id := hc.node_id hn
    have hmem : nodeBlock n ∈ (ofStore config s).blocks := by
      refine (mem_blocks_ofStore hc).2 ⟨?_, .inl ⟨n, hid ▸ hn, rfl⟩⟩
      refine Bool.eq_false_iff.2 fun hempty : (shownAttributes n).isEmpty = true => ?_
      have hvalues := values_label_shownAttributes (values_label_eq_nil hw hn)
      rw [Attributes.eq_empty_of_isEmpty hempty, Attributes.values_empty, if_neg hname] at hvalues
      cases hvalues
    have htarget : (nodeBlock n).target = .entity id := congrArg Target.entity hid
    cases hfind : (ofStore config s).blocks.findSome? fun b =>
        if b.target = .entity id then (b.attributes.values labelKey).head? else none with
    | none =>
      have := List.findSome?_eq_none_iff.1 hfind _ hmem
      rw [if_pos htarget, hlabel _ hmem htarget] at this
      cases this
    | some name =>
      obtain ⟨b, hb, hsome⟩ := List.exists_of_findSome?_eq_some hfind
      split at hsome
      · next ht => rw [← hsome, hlabel b hb ht]
      · cases hsome

/-- The document of a store gives an entity that it declares its name. -/
theorem withLabel_ofStore (hc : s.Coherent) (hw : s.WellFormed) {id : String}
    (hn : s.nodes[id]? = some n) :
    (ofStore config s).withLabel { id := n.id, kind := n.kind } = n.bare := by
  have hid : n.id = id := hc.node_id hn
  have hname : ((ofStore config s).label? n.id).getD n.id = n.name := by
    rw [hid, label?_ofStore hc hw hn]
    split
    · next h => rw [h, hid]; rfl
    · rfl
  rw [withLabel, hname, Node.bare]

/-! ## Attributes -/

/-- Blocks that have nothing to show are not missed. -/
theorem foldl_blocks_ofStore {f : Attributes → Block → Attributes}
    (hf : ∀ a b, b.attributes = ∅ → f a b = a) (a : Attributes) :
    (ofStore config s).blocks.foldl f a =
      s.edgeList.foldl (fun a e => f a (edgeBlock e))
        (s.nodeList.foldl (fun a n => f a (nodeBlock n)) a) := by
  have hskip : (fun a (b : Block) => if (!b.attributes.isEmpty) = true then f a b else a) = f := by
    funext a b
    split
    · rfl
    · next h => exact (hf a b (Attributes.eq_empty_of_isEmpty (by simpa using h))).symm
  rw [blocks_ofStore, List.foldl_filter, hskip, List.foldl_append, List.foldl_map, List.foldl_map]

/-- An id is that of one entity at most. -/
theorem filter_id_eq_singleton (hc : s.Coherent) {id : String} (hn : s.nodes[id]? = some n) :
    s.nodeList.filter (·.id = id) = [n] := by
  refine eq_of_pairwise_lt (f := Node.id) (hc.pairwise_nodeList.filter _) (by simp) ?_
  intro m
  simp only [List.mem_filter, Store.mem_nodeList hc, decide_eq_true_eq, List.mem_singleton]
  constructor
  · rintro ⟨hm, rfl⟩
    exact Option.some.inj (hm.symm.trans hn)
  · rintro rfl
    exact ⟨(hc.node_id hn).symm ▸ hn, hc.node_id hn⟩

/-- The blocks of the document of a store give an entity its own attributes. -/
theorem foldl_onNode_ofStore (hc : s.Coherent) (hw : s.WellFormed) {id : String}
    (hn : s.nodes[id]? = some n) :
    (ofStore config s).blocks.foldl (fun a b => b.onNode id a) ∅ = n.attributes := by
  have hempty : ∀ (a : Attributes) (b : Block), b.attributes = ∅ → b.onNode id a = a := by
    intro a b hb
    rw [Block.onNode, hb, Attributes.erase_empty, Attributes.merge_empty, ite_self]
  have hedges : ∀ (a : Attributes) (e : Edge), (edgeBlock e).onNode id a = a := fun _ _ => rfl
  have hnodes : ∀ (a : Attributes) (n : Node), (nodeBlock n).onNode id a =
      if decide (n.id = id) = true then a.merge ((shownAttributes n).erase labelKey) else a := by
    intro a n
    simp [Block.onNode, nodeBlock]
  rw [foldl_blocks_ofStore hempty]
  simp only [hedges, hnodes, List.foldl_fixed]
  rw [← List.foldl_filter, filter_id_eq_singleton hc hn, List.foldl_cons, List.foldl_nil,
    erase_label_shownAttributes (hw.node_proper hn) (values_label_eq_nil hw hn),
    Attributes.empty_merge (hw.node_proper hn)]

/-- The relations from one entity to another, by kind. -/
theorem filter_ends_eq (hc : s.Coherent) (source dest : String) :
    s.edgeList.filter (fun e => e.source = source && e.dest = dest) =
      EdgeKind.all.filterMap fun kind => s.edge? ⟨source, dest, kind⟩ := by
  refine eq_of_pairwise_lt (f := Edge.toEdgeKey) (hc.pairwise_edgeList.filter _) ?_ fun e => ?_
  · have hkinds : EdgeKind.all.Pairwise fun k k' => compare k k' = .lt := by decide
    refine List.pairwise_filterMap.2 (hkinds.imp ?_)
    intro k k' hlt e he e' he'
    rw [hc.edge_key he, hc.edge_key he']
    rw [EdgeKey.compare_kinds]
    exact hlt
  · simp only [List.mem_filter, Store.mem_edgeList hc, List.mem_filterMap, Bool.and_eq_true,
      decide_eq_true_eq]
    constructor
    · rintro ⟨he, rfl, rfl⟩
      exact ⟨e.kind, by cases e.kind <;> decide, he⟩
    · rintro ⟨kind, -, he⟩
      have hkey : e.toEdgeKey = ⟨source, dest, kind⟩ := hc.edge_key he
      exact ⟨hkey ▸ he, congrArg (·.source) hkey, congrArg (·.dest) hkey⟩

/-- The blocks of the document of a store give a relation the attributes of all relations between
its ends. -/
theorem foldl_onEdge_ofStore (hc : s.Coherent) (key : EdgeKey) :
    (ofStore config s).blocks.foldl (fun a b => b.onEdge key a) ∅ =
      s.pairAttributes key.source key.dest := by
  have hempty : ∀ (a : Attributes) (b : Block), b.attributes = ∅ → b.onEdge key a = a := by
    intro a b hb
    rw [Block.onEdge, hb, Attributes.merge_empty, ite_self]
  have hnodes : ∀ (a : Attributes) (n : Node), (nodeBlock n).onEdge key a = a := fun _ _ => rfl
  have hedges : ∀ (a : Attributes) (e : Edge), (edgeBlock e).onEdge key a =
      if (decide (e.source = key.source) && decide (e.dest = key.dest)) = true then
        a.merge e.attributes else a := by
    intro a e
    simp [Block.onEdge, edgeBlock]
  rw [foldl_blocks_ofStore hempty]
  simp only [hnodes, hedges, List.foldl_fixed]
  rw [← List.foldl_filter, filter_ends_eq hc, Store.pairAttributes]

end

end Document

end ArchFacts
