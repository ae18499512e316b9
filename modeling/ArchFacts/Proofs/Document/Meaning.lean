import ArchFacts.Proofs.Document.Dangling

/-!
# The meaning of a document

What a document says is told without a store. `DescribesNode` tells an entity by the declarations of
its id and the blocks for it, `DescribesEdge` a relation by the pairs that state it and the blocks
for its ends. Put into an empty store, a document whose pairs are known leaves exactly the entities
and relations that it describes, and counts what it says (`apply_empty`).

Each pass is told by itself: which declaration of an id counts (`exists_of_find?_declared`), which
relations are left (`mem_edges_link_empty`), and what blocks give (`values_foldl_onNode`,
`values_foldl_onEdge`). At most one entity and one relation fit a description
(`DescribesNode.unique`, `DescribesEdge.unique`), so it is enough that what is left fits.
-/

namespace ArchFacts

/-- Pairs with one first word are compared by their second. -/
theorem Pair.compare_of_first {a b c : String} : compare (Pair.mk a b) ⟨a, c⟩ = compare b c := by
  have hlex : compare (Pair.mk a b) ⟨a, c⟩ = (compare a a).then (compare b c) := rfl
  have hself : compare a a = .eq := Std.ReflCmp.compare_self
  rw [hlex, hself, Ordering.eq_then]

/-- Of the members of an ordered list that have a property, the first comes before all others. -/
theorem rel_of_find?_eq_some {α : Type} {R : α → α → Prop} {p : α → Bool} {l : List α} {a b : α}
    (hl : l.Pairwise R) (h : l.find? p = some a) (hb : b ∈ l) (hp : p b = true) :
    b = a ∨ R a b := by
  obtain ⟨-, before, after, rfl, hbefore⟩ := List.find?_eq_some_iff_append.1 h
  rcases List.mem_append.1 hb with hb | hb
  · have hnot := hbefore b hb
    rw [hp] at hnot
    cases hnot
  · rcases List.mem_cons.1 hb with rfl | hb
    · exact .inl rfl
    · exact .inr ((List.pairwise_cons.1 (List.pairwise_append.1 hl).2.1).1 b hb)

namespace Document

/-! ## Descriptions -/

/-- Whether a document declares an id with a word for its kind. -/
def DeclaresAs (config : Config) (d : Document) (id tag : String) : Prop :=
  (config.entityRelation, ⟨id, tag⟩) ∈ d.tuples

/-- Whether a document states a relation. -/
def States (config : Config) (d : Document) (key : EdgeKey) : Prop :=
  key.kind.tag ≠ config.entityRelation ∧ (key.kind.tag, ⟨key.source, key.dest⟩) ∈ d.tuples

/-- Whether a document leaves a relation that it states: a parent only if it is the greatest of all
that the document gives an entity, the entity itself apart. -/
def Leaves (config : Config) (d : Document) (key : EdgeKey) : Prop :=
  d.States config key ∧ (key.kind = .contains → key.source ≠ key.dest ∧
    ∀ p, d.States config ⟨p, key.dest, .contains⟩ → p ≠ key.dest → (compare p key.source).isLE)

/-- Whether an entity is as a document says: its kind is that of the least word with which its id is
declared, its name is the first label for it, and its attributes are the other values of the blocks
for it, block by block and each once. -/
structure DescribesNode (config : Config) (d : Document) (n : Node) : Prop where
  kind : ∃ tag, d.DeclaresAs config n.id tag ∧ NodeKind.ofTag? tag = some n.kind ∧
    ∀ tag', d.DeclaresAs config n.id tag' → (compare tag tag').isLE
  name : n.name = (d.valuesFor (.entity n.id) labelKey).head?.getD n.id
  proper : n.attributes.Proper
  values : ∀ key, n.attributes.values key =
    if key = labelKey then [] else (d.valuesFor (.entity n.id) key).eraseDups

/-- Whether a relation is as a document says: it is one that the document leaves, it is open, and
its attributes are the values of the blocks for its ends, block by block and each once. -/
structure DescribesEdge (config : Config) (d : Document) (e : Edge) : Prop where
  leaves : d.Leaves config e.toEdgeKey
  resolved : e.resolved = false
  proper : e.attributes.Proper
  values : ∀ key, e.attributes.values key = (d.valuesFor (.pair e.source e.dest) key).eraseDups

/-- The ids that a document declares, each as often as it has words for its kind. -/
def declaredIds (config : Config) (d : Document) : List String :=
  (d.tuples.filter (·.1 = config.entityRelation)).map (·.2.first)

/-- Whether a pair says that an entity is its own parent. -/
def isLoop (t : String × Pair) : Bool := t.1 = EdgeKind.contains.tag && t.2.first = t.2.second

section
variable {config : Config} {d : Document} {id k : String} {n n' : Node} {e e' : Edge}
variable {key : EdgeKey} {blocks : List Block}

/-- Only one entity with an id is as a document says. -/
theorem DescribesNode.unique (h : d.DescribesNode config n) (h' : d.DescribesNode config n')
    (hid : n.id = n'.id) : n = n' := by
  have hkind : n.kind = n'.kind := by
    obtain ⟨tag, htag, hkind, hmin⟩ := h.kind
    obtain ⟨tag', htag', hkind', hmin'⟩ := h'.kind
    have heq : compare tag tag' = .eq :=
      Std.OrientedCmp.isLE_antisymm (hmin tag' (hid ▸ htag')) (hmin' tag (hid ▸ htag))
    rw [← Option.some.injEq, ← hkind, ← hkind', Std.LawfulEqOrd.eq_of_compare heq]
  have hname : n.name = n'.name := by rw [h.name, h'.name, hid]
  have hattributes : n.attributes = n'.attributes :=
    h.proper.ext h'.proper fun key => by rw [h.values, h'.values, hid]
  cases n; cases n'
  simp_all

/-- Only one relation with a key is as a document says. -/
theorem DescribesEdge.unique (h : d.DescribesEdge config e) (h' : d.DescribesEdge config e')
    (hkey : e.toEdgeKey = e'.toEdgeKey) : e = e' := by
  have hattributes : e.attributes = e'.attributes :=
    h.proper.ext h'.proper fun key => by rw [h.values, h'.values, hkey]
  have hresolved : e.resolved = e'.resolved := h.resolved.trans h'.resolved.symm
  cases e; cases e'
  simp_all

/-! ## Blocks -/

theorem flatMap_values_eq {f : Block → Attributes} {target : Target}
    (h : ∀ b ∈ d.blocks, (f b).values k = if b.target = target then b.attributes.values k else []) :
    d.blocks.flatMap (fun b => (f b).values k) = d.valuesFor target k := by
  rw [valuesFor]
  generalize d.blocks = blocks at h
  induction blocks with
  | nil => rfl
  | cons b blocks ih =>
    obtain ⟨hb, hblocks⟩ := List.forall_mem_cons.1 h
    rw [List.flatMap_cons, hb, ih hblocks]
    by_cases htarget : b.target = target <;> simp [htarget]

/-- The blocks of a document give an entity the values that they have for it, each once. -/
theorem values_foldl_onNode :
    (d.blocks.foldl (fun a b => b.onNode id a) (∅ : Attributes)).values k =
      if k = labelKey then [] else (d.valuesFor (.entity id) k).eraseDups := by
  rw [Block.foldl_onNode_eq, Attributes.values_foldl_merge, Attributes.values_empty,
    Attributes.addNew_nil_left, List.flatMap_map]
  by_cases hk : k = labelKey
  · rw [if_pos hk]
    have hnil : ∀ b ∈ d.blocks, (if b.target = .entity id then b.attributes.erase labelKey
        else ∅ : Attributes).values k = [] := by
      intro b _
      split <;> simp [Attributes.values_erase, hk]
    rw [List.flatMap_eq_nil_iff.2 hnil, List.eraseDups_nil]
  · rw [if_neg hk, flatMap_values_eq fun b _ => ?_]
    split <;> simp [Attributes.values_erase, hk]

/-- The blocks of a document give a relation the values that they have for its ends, each once. -/
theorem values_foldl_onEdge :
    (d.blocks.foldl (fun a b => b.onEdge key a) (∅ : Attributes)).values k =
      (d.valuesFor (.pair key.source key.dest) k).eraseDups := by
  rw [Block.foldl_onEdge_eq, Attributes.values_foldl_merge, Attributes.values_empty,
    Attributes.addNew_nil_left, List.flatMap_map, flatMap_values_eq fun b _ => ?_]
  split <;> simp

/-! ## Entities -/

/-- The pairs that declare an entity under an id. -/
theorem any_nodeOf? {t : String × Pair} (hk : config.Knows t) :
    (nodeOf? config t).any (·.id = id) = true ↔
      t.1 = config.entityRelation ∧ t.2.first = id := by
  unfold Config.Knows at hk
  unfold nodeOf?
  split at hk
  · next hname =>
    obtain ⟨kind, hkind⟩ := Option.isSome_iff_exists.1 hk
    simp [hname, hkind]
  · next hname => simp [hname]

/-- Of the entities that a document declares with one id, the first has the kind of the least word
for it. -/
theorem exists_of_find?_declared (ht : Tidy d.relations) (hk : ∀ t ∈ d.tuples, config.Knows t)
    (h : (d.declared config).find? (·.id = id) = some n) :
    (∃ tag, d.DeclaresAs config id tag ∧ NodeKind.ofTag? tag = some n.kind ∧
      ∀ tag', d.DeclaresAs config id tag' → (compare tag tag').isLE) ∧
    n = { id, name := (d.label? id).getD id, kind := n.kind } := by
  rw [declared, List.find?_map] at h
  change ((d.tuples.filterMap (nodeOf? config)).find? (·.id = id)).map d.withLabel = some n at h
  rw [List.find?_filterMap] at h
  obtain ⟨m, hbind, rfl⟩ := Option.map_eq_some_iff.1 h
  obtain ⟨⟨name, first, tag⟩, hfind, hm⟩ := Option.bind_eq_some_iff.1 hbind
  have hmem : (name, Pair.mk first tag) ∈ d.tuples := List.mem_of_find?_eq_some hfind
  have hfirst := List.find?_some hfind
  obtain ⟨rfl, rfl⟩ := (any_nodeOf? (hk _ hmem)).1 hfirst
  unfold nodeOf? at hm
  rw [if_pos rfl] at hm
  obtain ⟨kind, hkind, rfl⟩ := Option.map_eq_some_iff.1 hm
  refine ⟨⟨tag, hmem, hkind, fun tag' htag' => ?_⟩, rfl⟩
  have hp : (nodeOf? config (config.entityRelation, ⟨first, tag'⟩)).any (·.id = first) = true :=
    (any_nodeOf? (hk _ htag')).2 ⟨rfl, rfl⟩
  rcases rel_of_find?_eq_some ht.pairwise_tuples hfind htag' hp with heq | hlt
  · cases heq
    exact Std.ReflCmp.isLE_rfl
  · rw [← Pair.compare_of_first, hlt rfl]
    rfl

/-- An id that is declared is found among the declared entities. -/
theorem isSome_find?_declared (hk : ∀ t ∈ d.tuples, config.Knows t) {tag : String}
    (h : d.DeclaresAs config id tag) :
    ((d.declared config).find? (·.id = id)).isSome = true := by
  obtain ⟨m, hm, hid⟩ := (Option.any_eq_true _ _).1 ((any_nodeOf? (hk _ h)).2 ⟨rfl, rfl⟩)
  rw [List.find?_isSome]
  exact ⟨d.withLabel m, List.mem_map.2 ⟨m, List.mem_filterMap.2 ⟨_, h, hm⟩, rfl⟩, hid⟩

/-- The entities that a document declares have the ids that it declares. -/
theorem map_id_declared (hk : ∀ t ∈ d.tuples, config.Knows t) :
    (d.declared config).map (·.id) = d.declaredIds config := by
  rw [declared, List.map_map, List.map_filterMap, declaredIds, ← List.filterMap_eq_map',
    List.filterMap_filter]
  refine List.filterMap_congr fun t ht => ?_
  have hknows := hk t ht
  unfold Config.Knows at hknows
  unfold nodeOf?
  split at hknows
  · next hname =>
    obtain ⟨kind, hkind⟩ := Option.isSome_iff_exists.1 hknows
    simp [hname, hkind, withLabel]
  · next hname => simp [hname]

/-! ## Relations -/

/-- The relations that a document states, as a list and as a property. -/
theorem exists_mem_stated_iff :
    (∃ e ∈ d.stated config, e.toEdgeKey = key) ↔ d.States config key := by
  constructor
  · rintro ⟨e, he, rfl⟩
    obtain ⟨t, ht, hedge⟩ := List.mem_filterMap.1 he
    obtain ⟨hname, rfl, -⟩ := edgeOf?_eq_some.1 hedge
    exact ⟨hname, ht⟩
  · rintro ⟨hname, ht⟩
    exact ⟨{ toEdgeKey := key }, List.mem_filterMap.2 ⟨_, ht, edgeOf?_eq_some.2 ⟨hname, rfl, rfl⟩⟩,
      rfl⟩

/-- The parents that the stated relations give an entity. -/
theorem mem_filterMap_parent?_iff {p child : String} :
    p ∈ (d.stated config).filterMap (Edge.parent? child) ↔
      d.States config ⟨p, child, .contains⟩ ∧ p ≠ child := by
  simp only [List.mem_filterMap (f := Edge.parent? child), Edge.parent?_eq_some,
    ← exists_mem_stated_iff]
  constructor
  · rintro ⟨e, he, hkey, hne⟩
    exact ⟨⟨e, he, hkey⟩, hne⟩
  · rintro ⟨⟨e, he, hkey⟩, hne⟩
    exact ⟨e, he, hkey, hne⟩

/-- The stated relations give an entity its parents in increasing order. -/
theorem pairwise_filterMap_parent? (ht : Tidy d.relations) (child : String) :
    ((d.stated config).filterMap (Edge.parent? child)).Pairwise fun p p' => compare p p' = .lt := by
  by_cases hr : config.entityRelation = EdgeKind.contains.tag
  · have hnil : (d.stated config).filterMap (Edge.parent? child) = [] :=
      List.eq_nil_iff_forall_not_mem.2 fun p hp => (mem_filterMap_parent?_iff.1 hp).1.1 hr.symm
    rw [hnil]
    exact .nil
  · rw [filterMap_parent? hr]
    exact pairwise_parentsOf ht

/-- A document that is put into an empty store leaves the relations that it is to leave. -/
theorem mem_edges_link_empty (ht : Tidy d.relations) :
    key ∈ (d.link config ∅).edges ↔ d.Leaves config key := by
  have hc : (d.populate config ∅).Coherent := coherent_populate Store.coherent_empty
  have hnone : ∀ key : EdgeKey, key ∉ (d.populate config ∅).edges := fun key => by
    rw [edges_populate]
    exact Std.ExtTreeMap.not_mem_empty
  obtain ⟨source, dest, kind⟩ := key
  by_cases hkind : kind = .contains
  · subst hkind
    rw [Store.mem_edges_iff, link,
      Store.getElem?_foldl_offer_parent hc (fun _ => bare_of_mem) fun p => hnone _]
    have hsorted : ((d.stated config).filterMap (Edge.parent? dest)).Pairwise
        fun p p' => compare p p' = .lt := pairwise_filterMap_parent? ht dest
    have hlast := getLast?_eq_some_iff (a := source) hsorted
    simp only [mem_filterMap_parent?_iff, and_imp, and_assoc] at hlast
    simp only [Option.ite_none_right_eq_some, Option.some.injEq, exists_and_left, exists_eq',
      and_true, hlast, Leaves, forall_const]
  · rw [link, Store.mem_edges_foldl_offer_iff hc hkind, or_iff_right (hnone _),
      exists_mem_stated_iff, Leaves]
    exact (and_iff_left fun h => absurd h hkind).symm

/-- What a document leaves under a key in an empty store is open and has no attributes yet. -/
theorem eq_of_getElem?_link_empty (h : (d.link config ∅).edges[key]? = some e) :
    e = { toEdgeKey := key } := by
  rcases Store.getElem?_foldl_offer_cases (coherent_populate Store.coherent_empty) h with
    he | ⟨he, rfl⟩
  · rw [edges_populate] at he
    exact absurd (Store.mem_edges_iff.2 ⟨e, he⟩) Std.ExtTreeMap.not_mem_empty
  · exact (bare_of_mem he).symm

/-- No relation is stated twice. -/
theorem pairwise_stated (ht : Tidy d.relations) :
    (d.stated config).Pairwise (·.toEdgeKey ≠ ·.toEdgeKey) := by
  refine List.pairwise_filterMap.2 (ht.nodup_tuples.imp ?_)
  intro t t' hne e he e' he' hkey
  obtain ⟨-, rfl, -⟩ := edgeOf?_eq_some.1 he
  obtain ⟨-, rfl, -⟩ := edgeOf?_eq_some.1 he'
  exact hne (by rw [hkey])

/-! ## All passes -/

/-- What stands under an id after a document has been put into an empty store. -/
theorem getElem?_apply_nodes (ht : Tidy d.relations) (hk : ∀ t ∈ d.tuples, config.Knows t) :
    ((d.link config ∅).applyBlocks d.blocks).2.nodes[id]? =
      ((d.declared config).find? (·.id = id)).map fun n =>
        { n with attributes := d.blocks.foldl (fun a b => b.onNode id a) ∅ } := by
  rw [Store.getElem?_applyBlocks_nodes, link, Store.foldl_offer_nodes, populate,
    Store.getElem?_addNodes, Store.nodes_empty, Std.ExtTreeMap.getElem?_empty, Option.none_or,
    Option.map_map]
  cases h : (d.declared config).find? (·.id = id) with
  | none => rfl
  | some n =>
    obtain ⟨-, hn⟩ := exists_of_find?_declared ht hk h
    have hempty : n.attributes = ∅ := by rw [hn]
    have hlabel : n.takeLabel = n :=
      Node.takeLabel_eq (by rw [hempty]; exact Std.ExtTreeMap.not_mem_empty)
    rw [Option.map_some, Option.map_some, Function.comp_apply, hlabel, hempty]

/-- What stands under a key after a document has been put into an empty store. -/
theorem getElem?_apply_edges :
    ((d.link config ∅).applyBlocks d.blocks).2.edges[key]? =
      (d.link config ∅).edges[key]?.map fun _ =>
        { toEdgeKey := key, attributes := d.blocks.foldl (fun a b => b.onEdge key a) ∅ } := by
  rw [Store.getElem?_applyBlocks_edges (coherent_link Store.coherent_empty)]
  cases h : (d.link config ∅).edges[key]? with
  | none => rfl
  | some e =>
    obtain rfl := eq_of_getElem?_link_empty h
    rfl

/-- What a document leaves in an empty store obeys the rules on stores. -/
theorem wellFormed_apply_empty (hne : ∀ r ∈ d.relations, r.pairs ≠ ∅)
    (hk : ∀ t ∈ d.tuples, config.Knows t) :
    ((d.link config ∅).applyBlocks d.blocks).2.WellFormed :=
  Store.Steps.wellFormed
    (Store.Steps.apply Attributes.rule_proper Store.coherent_empty (apply_eq_ok hne hk))
    Store.coherent_empty Store.wellFormed_empty

/-- The entities that a document leaves in an empty store are those that it describes. -/
theorem apply_nodes_iff (ht : Tidy d.relations) (hk : ∀ t ∈ d.tuples, config.Knows t) :
    ((d.link config ∅).applyBlocks d.blocks).2.nodes[id]? = some n ↔
      n.id = id ∧ d.DescribesNode config n := by
  have hleft : ∀ {n}, ((d.link config ∅).applyBlocks d.blocks).2.nodes[id]? = some n →
      n.id = id ∧ d.DescribesNode config n := by
    intro n hn
    have hproper := (wellFormed_apply_empty ht.nonempty hk).node_proper hn
    rw [getElem?_apply_nodes ht hk] at hn
    obtain ⟨m, hm, rfl⟩ := Option.map_eq_some_iff.1 hn
    obtain ⟨hkind, hm⟩ := exists_of_find?_declared ht hk hm
    obtain rfl : m.id = id := by rw [hm]
    exact ⟨rfl, hkind, by rw [hm, label?_eq], hproper, fun _ => values_foldl_onNode⟩
  refine ⟨hleft, fun ⟨hid, hn⟩ => ?_⟩
  obtain ⟨tag, htag, -, -⟩ := hn.kind
  obtain ⟨m, hm⟩ : ∃ m, ((d.link config ∅).applyBlocks d.blocks).2.nodes[id]? = some m := by
    rw [← Option.isSome_iff_exists, getElem?_apply_nodes ht hk, Option.isSome_map]
    exact isSome_find?_declared hk (hid ▸ htag)
  obtain ⟨hmid, hmd⟩ := hleft hm
  rw [hm, hn.unique hmd (hid.trans hmid.symm)]

/-- The relations that a document leaves in an empty store are those that it describes. -/
theorem apply_edges_iff (ht : Tidy d.relations) (hk : ∀ t ∈ d.tuples, config.Knows t) :
    ((d.link config ∅).applyBlocks d.blocks).2.edges[key]? = some e ↔
      e.toEdgeKey = key ∧ d.DescribesEdge config e := by
  have hleft : ∀ {e}, ((d.link config ∅).applyBlocks d.blocks).2.edges[key]? = some e →
      e.toEdgeKey = key ∧ d.DescribesEdge config e := by
    intro e he
    have hproper := (wellFormed_apply_empty ht.nonempty hk).edge_proper he
    rw [getElem?_apply_edges] at he
    obtain ⟨e', he', rfl⟩ := Option.map_eq_some_iff.1 he
    have hmem : key ∈ (d.link config ∅).edges := Store.mem_edges_iff.2 ⟨e', he'⟩
    exact ⟨rfl, (mem_edges_link_empty ht).1 hmem, rfl, hproper, fun _ => values_foldl_onEdge⟩
  refine ⟨hleft, fun ⟨hkey, he⟩ => ?_⟩
  obtain ⟨e', he'⟩ : ∃ e', ((d.link config ∅).applyBlocks d.blocks).2.edges[key]? = some e' := by
    rw [← Option.isSome_iff_exists, getElem?_apply_edges, Option.isSome_map,
      ← Std.ExtTreeMap.mem_iff_isSome_getElem?, mem_edges_link_empty ht]
    exact hkey ▸ he.leaves
  obtain ⟨hkey', hed⟩ := hleft he'
  rw [he', he.unique hed (hkey.trans hkey'.symm)]

/-! ## Counts -/

/-- Each pair of the entity relation declares one entity. -/
theorem length_declared (hk : ∀ t ∈ d.tuples, config.Knows t) :
    (d.declared config).length = (d.declaredIds config).length := by
  rw [← map_id_declared hk]
  exact (List.length_map _).symm

/-- An empty store is given one entity for each id, and the other declarations are counted. -/
theorem report_nodes (hk : ∀ t ∈ d.tuples, config.Knows t) :
    (d.report config ∅).nodesAdded = (d.declaredIds config).eraseDups.length ∧
      (d.report config ∅).nodesAdded + (d.report config ∅).duplicateNodes =
        (d.declaredIds config).length := by
  have hadded : ((∅ : Store).addNodes (d.declared config)).1.added =
      (d.declaredIds config).eraseDups.length := by
    rw [Store.addNodes_fst, map_id_declared hk]
  refine ⟨hadded, ?_⟩
  rw [← length_declared hk]
  exact Store.added_add_refused_foldl_attempt ∅ _

/-- A relation is stated of an entity as its own parent exactly if the pair says so. -/
theorem countP_stated (hk : ∀ t ∈ d.tuples, config.Knows t) (p : Bool → Bool) :
    (d.stated config).countP (fun e => p e.isSelfContainment) =
      d.tuples.countP fun t => t.1 ≠ config.entityRelation && p (isLoop t) := by
  rw [stated, List.countP_filterMap]
  refine List.countP_congr fun t ht => ?_
  have hknows := hk t ht
  unfold Config.Knows at hknows
  split at hknows
  · next hname => simp [edgeOf?, hname]
  · next hname =>
    obtain ⟨kind, hkind⟩ := Option.isSome_iff_exists.1 hknows
    have hedge : edgeOf? config t =
        some { source := t.2.first, dest := t.2.second, kind } := by simp [edgeOf?, hname, hkind]
    have hcontains : t.1 = EdgeKind.contains.tag ↔ kind = .contains := by
      rw [EdgeKind.eq_tag_of_ofTag? hkind, EdgeKind.tag_inj]
    simp [hedge, hname, isLoop, EdgeKey.isSelfContainment, hcontains]

/-- To an empty store all stated relations are added but those of an entity as its own parent. -/
theorem report_edges (ht : Tidy d.relations) (hk : ∀ t ∈ d.tuples, config.Knows t) :
    (d.report config ∅).edgesAdded =
        d.tuples.countP (fun t => t.1 ≠ config.entityRelation && !isLoop t) ∧
      (d.report config ∅).rejectedEdges =
        d.tuples.countP fun t => t.1 ≠ config.entityRelation && isLoop t := by
  have hfree : ∀ e ∈ d.stated config, e.toEdgeKey ∉ (d.populate config ∅).edges := by
    intro e _
    rw [edges_populate]
    exact Std.ExtTreeMap.not_mem_empty
  have hcounted : ((d.populate config ∅).addEdges (d.stated config)).1 =
      { added := (d.stated config).countP (!·.isSelfContainment)
        refused := (d.stated config).countP (·.isSelfContainment) } :=
    Store.addEdges_fst (coherent_populate Store.coherent_empty) hfree (pairwise_stated ht)
  rw [report, hcounted]
  exact ⟨countP_stated hk (!·), countP_stated hk id⟩

/-- **The meaning of a document.** A document that was built pair by pair and block by block, and
whose pairs are known to the settings, is put into an empty store without fail. It leaves exactly
the entities and relations that it describes, and indices that are in step. The report counts the
ids that the document declares, the declarations beyond the first of an id, the pairs of other
relations, apart from those that say that an entity is its own parent and are rejected, and the
blocks for which nothing is left that they are meant for. -/
theorem apply_empty (hd : d.Built) (hk : ∀ t ∈ d.tuples, config.Knows t) :
    ∃ report s, d.apply config ∅ = .ok (report, s) ∧
      (∀ id n, s.node? id = some n ↔ n.id = id ∧ d.DescribesNode config n) ∧
      (∀ key e, s.edge? key = some e ↔ e.toEdgeKey = key ∧ d.DescribesEdge config e) ∧
      s.reindex = s ∧
      report.nodesAdded = (d.declaredIds config).eraseDups.length ∧
      report.nodesAdded + report.duplicateNodes = (d.declaredIds config).length ∧
      report.edgesAdded = d.tuples.countP (fun t => t.1 ≠ config.entityRelation && !isLoop t) ∧
      report.rejectedEdges = d.tuples.countP (fun t => t.1 ≠ config.entityRelation && isLoop t) ∧
      report.missingTargets = d.blocks.countP (fun b => ¬ s.Meets b) ∧
      report.resolution = {} := by
  have ht : Tidy d.relations := hd.tidy
  have hc : (d.link config ∅).Coherent := coherent_link Store.coherent_empty
  obtain ⟨hadded, hduplicate⟩ := report_nodes hk
  obtain ⟨hedges, hrejected⟩ := report_edges ht hk
  have hmissing : (d.report config ∅).missingTargets =
      d.blocks.countP fun b => ¬ ((d.link config ∅).applyBlocks d.blocks).2.Meets b := by
    simp only [report, Store.applyBlocks_fst hc, Store.meets_applyBlocks hc]
  exact ⟨_, _, apply_eq_ok ht.nonempty hk, fun id n => apply_nodes_iff ht hk,
    fun key e => apply_edges_iff ht hk, (hc.applyBlocks _).reindex_eq, hadded, hduplicate, hedges,
    hrejected, hmissing, rfl⟩

/-- A document that declares one id with two kinds, names three parents of it, of which the greatest
is the entity itself, gives it a value and its labels in two blocks, and has a block for nothing. -/
def contended : Document :=
  ((((((((((∅ : Document).addTuple "contain" ⟨"b", "f"⟩).addTuple "$INSTANCE" ⟨"f", "function"⟩
    ).addTuple "$INSTANCE" ⟨"f", "cFile"⟩).addTuple "contain" ⟨"a", "f"⟩
    ).addTuple "contain" ⟨"f", "f"⟩).addTuple "call" ⟨"b", "f"⟩
    ).addBlock ⟨.entity "f", (∅ : Attributes).insert "line" "2", 0⟩
    ).addBlock ⟨.entity "f", (((∅ : Attributes).insert "label" "F").insert "line" "1").insert
      "line" "2", 0⟩
    ).addBlock ⟨.pair "b" "f", (∅ : Attributes).insert "label" "L", 0⟩
    ).addBlock ⟨.pair "a" "f", (∅ : Attributes).insert "line" "3", 0⟩

theorem built_contended : contended.Built :=
  .addBlock _ (.addBlock _ (.addBlock _ (.addBlock _ (.addTuple _ _ _ (.addTuple _ _ _
    (.addTuple _ _ _ (.addTuple _ _ _ (.addTuple _ _ _ (.addTuple _ _ _ .empty)))))))))

theorem apply_empty_contended :
    contended.Built ∧ (∀ t ∈ contended.tuples, Config.Knows {} t) ∧
    ∃ report s, contended.apply {} ∅ = .ok (report, s) ∧
      (∀ id n, s.node? id = some n ↔ n.id = id ∧ contended.DescribesNode {} n) ∧
      (∀ key e, s.edge? key = some e ↔ e.toEdgeKey = key ∧ contended.DescribesEdge {} e) ∧
      s.reindex = s ∧
      report.nodesAdded = (contended.declaredIds {}).eraseDups.length ∧
      report.nodesAdded + report.duplicateNodes = (contended.declaredIds {}).length ∧
      report.edgesAdded = contended.tuples.countP (fun t => t.1 ≠ "$INSTANCE" && !isLoop t) ∧
      report.rejectedEdges = contended.tuples.countP (fun t => t.1 ≠ "$INSTANCE" && isLoop t) ∧
      report.missingTargets = contended.blocks.countP (fun b => ¬ s.Meets b) ∧
      report.resolution = {} := by
  have hk : ∀ t ∈ contended.tuples, Config.Knows {} t := by
    unfold Config.Knows
    decide +kernel
  exact ⟨built_contended, hk, apply_empty built_contended hk⟩

end

end Document

end ArchFacts
