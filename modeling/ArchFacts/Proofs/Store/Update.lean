import ArchFacts.Proofs.Store.Coherent

/-!
# Elementary changes of a store

All operations on a store are made of a few changes: an entity is registered, dropped or gets other
attributes; a relation is erased, inserted or gets another value under its key; all relations are
settled at once. This module says what each of them does to the entities and relations, and that
each keeps the store coherent.
-/

namespace ArchFacts.Store

/-- The store without an entity: `n`, which stands under `id`. -/
def dropNode (s : Store) (id : String) (n : Node) : Store :=
  { s with nodes := s.nodes.erase id, names := s.names.erase n.name id }

/-- The store with another value for an entity that keeps its name. -/
def setNode (s : Store) (id : String) (n : Node) : Store :=
  { s with nodes := s.nodes.insert id n }

/-- The store with a relation under its key, no room being made for it. -/
def insertEdge (s : Store) (e : Edge) : Store :=
  { s with
    edges := s.edges.insert e.toEdgeKey e
    outgoing := s.outgoing.insert e.source e.toEdgeKey
    incoming := s.incoming.insert e.dest e.toEdgeKey }

/-- The store with another value for a relation that is there. -/
def setEdge (s : Store) (key : EdgeKey) (e : Edge) : Store :=
  { s with edges := s.edges.insert key e }

section
variable {s s' : Store} {id : String} {n n' : Node} {key k : EdgeKey} {e e' : Edge}

/-- A key is present exactly if something stands under it. -/
theorem mem_edges_iff : key ∈ s.edges ↔ ∃ e, s.edges[key]? = some e := by
  rw [Std.ExtTreeMap.mem_iff_isSome_getElem?, Option.isSome_iff_exists]

/-! ## Entities -/

theorem hasNode_eq_false_iff : s.hasNode id = false ↔ s.nodes[id]? = none := by
  rw [hasNode, Std.ExtTreeMap.contains_eq_isSome_getElem?, Option.isSome_eq_false_iff,
    Option.isNone_iff_eq_none]

/-- Registering an entity under a free id keeps a store coherent. -/
theorem Coherent.register (h : s.Coherent) (hfree : s.nodes[n.id]? = none) :
    (s.register n).Coherent where
  node_id {id m} hm := by
    rcases getElem?_insert_eq_some.1 hm with ⟨rfl, rfl⟩ | ⟨_, hm⟩
    · rfl
    · exact h.node_id hm
  edge_key := h.edge_key
  mem_names {name id} := by
    simp only [Store.register, Index.mem_find_insert, Std.ExtTreeMap.getElem?_insert, h.mem_names]
    by_cases hid : n.id = id
    · subst hid
      simp [hfree, eq_comm]
    · simp [hid, Ne.symm hid]
  mem_outgoing := h.mem_outgoing
  mem_incoming := h.mem_incoming
  names_tight := h.names_tight.insert
  outgoing_tight := h.outgoing_tight
  incoming_tight := h.incoming_tight

/-- Dropping an entity keeps a store coherent. -/
theorem Coherent.dropNode (h : s.Coherent) (hn : s.nodes[id]? = some n) :
    (s.dropNode id n).Coherent where
  node_id hm := h.node_id (getElem?_of_erase hm)
  edge_key := h.edge_key
  mem_names {name i} := by
    simp only [Store.dropNode, Index.mem_find_erase, Std.ExtTreeMap.getElem?_erase, h.mem_names]
    by_cases hid : id = i
    · subst hid
      simp [hn, eq_comm]
    · simp [hid, Ne.symm hid]
  mem_outgoing := h.mem_outgoing
  mem_incoming := h.mem_incoming
  names_tight := h.names_tight.erase
  outgoing_tight := h.outgoing_tight
  incoming_tight := h.incoming_tight

/-- Giving an entity other attributes keeps a store coherent. -/
theorem Coherent.setNode (h : s.Coherent) (hn : s.nodes[id]? = some n) (hid : n'.id = n.id)
    (hname : n'.name = n.name) : (s.setNode id n').Coherent where
  node_id {i m} hm := by
    rcases getElem?_insert_eq_some.1 hm with ⟨rfl, rfl⟩ | ⟨_, hm⟩
    · rw [hid, h.node_id hn]
    · exact h.node_id hm
  edge_key := h.edge_key
  mem_names {name i} := by
    simp only [Store.setNode, Std.ExtTreeMap.getElem?_insert, h.mem_names]
    by_cases hi : id = i
    · subst hi
      simp [hn, hname]
    · simp [hi]
  mem_outgoing := h.mem_outgoing
  mem_incoming := h.mem_incoming
  names_tight := h.names_tight
  outgoing_tight := h.outgoing_tight
  incoming_tight := h.incoming_tight

/-! ## Indices of relations

The indices of sources and of destinations change alike, each by its end `f` of a key. -/

/-- Whether an index has each key of some relations under one of its ends, and no other key. -/
def Shows (ix : Index EdgeKey) (f : EdgeKey → String) (m : Std.ExtTreeMap EdgeKey Edge) : Prop :=
  ∀ {id : String} {k : EdgeKey}, k ∈ ix.find id ↔ k ∈ m ∧ f k = id

section
variable {ix : Index EdgeKey} {f : EdgeKey → String} {m : Std.ExtTreeMap EdgeKey Edge}

theorem Shows.insert (h : Shows ix f m) :
    Shows (ix.insert (f key) key) f (m.insert key e) := by
  intro id k
  rw [Index.mem_find_insert, h, Std.ExtTreeMap.mem_insert, Std.LawfulEqCmp.compare_eq_iff_eq]
  constructor
  · rintro (⟨rfl, rfl⟩ | ⟨hk, hid⟩)
    · exact ⟨.inl rfl, rfl⟩
    · exact ⟨.inr hk, hid⟩
  · rintro ⟨rfl | hk, hid⟩
    · exact .inl ⟨hid.symm, rfl⟩
    · exact .inr ⟨hk, hid⟩

/-- An index from which several keys have been taken shows the others. -/
theorem Shows.foldl_erase (h : Shows ix f m) {keys : List EdgeKey} :
    k ∈ (keys.foldl (fun ix key => ix.erase (f key) key) ix).find id ↔
      (k ∈ m ∧ k ∉ keys) ∧ f k = id := by
  rw [Index.mem_find_foldl_erase, h]
  constructor
  · rintro ⟨⟨hk, hid⟩, hkeys⟩
    exact ⟨⟨hk, fun hmem => hkeys ⟨hmem, hid⟩⟩, hid⟩
  · rintro ⟨⟨hk, hkeys⟩, hid⟩
    exact ⟨⟨hk, hid⟩, fun hmem => hkeys hmem.1⟩

theorem Shows.erase (h : Shows ix f m) : Shows (ix.erase (f key) key) f (m.erase key) := by
  intro id k
  have hkeys : k ∈ ([key].foldl (fun ix key => ix.erase (f key) key) ix).find id ↔
      (k ∈ m ∧ k ∉ [key]) ∧ f k = id := h.foldl_erase
  rw [List.foldl_cons, List.foldl_nil, List.mem_singleton] at hkeys
  have hne : compare key k ≠ .eq ↔ ¬ k = key := by
    rw [Ne, Std.LawfulEqCmp.compare_eq_iff_eq, eq_comm]
  rw [hkeys, Std.ExtTreeMap.mem_erase, hne, and_comm (a := k ∈ m)]

/-- An index of all relations by one of their ends. -/
theorem shows_foldl_insert :
    Shows (m.keys.foldl (fun ix key => ix.insert (f key) key) ∅) f m := by
  intro id k
  rw [Index.mem_find_foldl_insert]
  simp only [Index.not_mem_find_empty, false_or, Std.ExtTreeMap.mem_keys]
  constructor
  · rintro ⟨key, hk, hid, rfl⟩
    exact ⟨hk, hid⟩
  · rintro ⟨hk, hid⟩
    exact ⟨k, hk, hid, rfl⟩

end

/-! ## Relations -/

@[simp] theorem eraseEdge_nodes : (s.eraseEdge key).nodes = s.nodes := by
  unfold eraseEdge; split <;> rfl

/-- Erasing a relation takes away what stands under its key and nothing else. -/
theorem getElem?_eraseEdge :
    (s.eraseEdge key).edges[k]? = if k = key then none else s.edges[k]? := by
  unfold eraseEdge
  split
  · by_cases hk : key = k
    · subst hk
      simp
    · simp [Std.ExtTreeMap.getElem?_erase, hk, Ne.symm hk]
  · next hc =>
    split
    · next hk =>
      subst hk
      rwa [Bool.not_eq_true, Std.ExtTreeMap.contains_eq_isSome_getElem?,
        Option.isSome_eq_false_iff, Option.isNone_iff_eq_none] at hc
    · rfl

/-- Erasing several relations takes away what stands under their keys and nothing else. -/
theorem getElem?_foldl_eraseEdge {keys : List EdgeKey} :
    (keys.foldl eraseEdge s).edges[k]? = if k ∈ keys then none else s.edges[k]? := by
  induction keys generalizing s with
  | nil => simp
  | cons key keys ih =>
    rw [List.foldl_cons, ih, getElem?_eraseEdge]
    by_cases hk : k = key <;> simp [hk]

/-- Erasing the relations that touch an id leaves the others. -/
theorem getElem?_foldl_eraseEdge_touching {keys : List EdgeKey}
    (hkeys : ∀ {k}, k ∈ keys ↔ k ∈ s.edges ∧ k.Touches id) :
    (keys.foldl eraseEdge s).edges[k]? = if k.Touches id then none else s.edges[k]? := by
  rw [getElem?_foldl_eraseEdge]
  by_cases htouch : k.Touches id
  · rw [if_pos htouch]
    split
    · rfl
    · next hnot =>
      refine Option.eq_none_iff_forall_ne_some.2 fun e he => hnot ?_
      exact hkeys.2 ⟨mem_edges_iff.2 ⟨e, he⟩, htouch⟩
  · rw [if_neg htouch, if_neg fun hk => htouch (hkeys.1 hk).2]

theorem foldl_eraseEdge_nodes {keys : List EdgeKey} :
    (keys.foldl eraseEdge s).nodes = s.nodes := by
  induction keys generalizing s with
  | nil => rfl
  | cons key keys ih => rw [List.foldl_cons, ih, eraseEdge_nodes]

/-- Erasing a relation keeps a store coherent. -/
theorem Coherent.eraseEdge (h : s.Coherent) : (s.eraseEdge key).Coherent := by
  unfold Store.eraseEdge
  split
  · refine ⟨h.node_id, fun he => h.edge_key (getElem?_of_erase he), h.mem_names, ?_, ?_,
      h.names_tight, h.outgoing_tight.erase, h.incoming_tight.erase⟩
    · exact Shows.erase h.mem_outgoing
    · exact Shows.erase h.mem_incoming
  · exact h

/-- Erasing several relations keeps a store coherent. -/
theorem Coherent.foldl_eraseEdge (h : s.Coherent) {keys : List EdgeKey} :
    (keys.foldl Store.eraseEdge s).Coherent := by
  induction keys generalizing s with
  | nil => exact h
  | cons _ _ ih => exact ih h.eraseEdge

/-- Inserting a relation keeps a store coherent. -/
theorem Coherent.insertEdge (h : s.Coherent) : (s.insertEdge e).Coherent where
  node_id := h.node_id
  edge_key {k e'} he := by
    rcases getElem?_insert_eq_some.1 he with ⟨rfl, rfl⟩ | ⟨_, he⟩
    · rfl
    · exact h.edge_key he
  mem_names := h.mem_names
  mem_outgoing := Shows.insert h.mem_outgoing
  mem_incoming := Shows.insert h.mem_incoming
  names_tight := h.names_tight
  outgoing_tight := h.outgoing_tight.insert
  incoming_tight := h.incoming_tight.insert

/-- Giving a relation another value keeps a store coherent. -/
theorem Coherent.setEdge (h : s.Coherent) (hk : key ∈ s.edges) (he : e.toEdgeKey = key) :
    (s.setEdge key e).Coherent := by
  have hmem : ∀ {k}, k ∈ (s.setEdge key e).edges ↔ k ∈ s.edges := by
    intro k
    simp only [Store.setEdge, Std.ExtTreeMap.mem_insert, Std.LawfulEqCmp.compare_eq_iff_eq]
    exact ⟨fun hor => hor.elim (· ▸ hk) id, .inr⟩
  refine ⟨h.node_id, ?_, h.mem_names, ?_, ?_, h.names_tight, h.outgoing_tight, h.incoming_tight⟩
  · intro k e' he'
    rcases getElem?_insert_eq_some.1 he' with ⟨rfl, rfl⟩ | ⟨_, he'⟩
    · exact he
    · exact h.edge_key he'
  · intro id k
    rw [hmem]
    exact h.mem_outgoing
  · intro id k
    rw [hmem]
    exact h.mem_incoming

/-! ## Entities and their relations -/

/-- An id without an entity is not taken out. -/
theorem removeNode_eq_none (hn : s.nodes[id]? = none) : s.removeNode id = none := by
  rw [removeNode, removeNodeOnly, hn]
  rfl

/-- An entity that is taken out leaves the other entities, and the relations that do not touch
it. -/
theorem Coherent.removeNode_eq_some (h : s.Coherent) (hn : s.nodes[id]? = some n) :
    ∃ s', s.removeNode id = some (n, s') ∧ s'.Coherent ∧ s'.nodes = s.nodes.erase id ∧
      ∀ key : EdgeKey, s'.edges[key]? = if key.Touches id then none else s.edges[key]? := by
  have hdrop : (s.dropNode id n).Coherent := h.dropNode hn
  refine ⟨_, by rw [removeNode, removeNodeOnly, hn]; rfl, hdrop.foldl_eraseEdge,
    foldl_eraseEdge_nodes, fun key => ?_⟩
  exact getElem?_foldl_eraseEdge_touching hdrop.mem_touching

/-! ## Settling -/

/-- Settling a relation resolves it, if it was not resolved before. -/
theorem settle_eq (h : s.settle e = some e') : e' = { e with resolved := true } := by
  unfold settle at h
  split at h
  · next hr =>
    cases h
    rw [← hr]
  · split at h <;> cases h
    rfl

/-- A relation is settled exactly if it is resolved or has both ends. -/
theorem settle_eq_ite (e : Edge) : s.settle e =
    if e.resolved = true ∨ s.hasEnds e.toEdgeKey = true then some { e with resolved := true }
    else none := by
  unfold settle
  by_cases hr : e.resolved = true
  · rw [if_pos hr, if_pos (.inl hr), ← hr]
  · rw [if_neg hr]
    exact if_congr (or_iff_right hr).symm rfl rfl

theorem resolve_nodes : s.resolve.2.nodes = s.nodes := rfl

/-- Resolving a store settles what stands under each key. -/
theorem getElem?_resolve : s.resolve.2.edges[k]? = s.edges[k]?.bind s.settle := by
  simp [resolve]

/-- The keys that resolving drops are those of the relations that cannot be settled. -/
theorem mem_dangling :
    k ∈ (s.edges.toList.filter fun (_, e) => (s.settle e).isNone).map (·.1) ↔
      ∃ e, s.edges[k]? = some e ∧ s.settle e = none := by
  simp only [List.mem_map, List.mem_filter, Option.isNone_iff_eq_none]
  constructor
  · rintro ⟨⟨key, e⟩, ⟨hm, he⟩, rfl⟩
    exact ⟨e, Std.ExtTreeMap.mem_toList_iff_getElem?_eq_some.1 hm, he⟩
  · rintro ⟨e, hk, he⟩
    exact ⟨(k, e), ⟨Std.ExtTreeMap.mem_toList_iff_getElem?_eq_some.2 hk, he⟩, rfl⟩

/-- Resolving keeps a store coherent. -/
theorem Coherent.resolve (h : s.Coherent) : s.resolve.2.Coherent := by
  have hmem : ∀ {k}, k ∈ s.resolve.2.edges ↔ k ∈ s.edges ∧
      k ∉ (s.edges.toList.filter fun (_, e) => (s.settle e).isNone).map (·.1) := by
    intro k
    rw [mem_dangling, mem_edges_iff, mem_edges_iff, getElem?_resolve]
    cases hk : s.edges[k]? with
    | none => simp
    | some e => cases hs : s.settle e <;> simp [hs]
  refine ⟨h.node_id, ?_, h.mem_names, ?_, ?_, h.names_tight, h.outgoing_tight.foldl_erase,
    h.incoming_tight.foldl_erase⟩
  · intro k e' he'
    rw [getElem?_resolve] at he'
    obtain ⟨e, he, hs⟩ := Option.bind_eq_some_iff.1 he'
    have hkey : e.toEdgeKey = k := h.edge_key he
    rw [settle_eq hs, hkey]
  · intro id k
    rw [hmem]
    exact Shows.foldl_erase h.mem_outgoing
  · intro id k
    rw [hmem]
    exact Shows.foldl_erase h.mem_incoming

/-- Resolving leaves the relations that are resolved or have both ends. -/
theorem Coherent.getElem?_resolve (h : s.Coherent) : s.resolve.2.edges[k]? =
    s.edges[k]?.bind fun e =>
      if e.resolved = true ∨ s.hasEnds k = true then some { e with resolved := true }
      else none := by
  rw [Store.getElem?_resolve]
  refine Option.bind_congr fun e he => ?_
  have hkey : e.toEdgeKey = k := h.edge_key he
  rw [settle_eq_ite, hkey]

/-! ## Computing the indices anew -/

/-- Whatever the indices of a store were, computed anew they show its entities and relations. -/
theorem coherent_reindex (hn : ∀ {id : String} {n}, s.nodes[id]? = some n → n.id = id)
    (he : ∀ {key : EdgeKey} {e}, s.edges[key]? = some e → e.toEdgeKey = key) :
    s.reindex.Coherent where
  node_id := hn
  edge_key := he
  mem_names {name id} := by
    simp only [reindex, Index.mem_find_foldl_insert, Index.not_mem_find_empty, false_or, nodeList,
      List.mem_map]
    constructor
    · rintro ⟨n, ⟨⟨i, _⟩, hm, rfl⟩, rfl, rfl⟩
      have := Std.ExtTreeMap.mem_toList_iff_getElem?_eq_some.1 hm
      rw [hn this]
      exact ⟨_, this, rfl⟩
    · rintro ⟨n, hm, rfl⟩
      exact ⟨n, ⟨(id, n), Std.ExtTreeMap.mem_toList_iff_getElem?_eq_some.2 hm, rfl⟩, rfl, hn hm⟩
  mem_outgoing := shows_foldl_insert
  mem_incoming := shows_foldl_insert
  names_tight := Index.tight_empty.foldl_insert
  outgoing_tight := Index.tight_empty.foldl_insert
  incoming_tight := Index.tight_empty.foldl_insert

/-- Computing the indices of a coherent store anew changes nothing. -/
theorem Coherent.reindex_eq (h : s.Coherent) : s.reindex = s :=
  (coherent_reindex h.node_id h.edge_key).ext h rfl rfl

/-- In a map into which values have been put under their own keys, every value stands under its
own key. -/
theorem key_of_getElem?_foldl_insert {α κ : Type} [Ord κ] [Std.TransOrd κ] [Std.LawfulEqOrd κ]
    {f : α → κ} {g : α → α} (hg : ∀ a, f (g a) = f a) {l : List α} {m : Std.ExtTreeMap κ α}
    (hm : ∀ {k : κ} {a}, m[k]? = some a → f a = k) {k : κ} {a : α}
    (h : (l.foldl (fun m a => m.insert (f a) (g a)) m)[k]? = some a) : f a = k := by
  induction l generalizing m with
  | nil => exact hm h
  | cons b l ih =>
    refine ih (fun {k a} hk => ?_) h
    rcases getElem?_insert_eq_some.1 hk with ⟨rfl, rfl⟩ | ⟨_, hk⟩
    · exact hg b
    · exact hm hk

/-- The store of any entities and relations is coherent. -/
theorem coherent_ofLists (nodes : List Node) (edges : List Edge) :
    (ofLists nodes edges).Coherent := by
  refine coherent_reindex ?_ ?_
  · intro id n hn
    exact key_of_getElem?_foldl_insert (f := Node.id) Node.takeLabel_id
      (m := ∅) (fun h => by simp at h) hn
  · intro key e he
    exact key_of_getElem?_foldl_insert (f := Edge.toEdgeKey) (g := id) (fun _ => rfl)
      (m := ∅) (fun h => by simp at h) he

end

end ArchFacts.Store
