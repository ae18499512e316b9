import ArchFacts.Proofs.Snapshot.RoundTrip

/-!
# What bytes decode to

Bytes that are decoded begin with the header of snapshots and list entities and relations
(`Lists`), and the store they decode to is the store of these lists (`decode_eq_ok_iff`). Of several
entities with one id or relations with one key it holds the last, labels become names, and
self-containments are left out. Nothing else is repaired: lists of values are taken as they are, and
so are relations that give an entity several parents. The store is well-formed exactly if the lists
are orderly in these respects (`wellFormed_decode_iff`).
-/

namespace ArchFacts

namespace Store

section
variable {nodes : List Node} {edges : List Edge} {key : EdgeKey}

/-- Whether lists of entities and relations make a well-formed store: of what the store takes from
them, no key is without values or has a value twice, and no entity has two parents. -/
structure Orderly (nodes : List Node) (edges : List Edge) : Prop where
  node_proper : ∀ {id n}, nodes.reverse.find? (·.id = id) = some n →
    (n.attributes.erase labelKey).Proper
  edge_proper : ∀ {key e}, edges.reverse.find? (·.toEdgeKey = key) = some e →
    key.isSelfContainment = false → e.attributes.Proper
  parent_unique : ∀ {e e'}, e ∈ edges → e' ∈ edges → e.kind = .contains → e'.kind = .contains →
    e.dest = e'.dest → e.source ≠ e.dest → e'.source ≠ e'.dest → e.source = e'.source

/-- The keys of the store of some lists are those of the relations, self-containments apart. -/
theorem mem_edges_ofLists :
    key ∈ (ofLists nodes edges).edges ↔
      key.isSelfContainment = false ∧ ∃ e ∈ edges, e.toEdgeKey = key := by
  rw [mem_edges_iff, getElem?_edges_ofLists]
  split
  · next hself => simp [hself]
  · next hself =>
    simp only [Bool.not_eq_true] at hself
    rw [← Option.isSome_iff_exists, List.find?_isSome]
    simp [hself]

/-- Lists that make a well-formed store are orderly. -/
theorem WellFormed.orderly (h : (ofLists nodes edges).WellFormed) : Orderly nodes edges := by
  constructor
  case node_proper =>
    intro id n hn
    have hget : (ofLists nodes edges).nodes[id]? = some n.takeLabel := by
      rw [getElem?_nodes_ofLists, hn]
      rfl
    exact h.node_proper hget
  case edge_proper =>
    intro key e he hself
    have hget : (ofLists nodes edges).edges[key]? = some e := by
      rw [getElem?_edges_ofLists, if_neg (by simp [hself]), he]
    exact h.edge_proper hget
  case parent_unique =>
    intro e e' he he' hk hk' hd hself hself'
    have hmem : e.toEdgeKey ∈ (ofLists nodes edges).edges :=
      mem_edges_ofLists.2 ⟨by simp [EdgeKey.isSelfContainment, hself], e, he, rfl⟩
    have hmem' : e'.toEdgeKey ∈ (ofLists nodes edges).edges :=
      mem_edges_ofLists.2 ⟨by simp [EdgeKey.isSelfContainment, hself'], e', he', rfl⟩
    exact congrArg EdgeKey.source (h.parent_unique hmem hmem' hk hk' hd)

/-- Orderly lists make a well-formed store. -/
theorem Orderly.wellFormed (h : Orderly nodes edges) : (ofLists nodes edges).WellFormed := by
  have hc : (ofLists nodes edges).Canonical := canonical_ofLists nodes edges
  constructor
  case node_id => exact hc.coherent.node_id
  case edge_key => exact hc.coherent.edge_key
  case not_selfContainment => exact hc.not_selfContainment
  case no_label => exact hc.no_label
  case parent_unique =>
    intro k k' hk hk' hck hck' hd
    obtain ⟨hself, e, he, rfl⟩ := mem_edges_ofLists.1 hk
    obtain ⟨hself', e', he', rfl⟩ := mem_edges_ofLists.1 hk'
    simp only [EdgeKey.isSelfContainment, hck, hck', decide_true, Bool.true_and,
      decide_eq_false_iff_not] at hself hself'
    have hsource := h.parent_unique he he' hck hck' hd hself hself'
    have hext : ∀ k k' : EdgeKey, k.source = k'.source → k.dest = k'.dest → k.kind = k'.kind →
        k = k' := by
      rintro ⟨_, _, _⟩ ⟨_, _, _⟩ rfl rfl rfl
      rfl
    exact hext _ _ hsource hd (hck.trans hck'.symm)
  case node_proper =>
    intro id n hn
    rw [getElem?_nodes_ofLists] at hn
    obtain ⟨m, hm, rfl⟩ := Option.map_eq_some_iff.1 hn
    exact h.node_proper hm
  case edge_proper =>
    intro key e he
    rw [getElem?_edges_ofLists] at he
    split at he
    · cases he
    · next hself => exact h.edge_proper he (by simpa using hself)

end

end Store

namespace Snapshot

section
variable {bytes : ByteArray} {s : Store} {nodes : List Node} {edges : List Edge}

/-- Whether some bytes, read as a snapshot, list these entities and these relations. -/
def Lists (bytes : ByteArray) (nodes : List Node) (edges : List Edge) : Prop :=
  bytes.size ≤ sizeLimit ∧ ∃ payload rest rest', bytes.data.toList =
    Header.current.toBytes ++ payload ∧ getList getNode payload = .ok (nodes, rest) ∧
    getList getEdge rest = .ok (edges, rest')

/-- Only bytes that begin with a header are read as a header and more. -/
theorem Header.ofBytes_eq_ok_iff {bytes payload : List UInt8} {header : Header} :
    Header.ofBytes bytes = .ok (header, payload) ↔ bytes = header.toBytes ++ payload := by
  constructor
  · intro h
    unfold Header.ofBytes at h
    split at h
    · cases h
      rfl
    · cases h
  · rintro rfl
    rfl

/-- A header has no problem exactly if it is the current one. -/
theorem Header.problem?_eq_none_iff {header : Header} :
    header.problem? = none ↔ header = Header.current := by
  constructor
  · intro h
    unfold Header.problem? at h
    split at h
    · cases h
    · next hmagic =>
      split at h
      · cases h
      · next hversion =>
        obtain ⟨magic, version⟩ := header
        simp only [ne_eq, Decidable.not_not] at hmagic hversion
        rw [hmagic, hversion, Header.current]
  · rintro rfl
    decide

/-- Bytes are a snapshot exactly if they are the current header and then a store. -/
theorem ofBytes_eq_ok_iff {bytes : List UInt8} : ofBytes bytes = .ok s ↔
    ∃ payload rest, bytes = Header.current.toBytes ++ payload ∧
      getStore payload = .ok (s, rest) := by
  constructor
  · intro h
    obtain ⟨⟨header, payload⟩, hheader, h⟩ := bind_eq_ok_iff.1 h
    dsimp only at h
    split at h
    · cases h
    · next hproblem =>
      obtain ⟨⟨s', rest⟩, hstore, rfl⟩ := map_eq_ok_iff.1 (mapError_eq_ok_iff.1 h)
      rw [Header.ofBytes_eq_ok_iff, Header.problem?_eq_none_iff.1 hproblem] at hheader
      exact ⟨payload, rest, hheader, hstore⟩
  · rintro ⟨payload, rest, rfl, hstore⟩
    have hproblem : Header.current.problem? = none := Header.problem?_eq_none_iff.2 rfl
    rw [ofBytes, Header.ofBytes_eq_ok_iff.2 rfl, ok_bind]
    simp only [hproblem, hstore]
    rfl

/-- Bytes are decoded exactly if they list entities and relations, and to the store of these. -/
theorem decode_eq_ok_iff :
    decode bytes = .ok s ↔ ∃ nodes edges, Lists bytes nodes edges ∧ s = .ofLists nodes edges := by
  rw [decode, mapError_eq_ok_iff]
  constructor
  · intro h
    split at h
    · cases h
    · next hsize =>
      obtain ⟨payload, rest', hbytes, hstore⟩ := ofBytes_eq_ok_iff.1 h
      obtain ⟨⟨nodes, rest⟩, hnodes, hstore⟩ := bind_eq_ok_iff.1 hstore
      obtain ⟨⟨edges, rest''⟩, hedges, hstore⟩ := bind_eq_ok_iff.1 hstore
      cases hstore
      exact ⟨nodes, edges, ⟨Nat.not_lt.1 hsize, payload, rest, rest', hbytes, hnodes, hedges⟩, rfl⟩
  · rintro ⟨nodes, edges, ⟨hsize, payload, rest, rest', hbytes, hnodes, hedges⟩, rfl⟩
    rw [if_neg (Nat.not_lt.2 hsize), ofBytes_eq_ok_iff]
    refine ⟨payload, rest', hbytes, ?_⟩
    simp only [getStore, hnodes, hedges, ok_bind]
    rfl

/-- **What a snapshot decodes to.** Bytes that are decoded list entities and relations, and the
store holds the last entity with each id, its label turned into its name, and the last relation with
each key, self-containments apart. Its indices are in step, no entity has a label, and nothing
contains itself. All further rules on stores hold exactly if the lists are orderly. -/
theorem wellFormed_decode_iff (h : decode bytes = .ok s) :
    ∃ nodes edges, Lists bytes nodes edges ∧
      (∀ id, s.node? id = (nodes.reverse.find? (·.id = id)).map Node.takeLabel) ∧
      (∀ key, s.edge? key =
        if key.isSelfContainment then none else edges.reverse.find? (·.toEdgeKey = key)) ∧
      s.Canonical ∧ (s.WellFormed ↔ Store.Orderly nodes edges) := by
  obtain ⟨nodes, edges, hlists, rfl⟩ := decode_eq_ok_iff.1 h
  exact ⟨nodes, edges, hlists, fun _ => Store.getElem?_nodes_ofLists,
    fun _ => Store.getElem?_edges_ofLists, Store.canonical_ofLists nodes edges,
    Store.WellFormed.orderly, Store.Orderly.wellFormed⟩

/-- Relations that give an entity two parents, one of them with a key without values and a value
that stands twice. -/
def disorderly : List Edge :=
  [{ source := "a", dest := "c", kind := .contains },
    { source := "b", dest := "c", kind := .contains
      attributes := .ofLists [("e", []), ("k", ["v", "v"])] }]

/-- The snapshot of these relations. -/
def disorderlyBytes : ByteArray :=
  ⟨#[0x46, 0x42, 0x53, 0x4E, 1, 0, 2, 1, 0x61, 1, 0x63, 0, 0, 0, 1, 0x62, 1, 0x63, 0, 0, 2,
    1, 0x65, 0, 1, 0x6B, 2, 1, 0x76, 1, 0x76]⟩

theorem encode_disorderly : encode (.ofLists [] disorderly) = disorderlyBytes := by
  have hbytes : toBytes (.ofLists [] disorderly) = disorderlyBytes.data.toList := by decide +kernel
  rw [encode, hbytes]

theorem decode_disorderlyBytes : decode disorderlyBytes = .ok (.ofLists [] disorderly) := by
  have hsize : (encode (.ofLists [] disorderly)).size ≤ sizeLimit := by
    rw [encode_disorderly]
    decide
  rw [← encode_disorderly]
  exact decode_encode (Store.canonical_ofLists [] disorderly) hsize

theorem wellFormed_decode_disorderly :
    decode disorderlyBytes = .ok (.ofLists [] disorderly) ∧
      ∃ nodes edges, Lists disorderlyBytes nodes edges ∧
        (∀ id, (Store.ofLists [] disorderly).node? id =
          (nodes.reverse.find? (·.id = id)).map Node.takeLabel) ∧
        (∀ key, (Store.ofLists [] disorderly).edge? key =
          if key.isSelfContainment then none else edges.reverse.find? (·.toEdgeKey = key)) ∧
        (Store.ofLists [] disorderly).Canonical ∧
        ((Store.ofLists [] disorderly).WellFormed ↔ Store.Orderly nodes edges) :=
  ⟨decode_disorderlyBytes, wellFormed_decode_iff decode_disorderlyBytes⟩

/-- Bytes may decode to a store in which an entity has two parents, a key has no values, and a value
stands twice under a key. -/
theorem decode_disorderly : ∃ s, decode disorderlyBytes = .ok s ∧
    (⟨"a", "c", .contains⟩ : EdgeKey) ∈ s.edges ∧
    ∃ e, s.edge? ⟨"b", "c", .contains⟩ = some e ∧
      e.attributes.entries["e"]? = some [] ∧ e.attributes.entries["k"]? = some ["v", "v"] ∧
      ¬ s.WellFormed := by
  have hfirst : (⟨"a", "c", .contains⟩ : EdgeKey) ∈ (Store.ofLists [] disorderly).edges :=
    Store.mem_edges_ofLists.2 ⟨rfl, _, List.mem_cons_self, rfl⟩
  have hsecond : (Store.ofLists [] disorderly).edge? ⟨"b", "c", .contains⟩ =
      some { source := "b", dest := "c", kind := .contains
             attributes := .ofLists [("e", []), ("k", ["v", "v"])] } := by
    rw [Store.edge?, Store.getElem?_edges_ofLists]
    simp [disorderly, EdgeKey.isSelfContainment]
  refine ⟨_, decode_disorderlyBytes, hfirst, _, hsecond, ?_, ?_, fun h => ?_⟩
  · simp [Attributes.ofLists, Std.ExtTreeMap.getElem_insert]
  · simp [Attributes.ofLists]
  · have hsame := h.parent_unique hfirst (Store.mem_edges_iff.2 ⟨_, hsecond⟩) rfl rfl rfl
    exact absurd (congrArg EdgeKey.source hsame) (by decide)

end

end Snapshot

end ArchFacts
