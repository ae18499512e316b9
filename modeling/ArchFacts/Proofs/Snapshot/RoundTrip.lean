import ArchFacts.Proofs.Snapshot.Codec
import ArchFacts.Proofs.Store.WellFormed
import ArchFacts.Snapshot.Basic

/-!
# Snapshots read back

A store whose indices are in step, in which no entity has a label and nothing contains itself, is
`Canonical`: it is the store of its own lists (`Canonical.ofLists_eq`). Every store of lists is
canonical (`canonical_ofLists`). So decoding the snapshot of a canonical store gives the store back
in full, whatever follows the snapshot, as long as all of it is within the limit of size
(`decode_encode_append`).
-/

namespace ArchFacts

namespace Store

/-- Stores that are the stores of their own lists: indices are in step, no entity has a label, and
nothing contains itself. -/
structure Canonical (s : Store) : Prop where
  coherent : s.Coherent
  no_label : ∀ {id : String} {n}, s.nodes[id]? = some n → labelKey ∉ n.attributes.entries
  not_selfContainment : ∀ {key}, key ∈ s.edges → key.isSelfContainment = false

section
variable {s : Store}

theorem WellFormed.canonical (h : s.WellFormed) (hc : s.Coherent) : s.Canonical :=
  ⟨hc, h.no_label, h.not_selfContainment⟩

/-! ## Stores of lists -/

variable {nodes : List Node} {edges : List Edge} {key : EdgeKey} {id : String}

theorem nodes_ofLists : (ofLists nodes edges).nodes =
    nodes.foldl (fun m n => m.insert n.id n.takeLabel) ∅ := rfl

theorem edges_ofLists : (ofLists nodes edges).edges =
    (edges.filter (!·.isSelfContainment)).foldl (fun m e => m.insert e.toEdgeKey e) ∅ := rfl

/-- Under an id stands the last entity with this id, its label turned into its name. -/
theorem getElem?_nodes_ofLists :
    (ofLists nodes edges).nodes[id]? = (nodes.reverse.find? (·.id = id)).map Node.takeLabel := by
  rw [nodes_ofLists, getElem?_foldl_insert, Std.ExtTreeMap.getElem?_empty, Option.or_none]

/-- Under a key stands the last relation with this key, unless it is a self-containment. -/
theorem getElem?_edges_ofLists :
    (ofLists nodes edges).edges[key]? =
      if key.isSelfContainment then none else edges.reverse.find? (·.toEdgeKey = key) := by
  rw [edges_ofLists, getElem?_foldl_insert (g := fun e => e), Std.ExtTreeMap.getElem?_empty,
    Option.or_none, Option.map_id_fun', id, ← List.filter_reverse, List.find?_filter]
  split
  · next hself =>
    refine List.find?_eq_none.2 fun e _ => ?_
    simp only [decide_eq_true_eq, not_and]
    rintro he rfl
    simp [hself] at he
  · next hself =>
    refine congrArg (edges.reverse.find? ·) (funext fun e => ?_)
    by_cases he : e.toEdgeKey = key <;> simp [he, hself]

/-- A canonical store is the store of its own lists. -/
theorem Canonical.ofLists_eq (h : s.Canonical) : ofLists s.nodeList s.edgeList = s := by
  have hself : s.edgeList.filter (!·.isSelfContainment) = s.edgeList := by
    refine List.filter_eq_self.2 fun e he => ?_
    have hmem : e.toEdgeKey ∈ s.edges := mem_edges_iff.2 ⟨e, (mem_edgeList h.coherent).1 he⟩
    simp [h.not_selfContainment hmem]
  refine (coherent_ofLists _ _).ext h.coherent ?_ ?_
  · exact foldl_insert_values fun hn =>
      ⟨h.coherent.node_id hn, Node.takeLabel_eq (h.no_label hn)⟩
  · rw [edges_ofLists, hself]
    exact foldl_insert_values (g := id) fun he => ⟨h.coherent.edge_key he, rfl⟩

/-- The store of any lists is canonical. -/
theorem canonical_ofLists (nodes : List Node) (edges : List Edge) :
    (ofLists nodes edges).Canonical where
  coherent := coherent_ofLists nodes edges
  no_label {id n} hn := by
    rw [getElem?_nodes_ofLists] at hn
    obtain ⟨m, -, rfl⟩ := Option.map_eq_some_iff.1 hn
    exact m.labelKey_not_mem_takeLabel
  not_selfContainment {key} hk := by
    obtain ⟨e, he⟩ := mem_edges_iff.1 hk
    rw [getElem?_edges_ofLists] at he
    split at he
    · cases he
    · next hself => simpa using hself

end

end Store

namespace Snapshot

section
variable {s : Store}

/-- What is written of a store is read back as the store of its lists, whatever follows. -/
theorem getStore_putStore (h : (putStore s).length < 2 ^ 64) (rest : List UInt8) :
    getStore (putStore s ++ rest) = .ok (.ofLists s.nodeList s.edgeList, rest) := by
  rw [putStore, List.length_append] at h
  have hnode : ∀ n, putNode n ≠ [] := fun n => by simp [putNode, putText_ne_nil]
  have hedge : ∀ e, putEdge e ≠ [] := fun e => by simp [putEdge, putText_ne_nil]
  have hnodes : Restores (putList putNode) (getList getNode) s.nodeList :=
    restores_list hnode (fun _ => restores_node) (by omega)
  have hedges : Restores (putList putEdge) (getList getEdge) s.edgeList :=
    restores_list hedge (fun _ => restores_edge) (by omega)
  simp only [getStore, putStore, List.append_assoc, hnodes _, hedges _, ok_bind]
  rfl

/-- **A snapshot reads back.** The snapshot of a canonical store is decoded to the store, whatever
follows the snapshot within the limit of size. -/
theorem decode_encode_append (h : s.Canonical) {tail : ByteArray}
    (hsize : (encode s ++ tail).size ≤ sizeLimit) : decode (encode s ++ tail) = .ok s := by
  have hbytes : (encode s ++ tail).data.toList =
      Header.current.toBytes ++ (putStore s ++ tail.data.toList) := by
    simp [encode, toBytes]
  have hlength : (putStore s).length < 2 ^ 64 := by
    rw [← ByteArray.size_data, ← Array.length_toList, hbytes, List.length_append,
      List.length_append] at hsize
    have hlimit : sizeLimit < 2 ^ 64 := by decide
    omega
  have hstore : ofBytes (Header.current.toBytes ++ (putStore s ++ tail.data.toList)) = .ok s := by
    have hpayload := getStore_putStore hlength tail.data.toList
    rw [h.ofLists_eq] at hpayload
    have hheader : Header.ofBytes (Header.current.toBytes ++ (putStore s ++ tail.data.toList)) =
      .ok (Header.current, putStore s ++ tail.data.toList) := rfl
    have hproblem : Header.current.problem? = none := by decide
    simp only [ofBytes, hheader, ok_bind, hproblem, hpayload]
    rfl
  rw [decode, if_neg (Nat.not_lt.2 hsize), hbytes, hstore]
  rfl

/-- The snapshot of a canonical store is decoded to the store, if it is within the limit of size. -/
theorem decode_encode (h : s.Canonical) (hsize : (encode s).size ≤ sizeLimit) :
    decode (encode s) = .ok s := by
  have happend : encode s ++ ByteArray.empty = encode s := ByteArray.append_empty
  have hdecode := decode_encode_append h (happend.symm ▸ hsize)
  rwa [happend] at hdecode

end

end Snapshot

end ArchFacts
