import ArchFacts.Proofs.History

/-!
# Taking an entity out

To take an entity out with its relations is to take it out alone, and after that every relation that
touches it. The relations are found through the indices, which the removal of each changes; but in a
coherent store these show all of them (`Coherent.mem_touching`), and what is left does not depend on
the order (`Coherent.removeEdges_touching`). After that the indices do not speak of the entity any
more (`Coherent.unindexed`), and under its name it is the only one that is lost
(`Coherent.nodesNamed_erase`). The main statement is `removeNode_exact`.
-/

namespace ArchFacts.Store

/-- Takes relations out, one after the other, if all of them are there. -/
def removeEdges (s : Store) (keys : List EdgeKey) : Option Store :=
  keys.foldlM (fun s key => (s.removeEdge key).map (·.2)) s

section
variable {s s' : Store} {id : String} {n : Node}

/-! ## Relations -/

/-- Relations that are there are all taken out. -/
theorem removeEdges_eq_some {keys : List EdgeKey} (hd : keys.Nodup)
    (hmem : ∀ key ∈ keys, key ∈ s.edges) : s.removeEdges keys = some (keys.foldl eraseEdge s) := by
  induction keys generalizing s with
  | nil => rfl
  | cons key keys ih =>
    obtain ⟨hnot, hd⟩ := List.nodup_cons.1 hd
    obtain ⟨e, he⟩ := mem_edges_iff.1 (hmem key (by simp))
    have hrest : ∀ k ∈ keys, k ∈ (s.eraseEdge key).edges := by
      intro k hk
      have hne : k ≠ key := fun heq => hnot (heq ▸ hk)
      rw [mem_edges_iff, getElem?_eraseEdge, if_neg hne, ← mem_edges_iff]
      exact hmem k (by simp [hk])
    rw [removeEdges, List.foldlM_cons, removeEdge, he]
    exact ih hd hrest

/-! ## Entities -/

/-- Taken out alone, with its relations taken out afterwards in any order, an entity leaves the
same. -/
theorem Coherent.removeEdges_touching (hc : s.Coherent) (hn : s.nodes[id]? = some n)
    (h : s.removeNode id = some (n, s')) {edges : List Edge}
    (hperm : edges.Perm (s.edgeList.filter fun e => e.Touches id)) :
    (s.dropNode id n).removeEdges (edges.map (·.toEdgeKey)) = some s' := by
  have hdrop : (s.dropNode id n).Coherent := hc.dropNode hn
  have hmem : ∀ {key}, key ∈ edges.map (·.toEdgeKey) ↔
      key ∈ (s.dropNode id n).edges ∧ key.Touches id := by
    intro key
    rw [(hperm.map _).mem_iff, List.mem_map, mem_edges_iff]
    simp only [List.mem_filter, mem_edgeList hc, decide_eq_true_eq]
    constructor
    · rintro ⟨e, ⟨he, htouch⟩, rfl⟩
      exact ⟨⟨e, he⟩, htouch⟩
    · rintro ⟨⟨e, he⟩, htouch⟩
      obtain rfl : e.toEdgeKey = key := hdrop.edge_key he
      exact ⟨e, ⟨he, htouch⟩, rfl⟩
  have hd : (edges.map (·.toEdgeKey)).Nodup := by
    rw [(hperm.map _).nodup_iff]
    exact List.pairwise_map.2 (hc.pairwise_key_ne.filter _)
  obtain ⟨s'', hs'', hc', hnodes, hedges⟩ := hc.removeNode_eq_some hn
  obtain rfl : s'' = s' := by
    rw [h] at hs''
    cases hs''
    rfl
  rw [removeEdges_eq_some hd fun key hk => (hmem.1 hk).1, Option.some.injEq]
  refine hdrop.foldl_eraseEdge.ext hc' (foldl_eraseEdge_nodes.trans hnodes.symm)
    (Std.ExtTreeMap.ext_getElem? fun key => ?_)
  rw [getElem?_foldl_eraseEdge_touching hmem, hedges]
  rfl

/-- An entity is found under its name. -/
theorem Coherent.mem_nodesNamed (hc : s.Coherent) (hn : s.nodes[id]? = some n) :
    n ∈ s.nodesNamed n.name := by
  rw [hc.nodesNamed_eq, List.mem_filter, mem_nodeList hc, hc.node_id hn]
  exact ⟨hn, decide_eq_true rfl⟩

/-- Without one entity the others are listed as before. -/
theorem Coherent.nodeList_erase (hc : s.Coherent) (hc' : s'.Coherent)
    (hnodes : s'.nodes = s.nodes.erase id) : s'.nodeList = s.nodeList.filter (·.id ≠ id) := by
  refine eq_of_pairwise_lt (f := Node.id) hc'.pairwise_nodeList (hc.pairwise_nodeList.filter _) ?_
  intro m
  rw [mem_nodeList hc', List.mem_filter, mem_nodeList hc, hnodes, Std.ExtTreeMap.getElem?_erase]
  by_cases hid : m.id = id
  · simp [hid]
  · simp [hid, Ne.symm hid]

/-- Without one entity the others are found under their names as before. -/
theorem Coherent.nodesNamed_erase (hc : s.Coherent) (hc' : s'.Coherent)
    (hnodes : s'.nodes = s.nodes.erase id) (name : String) :
    s'.nodesNamed name = (s.nodesNamed name).filter (·.id ≠ id) := by
  rw [hc'.nodesNamed_eq, hc.nodesNamed_eq, hc.nodeList_erase hc' hnodes, List.filter_filter,
    List.filter_filter]
  exact List.filter_congr fun m _ => Bool.and_comm _ _

/-- An id that stands for no entity and is touched by no relation is in none of the indices. -/
theorem Coherent.unindexed (hc : s.Coherent) (hn : s.nodes[id]? = none)
    (he : ∀ key ∈ s.edges, ¬ key.Touches id) :
    (∀ name, id ∉ s.names.find name) ∧
    (∀ i, ∀ key ∈ s.outgoing.find i, ¬ key.Touches id) ∧
    (∀ i, ∀ key ∈ s.incoming.find i, ¬ key.Touches id) ∧
    s.outgoing.sets[id]? = none ∧ s.incoming.sets[id]? = none := by
  have hout : ∀ i, ∀ key ∈ s.outgoing.find i, ¬ key.Touches id :=
    fun i key hk => he key (hc.mem_outgoing.1 hk).1
  have hin : ∀ i, ∀ key ∈ s.incoming.find i, ¬ key.Touches id :=
    fun i key hk => he key (hc.mem_incoming.1 hk).1
  refine ⟨?_, hout, hin, ?_, ?_⟩
  · intro name hname
    obtain ⟨m, hm, -⟩ := hc.mem_names.1 hname
    rw [hn] at hm
    cases hm
  · exact hc.outgoing_tight.getElem?_eq_none fun key hk =>
      hout id key hk (.inl (hc.mem_outgoing.1 hk).2)
  · exact hc.incoming_tight.getElem?_eq_none fun key hk =>
      hin id key hk (.inr (hc.mem_incoming.1 hk).2)

/-- **To take an entity out with its relations is to take it out alone, and then exactly the
relations that touch it.** After any history the removal of an id that has no entity does nothing.
Else it gives the entity, and leaves what the removal of the entity alone leaves after the relations
that start or end at it have been taken out in any order: the other entities and relations as they
were, nothing in the indices that speaks of the id, and under each name the entities that were there
but the one with the id, which was under its name. -/
theorem removeNode_exact (history : List Change) (id : String) :
    let s := after history
    (s.node? id = none → s.removeNode id = none ∧ (Change.removeNode id).run s = s) ∧
    ∀ n, s.node? id = some n → ∃ s' s₁,
      s.removeNode id = some (n, s') ∧ s.removeNodeOnly id = some (n, s₁) ∧
      (∀ edges : List Edge, edges.Perm (s.edgeList.filter fun e => e.Touches id) →
        s₁.removeEdges (edges.map (·.toEdgeKey)) = some s') ∧
      (∀ i, s'.node? i = if i = id then none else s.node? i) ∧
      (∀ key : EdgeKey, s'.edge? key = if key.Touches id then none else s.edge? key) ∧
      ((∀ name, id ∉ s'.names.find name) ∧
        (∀ i, ∀ key ∈ s'.outgoing.find i, ¬ key.Touches id) ∧
        (∀ i, ∀ key ∈ s'.incoming.find i, ¬ key.Touches id) ∧
        s'.outgoing.sets[id]? = none ∧ s'.incoming.sets[id]? = none) ∧
      n ∈ s.nodesNamed n.name ∧
      ∀ name, s'.nodesNamed name = (s.nodesNamed name).filter (·.id ≠ id) := by
  intro s
  have hc : s.Coherent := coherent_after history
  refine ⟨fun hnone => ?_, fun n hn => ?_⟩
  · have hremove : s.removeNode id = none := removeNode_eq_none hnone
    exact ⟨hremove, by rw [Change.run, hremove]; rfl⟩
  · have hn : s.nodes[id]? = some n := hn
    obtain ⟨s', hremove, hc', hnodes, hedges⟩ := hc.removeNode_eq_some hn
    have honly : s.removeNodeOnly id = some (n, s.dropNode id n) := by
      rw [removeNodeOnly, hn]
      rfl
    have hnode : ∀ i, s'.nodes[i]? = if i = id then none else s.nodes[i]? := by
      intro i
      rw [hnodes, Std.ExtTreeMap.getElem?_erase]
      by_cases hi : i = id
      · simp [hi]
      · simp [hi, Ne.symm hi]
    have huntouched : ∀ key ∈ s'.edges, ¬ key.Touches id := by
      intro key hkey htouch
      obtain ⟨e, he⟩ := mem_edges_iff.1 hkey
      rw [hedges, if_pos htouch] at he
      cases he
    exact ⟨s', s.dropNode id n, hremove, honly, fun _ => hc.removeEdges_touching hn hremove, hnode,
      hedges, hc'.unindexed (by rw [hnode, if_pos rfl]) huntouched, hc.mem_nodesNamed hn,
      hc.nodesNamed_erase hc' hnodes⟩

/-- Two functions of one name, the first in a file, each of which calls itself and the other. -/
def namesakes : List Change :=
  [.createNode "d" "main.c" .file, .createNode "f" "main" .function,
    .createNode "g" "main" .function, .createEdge ⟨"d", "f", .contains⟩,
    .createEdge ⟨"f", "f", .calls⟩, .createEdge ⟨"f", "g", .calls⟩, .createEdge ⟨"g", "f", .calls⟩,
    .createEdge ⟨"g", "g", .calls⟩, .addEdgeAttribute ⟨"g", "g", .calls⟩ "line" "7"]

theorem removeNode_exact_namesakes :
    let s := after namesakes
    (s.removeNode "main" = none ∧ (Change.removeNode "main").run s = s) ∧
    ∃ s' s₁, s.removeNode "f" = some ({ id := "f", name := "main", kind := .function }, s') ∧
      s.removeNodeOnly "f" = some ({ id := "f", name := "main", kind := .function }, s₁) ∧
      s₁.removeEdges [⟨"g", "f", .calls⟩, ⟨"f", "f", .calls⟩, ⟨"d", "f", .contains⟩,
        ⟨"f", "g", .calls⟩] = some s' ∧
      s'.edge? ⟨"f", "f", .calls⟩ = none ∧
      s'.edge? ⟨"g", "g", .calls⟩ = s.edge? ⟨"g", "g", .calls⟩ ∧
      (s'.nodesNamed "main").map (·.id) = ["g"] := by
  intro s
  obtain ⟨hnone, hsome⟩ := removeNode_exact namesakes "f"
  have hn : s.node? "f" = some { id := "f", name := "main", kind := .function } := by
    decide +kernel
  obtain ⟨s', s₁, hremove, honly, hedges, -, hedge, -, -, hnamed⟩ := hsome _ hn
  have habsent : s.node? "main" = none := by decide +kernel
  refine ⟨(removeNode_exact namesakes "main").1 habsent, s', s₁, hremove, honly, ?_, ?_, ?_, ?_⟩
  · exact hedges [{ source := "g", dest := "f", kind := .calls, resolved := true },
      { source := "f", dest := "f", kind := .calls, resolved := true },
      { source := "d", dest := "f", kind := .contains, resolved := true },
      { source := "f", dest := "g", kind := .calls, resolved := true }] (by decide +kernel)
  · exact (hedge _).trans (if_pos (.inl rfl))
  · exact (hedge _).trans (if_neg (by decide))
  · rw [hnamed]
    decide +kernel

end

end ArchFacts.Store
