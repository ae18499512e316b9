import ArchFacts.Proofs.Store.Grounded
import ArchFacts.Proofs.Store.Offer

/-!
# Stores that resolving makes equal

A relation is resolved when it is requested after its ends, and open when it is requested before
them. Two stores are `Alike` if they differ in nothing else: they have the same entities, and the
same relations once those that have both ends are resolved (`completed`). Resolving makes such
stores equal and drops as many relations of each (`Alike.resolve`). Every request is answered alike
by them and leaves them alike (`Alike.send`), since the answer depends on ids and keys only, and no
request takes an end from a relation.
-/

namespace ArchFacts.Store

/-- A relation, resolved if it has both ends. -/
def completed (s : Store) (e : Edge) : Edge :=
  { e with resolved := e.resolved || s.hasEnds e.toEdgeKey }

/-- Whether two stores hold the same, but that relations which have both ends may be resolved in one
and open in the other. -/
structure Alike (s s' : Store) : Prop where
  coherent : s.Coherent
  coherent' : s'.Coherent
  nodes : s'.nodes = s.nodes
  edges : ∀ key : EdgeKey, s.edges[key]?.map s.completed = s'.edges[key]?.map s.completed

section
variable {s s' : Store} {e e' : Edge} {key : EdgeKey} {n : Node}

/-! ## Completing relations -/

/-- Completing relations depends on the entities only. -/
theorem completed_congr (h : s'.nodes = s.nodes) : s'.completed = s.completed := by
  funext e
  rw [completed, completed, hasEnds_congr h]

/-- To complete a relation in a store that has more entities it need not be completed before. -/
theorem completed_completed (h : ∀ {id}, s.hasNode id = true → s'.hasNode id = true) (e : Edge) :
    s'.completed (s.completed e) = s'.completed e := by
  have hends : s.hasEnds e.toEdgeKey = true → s'.hasEnds e.toEdgeKey = true := by
    rw [hasEnds_iff, hasEnds_iff]
    exact fun ⟨hsource, hdest⟩ => ⟨h hsource, h hdest⟩
  unfold completed
  dsimp only
  rw [Bool.or_assoc, Bool.or_eq_right_iff_imp.2 hends]

/-- A relation is settled exactly if it is resolved once it is completed. -/
theorem settle_eq_completed (e : Edge) :
    s.settle e = if (s.completed e).resolved = true then some (s.completed e) else none := by
  unfold settle completed
  obtain ⟨key, resolved, attributes⟩ := e
  cases resolved <;> cases s.hasEnds key <;> rfl

/-! ## Stores that resolving makes equal -/

theorem Alike.refl (hc : s.Coherent) : s.Alike s := ⟨hc, hc, rfl, fun _ => rfl⟩

theorem Alike.symm (h : s.Alike s') : s'.Alike s where
  coherent := h.coherent'
  coherent' := h.coherent
  nodes := h.nodes.symm
  edges key := by rw [completed_congr h.nodes, h.edges]

/-- Stores that are alike have relations under the same keys. -/
theorem Alike.mem_edges_iff (h : s.Alike s') : key ∈ s.edges ↔ key ∈ s'.edges := by
  have hsome := congrArg Option.isSome (h.edges key)
  rw [Option.isSome_map, Option.isSome_map] at hsome
  rw [Std.ExtTreeMap.mem_iff_isSome_getElem?, Std.ExtTreeMap.mem_iff_isSome_getElem?, hsome]

/-- What becomes of a relation is the same in both stores. -/
theorem Alike.settle (h : s.Alike s') (key : EdgeKey) :
    s.edges[key]?.bind s.settle = s'.edges[key]?.bind s'.settle := by
  have hsettle : ∀ e, s'.settle e = s.settle e := by
    intro e
    rw [settle_eq_completed, settle_eq_completed, completed_congr h.nodes]
  have hbind : ∀ e? : Option Edge, e?.bind s.settle =
      (e?.map s.completed).bind fun e => if e.resolved = true then some e else none := by
    intro e?
    cases e? with
    | none => rfl
    | some e => exact settle_eq_completed e
  rw [funext hsettle, hbind, hbind, h.edges]

/-- The keys of the relations that resolving drops. -/
def dangling (s : Store) : List EdgeKey :=
  (s.edges.toList.filter fun (_, e) => (s.settle e).isNone).map (·.1)

/-- The dropped relations are listed in the order of keys, each once. -/
theorem pairwise_dangling (s : Store) : s.dangling.Pairwise fun k k' => compare k k' = .lt :=
  List.pairwise_map.2 (s.edges.ordered_keys_toList.filter _)

/-- Resolving makes stores that are alike equal, and drops as many relations of each. -/
theorem Alike.resolve (h : s.Alike s') : s.resolve = s'.resolve := by
  have hget : ∀ key : EdgeKey, s.resolve.2.edges[key]? = s'.resolve.2.edges[key]? := by
    intro key
    rw [getElem?_resolve, getElem?_resolve, h.settle]
  have hstore : s.resolve.2 = s'.resolve.2 :=
    h.coherent.resolve.ext h.coherent'.resolve h.nodes.symm (Std.ExtTreeMap.ext_getElem? hget)
  have hdropped : ∀ {s : Store} {key : EdgeKey},
      (∃ e, s.edges[key]? = some e ∧ s.settle e = none) ↔
        key ∈ s.edges ∧ s.edges[key]?.bind s.settle = none := by
    intro s key
    rw [Store.mem_edges_iff]
    cases s.edges[key]? <;> simp
  have hdangling : s.dangling = s'.dangling := by
    refine eq_of_pairwise_lt (f := id) (pairwise_dangling s) (pairwise_dangling s') fun key => ?_
    rw [dangling, dangling, mem_dangling, mem_dangling, hdropped, hdropped, h.mem_edges_iff,
      h.settle]
  refine Prod.ext ?_ hstore
  have hreport : ∀ s : Store, s.resolve.1 =
      { resolved := s.resolve.2.edges.size, unresolved := s.dangling.length } := fun _ => rfl
  rw [hreport, hreport, hstore, hdangling]

/-! ## Requests keep stores alike -/

/-- Stores that are alike still are when they have more entities. -/
theorem Alike.of_nodes {t t' : Store} (h : s.Alike s') (hc : t.Coherent) (hc' : t'.Coherent)
    (hn : t'.nodes = t.nodes) (he : t.edges = s.edges) (he' : t'.edges = s'.edges)
    (hmore : ∀ {id}, s.hasNode id = true → t.hasNode id = true) : t.Alike t' where
  coherent := hc
  coherent' := hc'
  nodes := hn
  edges key := by
    have hmap : ∀ e? : Option Edge, e?.map t.completed = (e?.map s.completed).map t.completed := by
      intro e?
      rw [Option.map_map]
      exact Option.map_congr fun e _ => (completed_completed hmore e).symm
    rw [he, he', hmap, h.edges, ← hmap]

theorem completed_offer : (s.offer e').completed = s.completed := completed_congr offer_nodes

/-- Relations that are the same once they are completed, offered to stores that are alike, leave
them alike. -/
theorem Alike.offer (h : s.Alike s') (he : s.completed e = s.completed e') :
    (s.offer e).Alike (s'.offer e') where
  coherent := h.coherent.offer e
  coherent' := h.coherent'.offer e'
  nodes := by rw [offer_nodes, offer_nodes, h.nodes]
  edges key := by
    have hkey : e'.toEdgeKey = e.toEdgeKey := (congrArg Edge.toEdgeKey he).symm
    have hself : e'.isSelfContainment = e.isSelfContainment := by rw [hkey]
    rw [completed_offer, getElem?_offer h.coherent, getElem?_offer h.coherent']
    simp only [hkey, h.mem_edges_iff]
    split
    · exact h.edges key
    · split
      · rw [Option.map_some, Option.map_some, he]
      · split
        · rfl
        · exact h.edges key

/-- A request for a relation is granted unless the store has the relation or it is of an entity as
its own parent. -/
theorem createEdge_eq (s : Store) (key : EdgeKey) :
    s.createEdge key = (!(key.isSelfContainment || s.edges.contains key),
      s.offer { key with resolved := s.hasEnds key }) := by
  unfold createEdge Store.offer addEdge hasEnds
  cases key.isSelfContainment with
  | true => rfl
  | false => cases s.edges.contains key <;> rfl

/-- Whether a relation is granted depends on its key and on the keys of the store alone. -/
theorem createEdge_congr (h : key ∈ s'.edges ↔ key ∈ s.edges) :
    (s'.createEdge key).1 = (s.createEdge key).1 := by
  have hcontains : s'.edges.contains key = s.edges.contains key := by
    rw [Bool.eq_iff_iff, Std.ExtTreeMap.contains_iff_mem, Std.ExtTreeMap.contains_iff_mem, h]
  rw [createEdge_eq, createEdge_eq, hcontains]

/-- A request for an entity is granted if its id is free. -/
theorem createNode_eq (s : Store) (id name : String) (kind : NodeKind) :
    s.createNode id name kind =
      if s.hasNode id = true then (false, s) else (true, s.register { id, name, kind }) := by
  unfold createNode addNode
  split <;> rfl

theorem putNode_edges (s : Store) (n : Node) : (s.putNode n).edges = s.edges := by
  rw [putNode_eq]
  split <;> rfl

theorem putNode_nodes (h : s'.nodes = s.nodes) : (s'.putNode n).nodes = (s.putNode n).nodes := by
  rw [putNode_eq, putNode_eq, h]
  split
  · rw [register, register, dropNode, dropNode, h]
  · rw [register, register, h]

/-- Whether an entity is granted, and the entities that there are then, depends on the entities
alone. -/
theorem createNode_congr (h : s'.nodes = s.nodes) (id name : String) (kind : NodeKind) :
    (s'.createNode id name kind).1 = (s.createNode id name kind).1 ∧
      (s'.createNode id name kind).2.nodes = (s.createNode id name kind).2.nodes ∧
      (s.createNode id name kind).2.edges = s.edges := by
  simp only [createNode_eq, hasNode_congr h]
  split
  · exact ⟨rfl, h, rfl⟩
  · exact ⟨rfl, by rw [register, register, h], rfl⟩

/-- Whether an attribute of an entity is granted, and the entities that there are then, depends on
the entities alone. -/
theorem setAttribute_congr (h : s'.nodes = s.nodes) (id key value : String) :
    (s'.setAttribute (.node id) key value).1 = (s.setAttribute (.node id) key value).1 ∧
      (s'.setAttribute (.node id) key value).2.nodes =
        (s.setAttribute (.node id) key value).2.nodes ∧
      (s.setAttribute (.node id) key value).2.edges = s.edges := by
  simp only [setAttribute, addNodeAttribute, h]
  split
  · exact ⟨rfl, h, rfl⟩
  · split
    · exact ⟨rfl, rfl, rfl⟩
    · split
      · exact ⟨rfl, h, rfl⟩
      · exact ⟨rfl, putNode_nodes h, putNode_edges s _⟩

/-- An attribute of a relation is granted in stores that are alike, and leaves them alike. -/
theorem Alike.setAttribute (h : s.Alike s') (edge : EdgeKey) (key value : String) :
    (s'.setAttribute (.edge edge) key value).1 = (s.setAttribute (.edge edge) key value).1 ∧
      (s.setAttribute (.edge edge) key value).2.Alike
        (s'.setAttribute (.edge edge) key value).2 := by
  have hget := h.edges edge
  simp only [Store.setAttribute, Store.addEdgeAttribute]
  cases he : s.edges[edge]? with
  | none =>
    rw [he, Option.map_none, eq_comm, Option.map_eq_none_iff] at hget
    rw [hget]
    exact ⟨rfl, h⟩
  | some e =>
    rw [he, Option.map_some, eq_comm, Option.map_eq_some_iff] at hget
    obtain ⟨e', he', hsame⟩ := hget
    rw [he']
    refine ⟨rfl, ?_⟩
    have hkey : e.toEdgeKey = edge := h.coherent.edge_key he
    have hkey' : e'.toEdgeKey = edge := h.coherent'.edge_key he'
    refine ⟨h.coherent.setEdge (Store.mem_edges_iff.2 ⟨e, he⟩) hkey,
      h.coherent'.setEdge (Store.mem_edges_iff.2 ⟨e', he'⟩) hkey', h.nodes, fun k => ?_⟩
    have hcompleted : ∀ e : Edge,
        s.completed { e with attributes := e.attributes.insert key value } =
          { s.completed e with attributes := (s.completed e).attributes.insert key value } :=
      fun _ => rfl
    simp only [granted, Std.ExtTreeMap.getElem?_insert]
    split
    · exact congrArg some ((hcompleted e).trans (hsame ▸ (hcompleted e').symm))
    · exact h.edges k

/-- Sending a record keeps the indices in step. -/
theorem Coherent.send (hc : s.Coherent) (r : Record) : (r.send sink s).2.Coherent :=
  Steps.coherent (Steps.send Attributes.rule_true hc r) hc

/-- Stores that are alike answer a request alike and still are alike after it. -/
theorem Alike.send (h : s.Alike s') (r : Record) :
    (r.send sink s').1 = (r.send sink s).1 ∧ (r.send sink s).2.Alike (r.send sink s').2 := by
  have hc : (r.send sink s).2.Coherent := h.coherent.send r
  have hc' : (r.send sink s').2.Coherent := h.coherent'.send r
  have hmore : ∀ {id}, s.hasNode id = true → (r.send sink s).2.hasNode id = true :=
    (Extends.send h.coherent r).hasNode
  cases r with
  | node id name? kind =>
    obtain ⟨hgranted, hnodes, hedges⟩ := createNode_congr h.nodes id (name?.getD id) kind
    obtain ⟨-, -, hedges'⟩ := createNode_congr h.nodes.symm id (name?.getD id) kind
    exact ⟨hgranted, h.of_nodes hc hc' hnodes hedges hedges' hmore⟩
  | edge key =>
    refine ⟨createEdge_congr h.mem_edges_iff.symm, ?_⟩
    simp only [Record.send, sink, createEdge_eq, hasEnds_congr h.nodes]
    exact h.offer rfl
  | attr target key value =>
    cases target with
    | node id =>
      obtain ⟨hgranted, hnodes, hedges⟩ := setAttribute_congr h.nodes id key value
      obtain ⟨-, -, hedges'⟩ := setAttribute_congr h.nodes.symm id key value
      exact ⟨hgranted, h.of_nodes hc hc' hnodes hedges hedges' hmore⟩
    | edge edge => exact h.setAttribute edge key value

end

end ArchFacts.Store
