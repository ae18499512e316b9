import ArchFacts.Proofs.Hierarchy
import ArchFacts.Proofs.Store.Fill
import ArchFacts.Proofs.Store.WellFormed

/-!
# Resolved relations have both ends

A store is `Grounded` if both ends of every resolved relation are among its entities. A change keeps
it so if it `Extends` the store: it takes no entity away, and whatever is resolved afterwards was
resolved before or has both ends. Requests, hierarchies and attachments extend a store, since each
adds a resolved relation only after both ends. After a resolution of a grounded store every relation
is resolved and has both ends (`Grounded.resolve`).
-/

namespace ArchFacts.Store

/-- Whether both ends of every resolved relation are entities of the store. -/
def Grounded (s : Store) : Prop :=
  ∀ {key : EdgeKey} {e}, s.edges[key]? = some e → e.resolved = true → s.hasEnds key = true

/-- Whether a store has the entities of another, and each of its resolved relations is resolved in
the other or has both ends. -/
structure Extends (s s' : Store) : Prop where
  hasNode : ∀ {id}, s.hasNode id = true → s'.hasNode id = true
  resolved : ∀ {key : EdgeKey} {e'}, s'.edges[key]? = some e' → e'.resolved = true →
    (∃ e, s.edges[key]? = some e ∧ e.resolved = true) ∨ s'.hasEnds key = true

section
variable {s s' s'' : Store} {id : String} {key : EdgeKey} {e : Edge} {n : Node}

theorem hasEnds_iff : s.hasEnds key = true ↔ s.hasNode key.source = true ∧
    s.hasNode key.dest = true := by
  rw [hasEnds, Bool.and_eq_true]

/-- An id is that of an entity if the store has one under it. -/
theorem hasNode_iff : s.hasNode id = true ↔ ∃ n, s.nodes[id]? = some n := by
  rw [hasNode, Std.ExtTreeMap.contains_eq_isSome_getElem?, Option.isSome_iff_exists]

theorem hasNode_congr (h : s'.nodes = s.nodes) : s'.hasNode id = s.hasNode id := by
  rw [hasNode, hasNode, h]

/-- Whether a relation has both ends depends on the entities only. -/
theorem hasEnds_congr (h : s'.nodes = s.nodes) : s'.hasEnds key = s.hasEnds key := by
  rw [hasEnds, hasEnds, hasNode_congr h, hasNode_congr h]

/-- A relation keeps its ends in a store that has the entities of the other. -/
theorem Extends.hasEnds (h : s.Extends s') (hk : s.hasEnds key = true) :
    s'.hasEnds key = true := by
  rw [hasEnds_iff] at hk ⊢
  exact ⟨h.hasNode hk.1, h.hasNode hk.2⟩

/-- What extends a grounded store is grounded. -/
theorem Grounded.of_extends (h : s.Grounded) (he : s.Extends s') : s'.Grounded := by
  intro key e' hk hr
  rcases he.resolved hk hr with ⟨e, hs, hres⟩ | hends
  · exact he.hasEnds (h hs hres)
  · exact hends

/-- The empty store has no relation at all. -/
theorem grounded_empty : (∅ : Store).Grounded := fun h _ => by
  simp at h

theorem Extends.refl (s : Store) : s.Extends s := ⟨id, fun hk hr => .inl ⟨_, hk, hr⟩⟩

/-- What extends a store extends all that the store extends. -/
theorem Extends.trans (h : s.Extends s') (h' : s'.Extends s'') : s.Extends s'' where
  hasNode hid := h'.hasNode (h.hasNode hid)
  resolved hk hr := by
    rcases h'.resolved hk hr with ⟨e', hs', hr'⟩ | hends
    · exact (h.resolved hs' hr').imp_right h'.hasEnds
    · exact .inr hends

/-- A pass over a list extends a store if what it does for each member does and keeps what it needs
to know of the store. The pass may carry other data beside the store, which `view` picks out. -/
theorem extends_foldl {σ α : Type} (view : σ → Store) {P : Store → Prop} {f : σ → α → σ}
    {l : List α} {x : σ} (hx : P (view x)) (hf : ∀ x, P (view x) → ∀ a ∈ l,
      P (view (f x a)) ∧ (view x).Extends (view (f x a))) :
    (view x).Extends (view (l.foldl f x)) := by
  induction l generalizing x with
  | nil => exact .refl _
  | cons a l ih =>
    obtain ⟨hx', hstep⟩ := hf x hx a (by simp)
    exact hstep.trans (ih hx' fun y hy b hb => hf y hy b (by simp [hb]))

/-! ## Elementary changes -/

/-- A change of entities that keeps every id extends a store. -/
theorem Extends.of_nodes (hn : ∀ {id}, s.hasNode id = true → s'.hasNode id = true)
    (he : s'.edges = s.edges) : s.Extends s' :=
  ⟨hn, fun hk hr => .inl ⟨_, he ▸ hk, hr⟩⟩

/-- A change of relations that resolves none without both ends extends a store. -/
theorem Extends.of_edges (hn : s'.nodes = s.nodes)
    (he : ∀ {key : EdgeKey} {e'}, s'.edges[key]? = some e' → e'.resolved = true →
      (∃ e, s.edges[key]? = some e ∧ e.resolved = true) ∨ s.hasEnds key = true) :
    s.Extends s' := by
  refine ⟨fun hid => (hasNode_congr hn).trans hid, fun hk hr => (he hk hr).imp_right fun h => ?_⟩
  rwa [hasEnds_congr hn]

/-- Writing an entity takes none away. -/
theorem hasNode_insert {m : Std.ExtTreeMap String Node} (hm : s'.nodes = m.insert id n)
    (hs : ∀ {i : String}, i ≠ id → s.nodes[i]? = m[i]?) {i : String}
    (hi : s.hasNode i = true) : s'.hasNode i = true := by
  rw [hasNode_iff] at hi ⊢
  rw [hm, Std.ExtTreeMap.getElem?_insert]
  split
  · exact ⟨n, rfl⟩
  · next hne =>
    have hne : i ≠ id := fun heq => hne (heq ▸ Std.ReflCmp.compare_self)
    exact hs hne ▸ hi

theorem Extends.register (s : Store) (n : Node) : s.Extends (s.register n) :=
  .of_nodes (hasNode_insert rfl fun _ => rfl) rfl

theorem Extends.setNode (s : Store) (id : String) (n : Node) : s.Extends (s.setNode id n) :=
  .of_nodes (hasNode_insert rfl fun _ => rfl) rfl

/-- Dropping an entity and registering one with its id extends a store. -/
theorem Extends.rename (s : Store) (n m : Node) :
    s.Extends ((s.dropNode n.id m).register n) := by
  refine .of_nodes (hasNode_insert rfl fun {i} hne => ?_) rfl
  rw [Store.dropNode, Std.ExtTreeMap.getElem?_erase, if_neg]
  simpa using Ne.symm hne

/-- Erasing a relation takes no entity away, and makes no relation resolved. -/
theorem Extends.eraseEdge (s : Store) (key : EdgeKey) : s.Extends (s.eraseEdge key) := by
  refine .of_edges eraseEdge_nodes fun {k e} hk hr => .inl ⟨e, ?_, hr⟩
  rw [getElem?_eraseEdge] at hk
  split at hk
  · cases hk
  · exact hk

/-- Storing a relation extends a store if the relation has both ends or is open. -/
theorem Extends.registerEdge (hc : s.Coherent)
    (he : e.resolved = true → s.hasEnds e.toEdgeKey = true) : s.Extends (s.registerEdge e) := by
  refine .of_edges registerEdge_nodes fun {k e'} hk hr => ?_
  rw [getElem?_registerEdge hc] at hk
  split at hk
  · next hkey =>
    cases hk
    exact .inr (hkey ▸ he hr)
  · split at hk
    · cases hk
    · exact .inl ⟨e', hk, hr⟩

/-- Other attributes leave a relation resolved or open, as it was. -/
theorem Extends.setEdge (hs : s.edges[key]? = some e) {a : Attributes} :
    s.Extends (s.setEdge key { e with attributes := a }) := by
  refine .of_edges rfl fun {k e'} hk hr => .inl ?_
  rcases getElem?_insert_eq_some.1 hk with ⟨rfl, rfl⟩ | ⟨_, hk⟩
  · exact ⟨e, hs, hr⟩
  · exact ⟨e', hk, hr⟩

/-- In a grounded store the relations that have both ends are resolved, and the others dropped. -/
theorem Grounded.getElem?_resolve (h : s.Grounded) (hc : s.Coherent) :
    s.resolve.2.edges[key]? =
      if s.hasEnds key = true then s.edges[key]?.map ({ · with resolved := true }) else none := by
  rw [hc.getElem?_resolve]
  cases he : s.edges[key]? with
  | none => simp
  | some e =>
    have hends : e.resolved = true ∨ s.hasEnds key = true ↔ s.hasEnds key = true :=
      or_iff_right_of_imp (h he)
    rw [Option.bind_some, Option.map_some]
    exact if_congr hends rfl rfl

/-- After a resolution of a grounded store every relation is resolved and has both ends. -/
theorem Grounded.resolve (h : s.Grounded) (hc : s.Coherent)
    (he : s.resolve.2.edges[key]? = some e) :
    e.resolved = true ∧ s.resolve.2.hasEnds key = true := by
  rw [h.getElem?_resolve hc] at he
  split at he
  · next hends =>
    obtain ⟨e', _, rfl⟩ := Option.map_eq_some_iff.1 he
    exact ⟨rfl, (hasEnds_congr resolve_nodes).trans hends⟩
  · cases he

/-! ## Documents -/

theorem hasEnds_applyBlocks {blocks : List Block} :
    (s.applyBlocks blocks).2.hasEnds key = s.hasEnds key := by
  have hnode : ∀ {id}, (s.applyBlocks blocks).2.hasNode id = s.hasNode id := by
    intro id
    rw [Bool.eq_iff_iff, hasNode_iff, hasNode_iff, getElem?_applyBlocks_nodes]
    cases s.nodes[id]? <;> simp
  rw [hasEnds, hasEnds, hnode, hnode]

/-- Blocks keep a store grounded. -/
theorem Grounded.applyBlocks (h : s.Grounded) (hc : s.Coherent) (blocks : List Block) :
    (s.applyBlocks blocks).2.Grounded := by
  intro key e he hr
  rw [getElem?_applyBlocks_edges hc] at he
  obtain ⟨e', he', rfl⟩ := Option.map_eq_some_iff.1 he
  rw [hasEnds_applyBlocks]
  exact h he' hr

/-- What blocks and a resolution leave in a grounded store: the relations that have both ends, with
the attributes that the blocks add. -/
theorem Grounded.getElem?_resolve_applyBlocks (h : s.Grounded) (hc : s.Coherent)
    {blocks : List Block} :
    (s.applyBlocks blocks).2.resolve.2.edges[key]? =
      if s.hasEnds key = true then s.edges[key]?.map fun e => { e with
        resolved := true, attributes := blocks.foldl (fun a b => b.onEdge key a) e.attributes }
      else none := by
  have hg : (s.applyBlocks blocks).2.Grounded := h.applyBlocks hc blocks
  rw [hg.getElem?_resolve (hc.applyBlocks blocks), hasEnds_applyBlocks,
    getElem?_applyBlocks_edges hc, Option.map_map]
  rfl

/-- An entity is counted as refused exactly if its id is taken. -/
theorem countNode_eq (x : Tally × Store) (n : Node) : countNode x n =
    if x.2.hasNode n.id = true then ({ x.1 with refused := x.1.refused + 1 }, x.2)
    else ({ x.1 with added := x.1.added + 1 }, x.2.register n) := by
  unfold countNode attempt addNode
  by_cases h : x.2.hasNode n.id = true
  · rw [if_pos h, if_pos h]
  · rw [if_neg h, if_neg h]

/-- After an entity has been offered, its id is that of an entity, whether it was accepted or
not. -/
theorem hasNode_countNode (x : Tally × Store) (n : Node) :
    (countNode x n).2.hasNode id = true ↔ x.2.hasNode id = true ∨ n.id = id := by
  rw [countNode_eq]
  by_cases h : x.2.hasNode n.id = true
  · rw [if_pos h]
    exact (or_iff_left_of_imp fun hid => hid ▸ h).symm
  · rw [if_neg h, or_comm]
    simp only [hasNode, register, Std.ExtTreeMap.contains_insert, Bool.or_eq_true, beq_iff_eq,
      Std.LawfulEqCmp.compare_eq_iff_eq]

/-- After entities have been added, theirs are the ids beside those that were there. -/
theorem hasNode_addNodes {ns : List Node} :
    (s.addNodes ns).2.hasNode id = true ↔ s.hasNode id = true ∨ ∃ n ∈ ns, n.id = id := by
  suffices h : ∀ x : Tally × Store, (ns.foldl countNode x).2.hasNode id = true ↔
      x.2.hasNode id = true ∨ ∃ n ∈ ns, n.id = id from h ({}, s)
  induction ns with
  | nil => simp
  | cons n ns ih =>
    intro x
    rw [List.foldl_cons, ih, hasNode_countNode, or_assoc]
    simp only [List.mem_cons, exists_eq_or_imp]

/-- Of several entities with one id the first is added, if the id is free. -/
theorem getElem?_addNodes {ns : List Node} : (s.addNodes ns).2.nodes[id]? =
    s.nodes[id]?.or ((ns.find? (·.id = id)).map Node.takeLabel) := by
  suffices h : ∀ x : Tally × Store, (ns.foldl countNode x).2.nodes[id]? =
      x.2.nodes[id]?.or ((ns.find? (·.id = id)).map Node.takeLabel) from h ({}, s)
  induction ns with
  | nil => simp
  | cons n ns ih =>
    intro x
    rw [List.foldl_cons, ih, countNode_eq]
    by_cases hn : x.2.hasNode n.id = true
    · rw [if_pos hn]
      obtain ⟨m, hm⟩ := hasNode_iff.1 hn
      by_cases hid : n.id = id
      · subst hid
        rw [hm, Option.some_or, Option.some_or]
      · rw [List.find?_cons_of_neg (by simpa using hid)]
    · rw [if_neg hn, register, Std.ExtTreeMap.getElem?_insert]
      by_cases hid : n.id = id
      · subst hid
        have hfree : x.2.nodes[n.id]? = none := hasNode_eq_false_iff.1 (by simpa using hn)
        simp [hfree]
      · simp [hid]

/-- To an empty store as many entities are added as there are ids. -/
theorem addNodes_fst (ns : List Node) :
    ((∅ : Store).addNodes ns).1.added = (ns.map (·.id)).eraseDups.length := by
  induction ns using List.reverseRecOn with
  | nil => rfl
  | append_singleton ns n ih =>
    have hstep : (∅ : Store).addNodes (ns ++ [n]) = countNode ((∅ : Store).addNodes ns) n :=
      List.foldl_append
    have hmem : ((∅ : Store).addNodes ns).2.hasNode n.id = true ↔ n.id ∈ ns.map (·.id) := by
      rw [hasNode_addNodes, List.mem_map]
      exact or_iff_right (Bool.eq_false_iff.1 Std.ExtTreeMap.contains_empty)
    rw [hstep, countNode_eq, List.map_append, List.map_singleton, eraseDups_append_singleton]
    by_cases hn : n.id ∈ ns.map (·.id)
    · rw [if_pos (hmem.2 hn), if_pos hn, ih]
    · rw [if_neg (mt hmem.1 hn), if_neg hn, List.length_append, ← ih]
      rfl

/-- Adding entities changes no relation. -/
theorem addNodes_edges (s : Store) (ns : List Node) : (s.addNodes ns).2.edges = s.edges := by
  have hstep : ∀ x : Tally × Store, x.2.edges = s.edges → ∀ n ∈ ns,
      (countNode x n).2.edges = s.edges := by
    intro x hx n _
    refine Eq.trans ?_ hx
    rw [countNode_eq]
    by_cases h : x.2.hasNode n.id = true
    · rw [if_pos h]
    · rw [if_neg h]
      rfl
  exact List.foldlRecOn (motive := fun x => x.2.edges = s.edges) ns countNode
    (show (({}, s) : Tally × Store).2.edges = s.edges from rfl) hstep

/-- Adding entities takes none away, and leaves the relations as they are. -/
theorem Extends.addNodes (s : Store) (ns : List Node) : s.Extends (s.addNodes ns).2 :=
  .of_nodes (fun h => hasNode_addNodes.2 (.inl h)) (addNodes_edges s ns)

/-! ## Requests -/

/-- What a request that may be refused leaves extends the store if it does when granted. -/
theorem Extends.granted {r : Except FactError Store} (h : ∀ s', r = .ok s' → s.Extends s') :
    s.Extends (s.granted r).2 := by
  cases r with
  | ok s' => exact h s' rfl
  | error _ => exact .refl s

theorem Extends.addNode (h : s.addNode n = .ok s') : s.Extends s' := by
  unfold Store.addNode at h
  split at h
  · cases h
  · cases h
    exact .register s n

/-- Putting an entity in the place of another keeps its id, and so the ends of relations. -/
theorem Extends.putNode (s : Store) (n : Node) : s.Extends (s.putNode n) := by
  rw [putNode_eq]
  cases s.nodes[n.id]? with
  | none => exact .register s n
  | some m => exact .rename s n m

/-- Adding a relation that is open or has both ends extends a store, also if a parent is
displaced. -/
theorem Extends.addEdge (hc : s.Coherent)
    (he : e.resolved = true → s.hasEnds e.toEdgeKey = true) (h : s.addEdge e = .ok s') :
    s.Extends s' := by
  unfold Store.addEdge at h
  split at h
  · cases h
  · split at h
    · cases h
    · cases h
      exact .registerEdge hc he

/-- Putting a relation that is open or has both ends extends a store. -/
theorem Extends.putEdge (hc : s.Coherent)
    (he : e.resolved = true → s.hasEnds e.toEdgeKey = true) (h : s.putEdge e = .ok s') :
    s.Extends s' := by
  unfold Store.putEdge at h
  split at h
  · cases h
  · cases h
    have herase : s.Extends (s.eraseEdge e.toEdgeKey) := .eraseEdge s e.toEdgeKey
    exact herase.trans (.registerEdge hc.eraseEdge fun hr => herase.hasEnds (he hr))

theorem Extends.removeEdge (h : s.removeEdge key = some (e, s')) : s.Extends s' := by
  unfold Store.removeEdge at h
  obtain ⟨_, _, heq⟩ := Option.map_eq_some_iff.1 h
  cases heq
  exact .eraseEdge s key

theorem Extends.addNodeAttribute {k value : String}
    (h : s.addNodeAttribute id k value = .ok s') : s.Extends s' := by
  unfold Store.addNodeAttribute at h
  split at h
  · cases h
  · split at h
    · cases h
      exact .setNode s id _
    · split at h
      · cases h
        exact .refl s
      · cases h
        exact .putNode s _

theorem Extends.addEdgeAttribute {k value : String}
    (h : s.addEdgeAttribute key k value = .ok s') : s.Extends s' := by
  unfold Store.addEdgeAttribute at h
  split at h
  · cases h
  · next e he =>
    cases h
    exact .setEdge he

/-- A request that an extractor makes extends a store. -/
theorem Extends.send (hc : s.Coherent) (r : Record) : s.Extends (r.send sink s).2 := by
  cases r with
  | node id name? kind => exact .granted fun _ h => .addNode h
  | edge key => exact .granted fun _ h => .addEdge hc (fun hr => hr) h
  | attr target k value =>
    cases target with
    | node id => exact .granted fun _ h => .addNodeAttribute h
    | edge key => exact .granted fun _ h => .addEdgeAttribute h

/-- Replaying records extends a store. -/
theorem Extends.replay (hc : s.Coherent) {records : List Record} {report : ReplayReport}
    (h : Record.replay sink s records = .ok (report, s')) : s.Extends s' := by
  obtain ⟨_, _, h⟩ := bind_eq_ok_iff.1 h
  have hs : s' = (Record.sendAll sink s records).2 := congrArg Prod.snd (Except.ok.inj h).symm
  rw [hs]
  exact extends_foldl Prod.snd (P := Coherent) (x := (({} : ReplayReport), s)) hc
    fun _ hx r _ => ⟨Steps.coherent (Steps.send Attributes.rule_true hx r) hx, .send hx r⟩

/-! ## Hierarchies -/

theorem Extends.addContainer (kind : NodeKind) (s : Store) (path : String) :
    s.Extends (Hierarchy.addContainer kind s path) := by
  unfold Hierarchy.addContainer
  split
  · next h => exact .addNode h
  · exact .refl s

/-- A container that has been added is there. -/
theorem hasNode_addContainer (kind : NodeKind) (s : Store) (path : String) :
    (Hierarchy.addContainer kind s path).hasNode path = true := by
  unfold Hierarchy.addContainer Store.addNode
  by_cases h : s.hasNode path = true
  · rw [if_pos h]
    exact h
  · rw [if_neg h]
    exact hasNode_iff.2 ⟨_, Std.ExtTreeMap.getElem?_insert_self⟩

/-- Linking an entity to the directory above it extends a store that has both. -/
theorem Extends.linkToParent (hc : s.Coherent) {path : String} (hpath : s.hasNode path = true)
    (hparent : ∀ dir, Path.parent? path = some dir → s.hasNode dir = true) :
    s.Extends (Hierarchy.linkToParent s path) := by
  unfold Hierarchy.linkToParent
  split
  · exact .refl s
  · next dir hdir =>
    split
    · next h => exact .addEdge hc (fun _ => hasEnds_iff.2 ⟨hparent dir hdir, hpath⟩) h
    · exact .refl s

/-- Linking a container to its directory adds no entity and takes none away. -/
theorem hasNode_linkToParent (s : Store) (path : String) {id : String} :
    (Hierarchy.linkToParent s path).hasNode id = s.hasNode id := by
  unfold Hierarchy.linkToParent
  split
  · rfl
  · split
    · next h => exact hasNode_congr (addEdge_nodes h)
    · rfl

theorem Coherent.addContainer (hc : s.Coherent) (kind : NodeKind) (path : String) :
    (Hierarchy.addContainer kind s path).Coherent :=
  Steps.coherent (Steps.addContainer Attributes.rule_true) hc

theorem Coherent.linkToParent (hc : s.Coherent) (path : String) :
    (Hierarchy.linkToParent s path).Coherent :=
  Steps.coherent (Steps.linkToParent Attributes.rule_true) hc

/-- Adding a container and linking it to the directory above it extends a store that has this
directory. -/
theorem Extends.addLinked (hc : s.Coherent) {kind : NodeKind} {path : String}
    (hparent : ∀ dir, Path.parent? path = some dir → s.hasNode dir = true) :
    s.Extends (Hierarchy.linkToParent (Hierarchy.addContainer kind s path) path) := by
  have hadd : s.Extends (Hierarchy.addContainer kind s path) := .addContainer kind s path
  have hthere := hasNode_addContainer kind s path
  exact hadd.trans (.linkToParent (hc.addContainer kind path) hthere
    fun dir hdir => hadd.hasNode (hparent dir hdir))

/-- Adding directories in the order of paths extends a store, if the directory above each is among
them: it comes earlier. -/
theorem Extends.foldl_addDirectory {dirs : Std.ExtTreeSet String}
    (hclosed : Hierarchy.Closed dirs) {before after : List String}
    (hdirs : dirs.toList = before ++ after) (hc : s.Coherent)
    (hbefore : ∀ dir ∈ before, s.hasNode dir = true) :
    s.Extends (after.foldl Hierarchy.addDirectory s) ∧
      (after.foldl Hierarchy.addDirectory s).Coherent ∧
      ∀ dir ∈ dirs.toList, (after.foldl Hierarchy.addDirectory s).hasNode dir = true := by
  induction after generalizing before s with
  | nil =>
    rw [List.append_nil] at hdirs
    exact ⟨.refl s, hc, hdirs ▸ hbefore⟩
  | cons path after ih =>
    have hsorted := dirs.ordered_toList
    rw [hdirs] at hsorted
    have hlater : ∀ dir ∈ after, compare path dir = .lt :=
      (List.pairwise_cons.1 (List.pairwise_append.1 hsorted).2.1).1
    have hparent : ∀ dir, Path.parent? path = some dir → s.hasNode dir = true := by
      intro dir hdir
      have hmem : path ∈ dirs := Std.ExtTreeSet.mem_toList.1 (by simp [hdirs])
      have hlt : compare dir path = .lt := Path.compare_parent? hdir
      have hdir' := Std.ExtTreeSet.mem_toList.2 (hclosed path hmem dir hdir)
      rw [hdirs, List.mem_append, List.mem_cons] at hdir'
      rcases hdir' with hin | rfl | hin
      · exact hbefore dir hin
      · simp at hlt
      · exact absurd (hlater dir hin) (Std.OrientedCmp.not_lt_of_lt hlt)
    have hstep : s.Extends (Hierarchy.addDirectory s path) := .addLinked hc hparent
    have hc' : (Hierarchy.addDirectory s path).Coherent :=
      (hc.addContainer .subsystem path).linkToParent path
    have hhas : ∀ dir ∈ before ++ [path], (Hierarchy.addDirectory s path).hasNode dir = true := by
      intro dir hdir
      rcases List.mem_append.1 hdir with hdir | hdir
      · exact hstep.hasNode (hbefore dir hdir)
      · rw [List.mem_singleton.1 hdir, Hierarchy.addDirectory, hasNode_linkToParent]
        exact hasNode_addContainer .subsystem s path
    obtain ⟨hrest, hcoherent, hall⟩ := ih (by simpa using hdirs) hc' hhas
    exact ⟨hstep.trans hrest, hcoherent, hall⟩

/-- Installing a hierarchy extends a store. -/
theorem Extends.install (hc : s.Coherent) (h : Hierarchy) (config : Config) :
    s.Extends (h.install config s).2 := by
  rw [Hierarchy.install_snd]
  have hdirs : s.Extends (h.addDirectories config s) ∧ (h.addDirectories config s).Coherent ∧
      (config.includeSubsystems = true → ∀ dir ∈ h.directories.toList,
        (h.addDirectories config s).hasNode dir = true) := by
    unfold Hierarchy.addDirectories
    split
    · obtain ⟨hext, hc', hall⟩ := Extends.foldl_addDirectory (Hierarchy.closed_directories h)
        (List.nil_append _).symm hc (nofun)
      exact ⟨hext, hc', fun _ => hall⟩
    · next hno => exact ⟨.refl s, hc, fun hyes => absurd hyes hno⟩
  obtain ⟨hext, hc', hall⟩ := hdirs
  refine hext.trans ?_
  unfold Hierarchy.addFiles
  split
  · refine extends_foldl id (P := fun s => s.Coherent ∧ (config.includeSubsystems = true →
      ∀ dir ∈ h.directories.toList, s.hasNode dir = true)) ⟨hc', hall⟩ ?_
    rintro s ⟨hs, hdirs⟩ file hfile
    have hadd : s.Extends (Hierarchy.addContainer .file s file) := .addContainer .file s file
    have hlink : config.includeSubsystems = true →
        s.Extends (Hierarchy.linkToParent (Hierarchy.addContainer .file s file) file) :=
      fun hsub => .addLinked hs fun dir hdir => hdirs hsub dir
        (Std.ExtTreeSet.mem_toList.2 (Hierarchy.parent_mem_directories hfile hdir))
    unfold Hierarchy.addFile
    dsimp only [id]
    split
    · next hsub =>
      exact ⟨⟨(hs.addContainer .file file).linkToParent file,
        fun _ dir hdir => (hlink hsub).hasNode (hdirs hsub dir hdir)⟩, hlink hsub⟩
    · next hsub =>
      exact ⟨⟨hs.addContainer .file file, fun hyes => absurd hyes hsub⟩, hadd⟩
  · exact .refl _

/-! ## Attachments -/

/-- Adding relations that have both ends or are open extends a store. -/
theorem Extends.addEdges (hc : s.Coherent) {edges : List Edge}
    (he : ∀ e ∈ edges, e.resolved = true → s.hasEnds e.toEdgeKey = true) :
    s.Extends (s.addEdges edges).2 := by
  refine extends_foldl Prod.snd (P := fun s' => s'.Coherent ∧ s'.nodes = s.nodes)
    (x := (({}, s) : Tally × Store)) ⟨hc, rfl⟩ ?_
  rintro x ⟨hx, hnodes⟩ e hmem
  have hends : e.resolved = true → x.2.hasEnds e.toEdgeKey = true := by
    intro hr
    rw [hasEnds_congr hnodes]
    exact he e hmem hr
  unfold countEdge attempt
  split
  · next s' h =>
    have hstep : Step (fun _ => True) x.2 s' := .addEdge trivial h
    exact ⟨⟨hstep.coherent hx, (addEdge_nodes h).trans hnodes⟩, .addEdge hx hends h⟩
  · exact ⟨⟨hx, hnodes⟩, .refl _⟩

/-- Linking entities to the containers of their files extends a store. -/
theorem Extends.attach (hc : s.Coherent) (container? : String → Option String)
    (fileAttribute : String) : s.Extends (s.attach container? fileAttribute).2 := by
  refine .addEdges hc fun e he _ => ?_
  obtain ⟨n, hmem, hn⟩ := List.mem_filterMap.1 he
  have hnode : s.hasNode n.id = true := hasNode_iff.2 ⟨n, (mem_nodeList hc).1 hmem⟩
  unfold attachment? at hn
  split at hn
  · split at hn
    · split at hn
      · next hcontainer =>
        cases hn
        rw [Bool.and_eq_true] at hcontainer
        exact hasEnds_iff.2 ⟨hcontainer.2, hnode⟩
      · cases hn
    · cases hn
  · cases hn

/-! ## Removing entities -/

/-- With an entity its relations are removed, so a store stays grounded. -/
theorem Grounded.removeNode (hg : s.Grounded) (hc : s.Coherent)
    (h : s.removeNode id = some (n, s')) : s'.Grounded := by
  cases hn : s.nodes[id]? with
  | none =>
    rw [removeNode_eq_none hn] at h
    cases h
  | some m =>
    obtain ⟨_, hremove, -, hnodes, hedges⟩ := hc.removeNode_eq_some hn
    cases h.symm.trans hremove
    intro key e he hr
    rw [hedges] at he
    split at he
    · cases he
    · next hkept =>
      obtain ⟨hsource, hdest⟩ := not_or.1 hkept
      have hends : s.hasEnds key = true := hg he hr
      rw [hasEnds_iff] at hends ⊢
      simp only [hasNode, hnodes, Std.ExtTreeMap.contains_erase] at hends ⊢
      simp [Ne.symm hsource, Ne.symm hdest, hends]

/-! ## Documents and texts -/

/-- A document keeps a store grounded: its relations are open. -/
theorem Grounded.apply (hg : s.Grounded) (hc : s.Coherent) {d : Document} {config : Config}
    {report : LoadReport} (h : d.apply config s = .ok (report, s')) : s'.Grounded := by
  unfold Document.apply at h
  obtain ⟨⟨nodes, edges⟩, hfacts, h⟩ := bind_eq_ok_iff.1 h
  cases h
  have hnodes : s.Extends (s.addNodes (nodes.map d.withLabel)).2 := .addNodes s _
  have hc₁ : (s.addNodes (nodes.map d.withLabel)).2.Coherent := hc.addNodes _
  have hopen : ∀ e ∈ edges, e.resolved = true →
      (s.addNodes (nodes.map d.withLabel)).2.hasEnds e.toEdgeKey = true := by
    intro e he hr
    rw [((attributes_of_factsOf hfacts).2 e he).2] at hr
    cases hr
  have hlinked : ((s.addNodes (nodes.map d.withLabel)).2.addEdges edges).2.Grounded :=
    hg.of_extends (hnodes.trans (.addEdges hc₁ hopen))
  intro key e he hr
  exact Grounded.applyBlocks hlinked (hc₁.addEdges edges) d.blocks he hr

/-- After a text has been loaded into a grounded store every relation is resolved and has both
ends. -/
theorem Grounded.load (hg : s.Grounded) (hc : s.Coherent) {config : Config} {text : String}
    {report : LoadReport} (h : s.load config text = .ok (report, s'))
    (he : s'.edges[key]? = some e) : e.resolved = true ∧ s'.hasEnds key = true := by
  unfold Store.load at h
  obtain ⟨d, -, h⟩ := bind_eq_ok_iff.1 h
  obtain ⟨⟨r, s₁⟩, happly, h⟩ := bind_eq_ok_iff.1 h
  cases h
  have hsteps : Steps (fun _ => True) s s₁ := .apply Attributes.rule_true hc happly
  have hg₁ : s₁.Grounded := fun he hr => hg.apply hc happly he hr
  exact hg₁.resolve (Steps.coherent hsteps hc) he

end

end ArchFacts.Store
