import ArchFacts.Proofs.Attributes
import ArchFacts.Proofs.Store.Update
import Mathlib.Logic.Relation

/-!
# Every operation is a sequence of elementary steps

`Step P` is one elementary change of a store; `P` is a rule (`Attributes.Rule`) that the attributes
of new entities and relations follow. Every operation that is not refused is a sequence of steps
(`Steps`), so whatever a step keeps, an operation keeps. The first such thing is coherence
(`Steps.coherent`).
-/

namespace ArchFacts.Store

/-- One elementary change. -/
inductive Step (P : Attributes → Prop) : Store → Store → Prop
  /-- An entity is stored under a free id. -/
  | register {s : Store} {n : Node} : s.nodes[n.id]? = none → P n.attributes →
      Step P s (s.register n)
  | dropNode {s : Store} {id : String} {n : Node} : s.nodes[id]? = some n →
      Step P s (s.dropNode id n)
  /-- An entity is dropped and registered anew under another name. -/
  | rename {s : Store} {id : String} {n : Node} (name : String) : s.nodes[id]? = some n →
      Step P s ((s.dropNode id n).register { n with name })
  | setNode {s : Store} {id : String} {n : Node} {a : Attributes} : s.nodes[id]? = some n →
      (P n.attributes → P a) → (labelKey ∉ n.attributes.entries → labelKey ∉ a.entries) →
      Step P s (s.setNode id { n with attributes := a })
  | eraseEdge {s : Store} (key : EdgeKey) : Step P s (s.eraseEdge key)
  /-- A relation is stored under a free key; a new parent puts the old one out. -/
  | registerEdge {s : Store} {e : Edge} : e.isSelfContainment = false →
      s.edges[e.toEdgeKey]? = none → P e.attributes → Step P s (s.registerEdge e)
  | setEdge {s : Store} {key : EdgeKey} {e : Edge} {a : Attributes} : s.edges[key]? = some e →
      (P e.attributes → P a) → Step P s (s.setEdge key { e with attributes := a })
  | resolve {s : Store} : Step P s s.resolve.2
  | clear {s : Store} : Step P s ∅

/-- Any number of elementary changes. -/
abbrev Steps (P : Attributes → Prop) : Store → Store → Prop := Relation.ReflTransGen (Step P)

section
variable {P : Attributes → Prop} {s s' : Store}

theorem Step.steps (h : Step P s s') : Steps P s s' := .single h

/-! ## Making room for a parent -/

/-- The keys of the parents of an id, in a coherent store. -/
theorem mem_parentKeys (h : s.Coherent) {id : String} {k : EdgeKey} :
    k ∈ s.parentKeys id ↔ k ∈ s.edges ∧ k.dest = id ∧ k.kind = .contains := by
  rw [parentKeys, List.mem_filter, h.mem_incoming, decide_eq_true_eq, and_assoc]

/-- Making room for a relation puts out the parents that its destination has, if it is a parent
itself, and nothing else. -/
theorem getElem?_evictParents (h : s.Coherent) {key k : EdgeKey} :
    (s.evictParents key).edges[k]? =
      if key.kind = .contains ∧ k.dest = key.dest ∧ k.kind = .contains then none
      else s.edges[k]? := by
  unfold evictParents
  by_cases hk : key.kind = .contains
  · rw [if_pos hk, getElem?_foldl_eraseEdge]
    simp only [mem_parentKeys h, hk, true_and]
    by_cases hd : k.dest = key.dest ∧ k.kind = .contains
    · simp only [hd, and_true, if_true]
      split
      · rfl
      · next hn =>
        exact Option.eq_none_iff_forall_not_mem.2 fun e he => hn (mem_edges_iff.2 ⟨e, he⟩)
    · rw [if_neg hd, if_neg fun hn => hd hn.2]
  · rw [if_neg hk, if_neg fun hn => hk hn.1]

/-- Making room for a relation changes no entity. -/
theorem evictParents_nodes {key : EdgeKey} : (s.evictParents key).nodes = s.nodes := by
  unfold evictParents
  split
  · exact foldl_eraseEdge_nodes
  · rfl

/-- Storing a relation changes no entity. -/
@[simp] theorem registerEdge_nodes {e : Edge} : (s.registerEdge e).nodes = s.nodes :=
  evictParents_nodes

/-- Adding a relation changes no entity. -/
theorem addEdge_nodes {e : Edge} (h : s.addEdge e = .ok s') : s'.nodes = s.nodes := by
  unfold Store.addEdge at h
  split at h
  · cases h
  · split at h
    · cases h
    · cases h
      exact registerEdge_nodes

/-- What stands under a key after a relation has been stored. -/
theorem getElem?_registerEdge (h : s.Coherent) {e : Edge} {k : EdgeKey} :
    (s.registerEdge e).edges[k]? =
      if k = e.toEdgeKey then some e
      else if e.kind = .contains ∧ k.dest = e.dest ∧ k.kind = .contains then none
      else s.edges[k]? := by
  rw [show s.registerEdge e = (s.evictParents e.toEdgeKey).insertEdge e from rfl, insertEdge,
    Std.ExtTreeMap.getElem?_insert]
  by_cases hk : e.toEdgeKey = k
  · simp [hk]
  · simp [hk, Ne.symm hk, getElem?_evictParents h]

/-! ## Coherence along steps -/

/-- Making room for a relation keeps a store coherent. -/
theorem Coherent.evictParents (h : s.Coherent) {key : EdgeKey} :
    (s.evictParents key).Coherent := by
  unfold Store.evictParents
  split
  · exact h.foldl_eraseEdge
  · exact h

/-- A step keeps a store coherent. -/
theorem Step.coherent (hs : Step P s s') (h : s.Coherent) : s'.Coherent := by
  cases hs with
  | register hfree _ => exact h.register hfree
  | dropNode hn => exact h.dropNode hn
  | rename name hn =>
    refine (h.dropNode hn).register ?_
    simp [Store.dropNode, h.node_id hn]
  | setNode hn _ _ => exact h.setNode hn rfl rfl
  | eraseEdge key => exact h.eraseEdge
  | registerEdge _ _ _ => exact h.evictParents.insertEdge
  | @setEdge key e a he _ =>
    have hkey : e.toEdgeKey = key := h.edge_key he
    exact h.setEdge (mem_edges_iff.2 ⟨e, he⟩) hkey
  | resolve => exact h.resolve
  | clear => exact coherent_empty

/-- Steps keep a store coherent. -/
theorem Steps.coherent (hs : Steps P s s') (h : s.Coherent) : s'.Coherent := by
  induction hs with
  | refl => exact h
  | tail _ hstep ih => exact hstep.coherent ih

/-- A pass over a list is a sequence of steps if what it does for each member is one. The pass may
carry other data beside the store, which `view` picks out. -/
theorem steps_foldl {σ α : Type} (view : σ → Store) {f : σ → α → σ} {l : List α} {x : σ}
    (h : (view x).Coherent)
    (hf : ∀ x, (view x).Coherent → ∀ a ∈ l, Steps P (view x) (view (f x a))) :
    Steps P (view x) (view (l.foldl f x)) := by
  induction l generalizing x with
  | nil => exact .refl
  | cons a l ih =>
    have hstep := hf x h a (by simp)
    exact hstep.trans (ih (hstep.coherent h) fun y hy b hb => hf y hy b (by simp [hb]))

/-! ## Operations on entities -/

section
variable {n : Node} {id key value : String} {a : Attributes}

/-- Adding an entity is one step: it takes a free id. -/
theorem Step.addNode (hn : P n.attributes) (h : s.addNode n = .ok s') : Step P s s' := by
  unfold Store.addNode at h
  split at h
  · cases h
  · next hfree =>
    cases h
    exact .register (hasNode_eq_false_iff.1 (by simpa using hfree)) hn

/-- An entity that is taken out was there, and the store is left without it. -/
theorem removeNodeOnly_eq_some (h : s.removeNodeOnly id = some (n, s')) :
    s.nodes[id]? = some n ∧ s' = s.dropNode id n := by
  unfold removeNodeOnly at h
  obtain ⟨m, hm, heq⟩ := Option.map_eq_some_iff.1 h
  cases heq
  exact ⟨hm, rfl⟩

/-- Taking an entity out and leaving its relations is one step. -/
theorem Step.removeNodeOnly (h : s.removeNodeOnly id = some (n, s')) : Step P s s' := by
  obtain ⟨hn, rfl⟩ := removeNodeOnly_eq_some h
  exact .dropNode hn

/-- Putting an entity first drops the one that has its id. -/
theorem putNode_eq : s.putNode n =
    match s.nodes[n.id]? with
    | some m => (s.dropNode n.id m).register n
    | none => s.register n := by
  unfold putNode removeNodeOnly
  cases s.nodes[n.id]? <;> rfl

/-- Putting an entity drops the one with its id, if there is one, and registers it. -/
theorem Steps.putNode (hn : P n.attributes) : Steps P s (s.putNode n) := by
  rw [putNode_eq]
  cases hm : s.nodes[n.id]? with
  | none => exact (Step.register hm hn).steps
  | some m =>
    refine (Step.dropNode hm).steps.tail (.register ?_ hn)
    simp [Store.dropNode]

/-- A value under the label's key renames an entity, any other is added to its attributes. -/
theorem Steps.addNodeAttribute (hP : Attributes.Rule P) (hc : s.Coherent)
    (h : s.addNodeAttribute id key value = .ok s') : Steps P s s' := by
  unfold Store.addNodeAttribute at h
  split at h
  · cases h
  · next n hn =>
    split at h
    · next hk =>
      cases h
      refine (Step.setNode hn hP.insert fun hl hmem => ?_).steps
      exact (Attributes.mem_entries_insert hmem).elim (fun heq => hk heq.symm) hl
    · split at h
      · cases h
        exact .refl
      · cases h
        obtain rfl := hc.node_id hn
        simp only [putNode_eq, hn]
        exact (Step.rename value hn).steps

/-- Merging attributes into those of an entity, unless labels are among them. -/
theorem Steps.mergeNodeAttributes (hP : Attributes.Rule P) (ha : labelKey ∉ a.entries)
    (h : s.mergeNodeAttributes id a = some s') : Steps P s s' := by
  unfold Store.mergeNodeAttributes at h
  obtain ⟨n, hn, rfl⟩ := Option.map_eq_some_iff.1 h
  refine (Step.setNode hn hP.merge fun hl hmem => ?_).steps
  exact (Attributes.mem_entries_merge hmem).elim hl ha

end

/-! ## Operations on relations -/

section
variable {e : Edge} {edge : EdgeKey} {id key value : String} {a : Attributes}

/-- Removing a relation is one step. -/
theorem Step.removeEdge (h : s.removeEdge edge = some (e, s')) : Step P s s' := by
  unfold Store.removeEdge at h
  obtain ⟨_, _, heq⟩ := Option.map_eq_some_iff.1 h
  cases heq
  exact .eraseEdge edge

theorem Steps.foldl_eraseEdge (hc : s.Coherent) {keys : List EdgeKey} :
    Steps P s (keys.foldl Store.eraseEdge s) :=
  steps_foldl id hc fun _ _ key _ => (Step.eraseEdge key).steps

/-- An entity is taken out first, and then the relations that touch it, one by one. -/
theorem Steps.removeNode (hc : s.Coherent) {n : Node} (h : s.removeNode id = some (n, s')) :
    Steps P s s' := by
  unfold Store.removeNode at h
  obtain ⟨⟨m, s₁⟩, hm, heq⟩ := Option.map_eq_some_iff.1 h
  cases heq
  have hstep : Step P s s₁ := .removeNodeOnly hm
  exact hstep.steps.trans (Steps.foldl_eraseEdge (hstep.coherent hc))

/-- Adding a relation is one step, in which the parents that it displaces go too. -/
theorem Step.addEdge (he : P e.attributes) (h : s.addEdge e = .ok s') : Step P s s' := by
  unfold Store.addEdge at h
  split at h
  · cases h
  · next hself =>
    split at h
    · cases h
    · next hfree =>
      cases h
      refine .registerEdge (by simpa using hself) ?_ he
      simpa using hfree

/-- Putting a relation erases the one that has its key and stores it. -/
theorem Steps.putEdge (he : P e.attributes) (h : s.putEdge e = .ok s') : Steps P s s' := by
  unfold Store.putEdge at h
  split at h
  · cases h
  · next hself =>
    cases h
    refine (Step.eraseEdge e.toEdgeKey).steps.tail (.registerEdge (by simpa using hself) ?_ he)
    rw [getElem?_eraseEdge, if_pos rfl]

/-- Adding a value to a relation is one step. -/
theorem Step.addEdgeAttribute (hP : Attributes.Rule P)
    (h : s.addEdgeAttribute edge key value = .ok s') : Step P s s' := by
  unfold Store.addEdgeAttribute at h
  split at h
  · cases h
  · next e he =>
    cases h
    exact .setEdge he hP.insert

/-- Merging attributes into those of a relation is one step. -/
theorem Step.mergeEdgeAttributes (hP : Attributes.Rule P)
    (h : s.mergeEdgeAttributes edge a = some s') : Step P s s' := by
  unfold Store.mergeEdgeAttributes at h
  obtain ⟨e, he, rfl⟩ := Option.map_eq_some_iff.1 h
  exact .setEdge he hP.merge

/-- Making those of some changes that the store accepts. -/
theorem Steps.foldl_attempt {α : Type} {change : Store → α → Except FactError Store} {l : List α}
    (hc : s.Coherent) (h : ∀ a ∈ l, ∀ {s s'}, change s a = .ok s' → Step P s s') :
    Steps P s (l.foldl (Store.attempt change) ({}, s)).2 := by
  refine steps_foldl Prod.snd (x := (({}, s) : Tally × Store)) hc ?_
  intro x _ a hmem
  unfold Store.attempt
  split
  · next hchange => exact (h a hmem hchange).steps
  · exact .refl

/-- Each of the changes is counted once, as made or as refused. -/
theorem added_add_refused_foldl_attempt {α : Type} {change : Store → α → Except FactError Store}
    (s : Store) (l : List α) :
    (l.foldl (Store.attempt change) ({}, s)).1.added +
      (l.foldl (Store.attempt change) ({}, s)).1.refused = l.length := by
  induction l using List.reverseRecOn with
  | nil => rfl
  | append_singleton l a ih =>
    rw [List.foldl_append, List.foldl_cons, List.foldl_nil, List.length_append,
      List.length_singleton, ← ih]
    generalize l.foldl (Store.attempt change) ({}, s) = x
    unfold Store.attempt
    cases change x.2 a with
    | ok _ => exact Nat.add_right_comm ..
    | error _ => rfl

/-- Adding those of some relations that the store accepts. -/
theorem Steps.addEdges (hc : s.Coherent) {edges : List Edge} (he : ∀ e ∈ edges, P e.attributes) :
    Steps P s (s.addEdges edges).2 :=
  foldl_attempt hc fun e hmem => Step.addEdge (he e hmem)

/-- Linking entities to the containers of their files. -/
theorem Steps.attach (hP : Attributes.Rule P) (hc : s.Coherent)
    (container? : String → Option String) (fileAttribute : String) :
    Steps P s (s.attach container? fileAttribute).2 := by
  refine Steps.addEdges hc ?_
  intro e he
  obtain ⟨n, _, hn⟩ := List.mem_filterMap.1 he
  unfold attachment? at hn
  split at hn
  · split at hn
    · split at hn <;> cases hn
      exact hP.empty
    · cases hn
  · cases hn

end

end

end ArchFacts.Store
