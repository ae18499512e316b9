import ArchFacts.Proofs.Store.Offer

/-!
# Sequences of insertions

A relation comes into a store by one of two calls: one refuses a relation that is there
(`Insertion.add`), the other puts the new one in its place (`Insertion.put`). Neither makes an
entity its own parent. What an accepted call leaves under each key is one equation
(`getElem?_run`): the relation under its own key, nothing under the keys of its rivals, and all else
as it was. Hence, after any sequence of calls to the empty store, the parent of an entity is the
last that was accepted (`Insertion.traces_runAll`), and a parent that comes in puts out that one
only (`last_parent_wins`).
-/

namespace ArchFacts

/-- A call that brings a relation into a store. -/
inductive Insertion where
  | add (e : Edge)
  | put (e : Edge)

namespace Insertion

/-- The relation that a call brings. -/
def edge : Insertion → Edge
  | add e | put e => e

/-- What a store answers to a call. -/
def run (s : Store) : Insertion → Except FactError Store
  | add e => s.addEdge e
  | put e => s.putEdge e

/-- Makes a call, after others of which the accepted relations and the store are given. -/
def record (x : List Edge × Store) (c : Insertion) : List Edge × Store :=
  match c.run x.2 with
  | .ok s => (x.1 ++ [c.edge], s)
  | .error _ => x

/-- Makes calls to the empty store, and gives the accepted relations and the store. -/
def runAll (calls : List Insertion) : List Edge × Store := calls.foldl record ([], ∅)

end Insertion

/-- The last of some relations that gives an entity a parent. -/
def lastParent? (es : List Edge) (child : String) : Option Edge :=
  es.reverse.find? fun e => e.kind = .contains ∧ e.dest = child

/-- The last relation from a parent is the newest one, if that comes from a parent. -/
theorem lastParent?_concat {es : List Edge} {e : Edge} {child : String} :
    lastParent? (es ++ [e]) child =
      if e.kind = .contains ∧ e.dest = child then some e else lastParent? es child := by
  rw [lastParent?, List.reverse_concat, List.find?_cons]
  by_cases h : e.kind = .contains ∧ e.dest = child <;> simp [h, lastParent?]

/-- The last parent is a parent of the entity. -/
theorem kind_and_dest_of_lastParent? {es : List Edge} {e : Edge} {child : String}
    (h : lastParent? es child = some e) : e.kind = .contains ∧ e.dest = child := by
  simpa using List.find?_some h

namespace Store

section
variable {s s' : Store} {e : Edge} {key : EdgeKey} {c : Insertion}

/-! ## One call -/

/-- A relation is added exactly if it is not there and contains no entity in itself. -/
theorem exists_addEdge_iff : (∃ s', s.addEdge e = .ok s') ↔
    ¬ (e.kind = .contains ∧ e.source = e.dest) ∧ s.edges[e.toEdgeKey]? = none := by
  rw [addEdge, ← EdgeKey.isSelfContainment_iff, Std.ExtTreeMap.contains_eq_isSome_getElem?]
  by_cases hself : e.isSelfContainment = true
  · simp [hself]
  · cases h : s.edges[e.toEdgeKey]? <;> simp [hself]

/-- A relation is put in exactly if it contains no entity in itself. -/
theorem exists_putEdge_iff : (∃ s', s.putEdge e = .ok s') ↔
    ¬ (e.kind = .contains ∧ e.source = e.dest) := by
  rw [putEdge, ← EdgeKey.isSelfContainment_iff]
  by_cases hself : e.isSelfContainment = true <;> simp [hself]

/-- An accepted call registers its relation, after erasing what stood under the key. -/
theorem run_eq_ok (h : c.run s = .ok s') :
    s' = s.registerEdge c.edge ∨ s' = (s.eraseEdge c.edge.toEdgeKey).registerEdge c.edge := by
  cases c with
  | add e =>
    simp only [Insertion.run, addEdge] at h
    split at h
    · cases h
    · split at h <;> cases h
      exact .inl rfl
  | put e =>
    simp only [Insertion.run, putEdge] at h
    split at h <;> cases h
    exact .inr rfl

/-- A call leaves the entities as they are. -/
theorem run_nodes (h : c.run s = .ok s') : s'.nodes = s.nodes := by
  rcases run_eq_ok h with rfl | rfl
  · exact registerEdge_nodes
  · rw [registerEdge_nodes, eraseEdge_nodes]

/-- A call keeps the indices in step. -/
theorem Coherent.run (hc : s.Coherent) (h : c.run s = .ok s') : s'.Coherent := by
  rcases run_eq_ok h with rfl | rfl
  · exact hc.evictParents.insertEdge
  · exact hc.eraseEdge.evictParents.insertEdge

/-- What stands under a key after an accepted call. -/
theorem getElem?_run (hc : s.Coherent) (h : c.run s = .ok s') :
    s'.edges[key]? =
      if key = c.edge.toEdgeKey then some c.edge
      else if c.edge.Rivals key then none
      else s.edges[key]? := by
  rcases run_eq_ok h with rfl | rfl
  · exact getElem?_registerEdge_rivals hc
  · rw [getElem?_registerEdge_rivals hc.eraseEdge, getElem?_eraseEdge]
    by_cases hkey : key = c.edge.toEdgeKey
    · rw [if_pos hkey, if_pos hkey]
    · rw [if_neg hkey, if_neg hkey, if_neg hkey]

end

end Store

namespace Insertion

section
variable {x : List Edge × Store}

/-! ## Sequences of calls -/

/-- Whether the parents in a store are the last ones among the relations that it has accepted. -/
structure Traces (x : List Edge × Store) : Prop where
  coherent : x.2.Coherent
  parents : ∀ {key : EdgeKey}, key.kind = .contains →
    x.2.edges[key]? = (lastParent? x.1 key.dest).filter (·.toEdgeKey = key)

theorem Traces.record (h : Traces x) (c : Insertion) : Traces (record x c) := by
  unfold Insertion.record
  cases hrun : c.run x.2 with
  | error _ => exact h
  | ok s' =>
    refine ⟨h.coherent.run hrun, fun {key} hkind => ?_⟩
    rw [Store.getElem?_run h.coherent hrun, lastParent?_concat]
    by_cases hparent : c.edge.kind = .contains ∧ c.edge.dest = key.dest
    · -- The relation is the last parent now, and all other parents are rivals of it.
      have hrival : c.edge.Rivals key := ⟨hparent.1, hkind, hparent.2⟩
      rw [if_pos hparent, if_pos hrival, Option.filter_some]
      by_cases hkey : key = c.edge.toEdgeKey <;> simp [hkey, eq_comm]
    · have hkey : key ≠ c.edge.toEdgeKey := fun hkey => hparent (by simp [← hkey, hkind])
      have hrival : ¬ c.edge.Rivals key := fun hr => hparent ⟨hr.1, hr.2.2⟩
      rw [if_neg hkey, if_neg hrival, if_neg hparent, h.parents hkind]

/-- After any calls the parents in the store are the last ones that it has accepted. -/
theorem traces_runAll (calls : List Insertion) : Traces (runAll calls) :=
  List.foldlRecOn calls Insertion.record
    ⟨Store.coherent_empty, fun _ => by simp [lastParent?]⟩ fun _ h c _ => h.record c

/-- The relation of an entity's parent is the last one that was accepted. -/
theorem Traces.lastParent?_eq_some_iff (h : Traces x) {e : Edge} {child : String} :
    lastParent? x.1 child = some e ↔
      x.2.edges[e.toEdgeKey]? = some e ∧ e.kind = .contains ∧ e.dest = child := by
  constructor
  · intro hlast
    obtain ⟨hkind, rfl⟩ := kind_and_dest_of_lastParent? hlast
    refine ⟨?_, hkind, rfl⟩
    rw [h.parents hkind, hlast]
    simp
  · rintro ⟨he, hkind, rfl⟩
    rw [h.parents hkind, Option.filter_eq_some_iff] at he
    exact he.1

/-- A parent is there exactly if it is that of the last relation. -/
theorem Traces.mem_edges_iff (h : Traces x) {e : Edge} (hkind : e.kind = .contains) :
    e.toEdgeKey ∈ x.2.edges ↔ (lastParent? x.1 e.dest).map (·.source) = some e.source := by
  rw [Store.mem_edges_iff, Option.map_eq_some_iff]
  constructor
  · rintro ⟨e', he'⟩
    have hkey : e'.toEdgeKey = e.toEdgeKey := h.coherent.edge_key he'
    refine ⟨e', h.lastParent?_eq_some_iff.2 ?_, by rw [hkey]⟩
    rw [hkey]
    exact ⟨he', hkind, rfl⟩
  · rintro ⟨e', hlast, hsource⟩
    obtain ⟨he', hkind', hdest⟩ := h.lastParent?_eq_some_iff.1 hlast
    have hkey : e'.toEdgeKey = e.toEdgeKey := by
      rw [EdgeKey.mk.injEq]
      exact ⟨hsource, hdest, hkind'.trans hkind.symm⟩
    exact ⟨e', hkey ▸ he'⟩

/-- The relations that give an entity a parent are the last one, if there is one. -/
theorem Traces.filter_edgeList (h : Traces x) (child : String) :
    x.2.edgeList.filter (fun e => e.kind = .contains ∧ e.dest = child) =
      (lastParent? x.1 child).toList := by
  refine eq_of_pairwise_lt (f := Edge.toEdgeKey) (h.coherent.pairwise_edgeList.filter _) ?_ ?_
  · cases lastParent? x.1 child <;> simp
  · intro e
    rw [List.mem_filter, Store.mem_edgeList h.coherent, decide_eq_true_eq, Option.mem_toList,
      h.lastParent?_eq_some_iff]

/-- An accepted call that gives an entity a parent takes away the last one, and no call takes away
anything else. -/
theorem Traces.getElem?_run (h : Traces x) {c : Insertion} {s' : Store}
    (hrun : c.run x.2 = .ok s') {key : EdgeKey} :
    s'.edges[key]? =
      if key = c.edge.toEdgeKey then some c.edge
      else if c.edge.kind = .contains ∧
        (lastParent? x.1 c.edge.dest).map (·.toEdgeKey) = some key then none
      else x.2.edges[key]? := by
  rw [Store.getElem?_run h.coherent hrun]
  refine if_congr Iff.rfl rfl ?_
  by_cases hrival : c.edge.Rivals key
  · obtain ⟨hkind, hkind', hdest⟩ := hrival
    rw [if_pos ⟨hkind, hkind', hdest⟩]
    split
    · rfl
    · next hlast =>
      -- A rival that is not the last parent is not there.
      refine (Option.eq_none_iff_forall_ne_some.2 fun e he => hlast ⟨hkind, ?_⟩).symm
      obtain rfl : e.toEdgeKey = key := h.coherent.edge_key he
      rw [h.lastParent?_eq_some_iff.2 ⟨he, hkind', hdest.symm⟩, Option.map_some]
  · rw [if_neg hrival, if_neg]
    rintro ⟨hkind, hlast⟩
    obtain ⟨e, he, rfl⟩ := Option.map_eq_some_iff.1 hlast
    obtain ⟨hkind', hdest⟩ := kind_and_dest_of_lastParent? he
    exact hrival ⟨hkind, hkind', hdest.symm⟩

/-- **The last accepted parent wins, and nothing else is lost.** After any sequence of calls to the
empty store a parent is added exactly if it is not the entity itself nor the parent that it has; any
other relation is added exactly if it is not there; and any relation is put in unless it is of an
entity as its own parent. The parent that an entity has is the last that was accepted. A call that
is accepted leaves its relation, takes away the parent that the entity had if it gives it another,
and leaves everything else as it is. -/
theorem last_parent_wins (calls : List Insertion) :
    let accepted := (runAll calls).1
    let s := (runAll calls).2
    (∀ e : Edge, e.kind = .contains → ((∃ s', s.addEdge e = .ok s') ↔
      e.source ≠ e.dest ∧ (lastParent? accepted e.dest).map (·.source) ≠ some e.source)) ∧
    (∀ e : Edge, e.kind ≠ .contains →
      ((∃ s', s.addEdge e = .ok s') ↔ s.edge? e.toEdgeKey = none)) ∧
    (∀ e : Edge, (∃ s', s.putEdge e = .ok s') ↔ ¬ (e.kind = .contains ∧ e.source = e.dest)) ∧
    (∀ child, s.edgeList.filter (fun e => e.kind = .contains ∧ e.dest = child) =
      (lastParent? accepted child).toList) ∧
    (∀ (c : Insertion) (s' : Store), c.run s = .ok s' → s'.nodes = s.nodes ∧
      ∀ key, s'.edge? key =
        if key = c.edge.toEdgeKey then some c.edge
        else if c.edge.kind = .contains ∧
          (lastParent? accepted c.edge.dest).map (·.toEdgeKey) = some key then none
        else s.edge? key) := by
  intro accepted s
  have h : Traces (accepted, s) := traces_runAll calls
  refine ⟨?_, ?_, fun e => Store.exists_putEdge_iff, h.filter_edgeList, ?_⟩
  · intro e hkind
    rw [Store.exists_addEdge_iff, ← Option.not_isSome_iff_eq_none,
      ← Std.ExtTreeMap.mem_iff_isSome_getElem?]
    exact and_congr (not_congr (and_iff_right hkind)) (not_congr (h.mem_edges_iff hkind))
  · intro e hkind
    rw [Store.exists_addEdge_iff]
    exact and_iff_right fun hself => hkind hself.1
  · intro c s' hrun
    exact ⟨Store.run_nodes hrun, fun _ => h.getElem?_run hrun⟩

/-- A file that is moved between two subsystems, is moved back to the first, and is called by
another; the call as well as the parent that it has are put in once more, with an attribute. -/
def movedBack : List Insertion :=
  [.add { source := "src", dest := "f", kind := .contains },
    .add { source := "lib", dest := "f", kind := .contains },
    .add { source := "g", dest := "f", kind := .calls },
    .add { source := "src", dest := "f", kind := .contains },
    .add { source := "src", dest := "f", kind := .contains, resolved := true },
    .put { source := "f", dest := "f", kind := .contains },
    .put { source := "g", dest := "f", kind := .calls
           attributes := (∅ : Attributes).insert "line" "7" },
    .put { source := "src", dest := "f", kind := .contains
           attributes := (∅ : Attributes).insert "line" "1" }]

theorem last_parent_wins_movedBack :
    let s := (runAll movedBack).2
    let lib : Edge := { source := "lib", dest := "f", kind := .contains }
    (¬ ∃ s', s.addEdge { source := "src", dest := "f", kind := .contains } = .ok s') ∧
    (¬ ∃ s', s.addEdge { source := "g", dest := "f", kind := .calls } = .ok s') ∧
    ∃ s', (add lib).run s = .ok s' ∧ s'.edge? lib.toEdgeKey = some lib ∧
      s'.edge? ⟨"src", "f", .contains⟩ = none ∧
      s'.edge? ⟨"g", "f", .calls⟩ = some { source := "g", dest := "f", kind := .calls
                                           attributes := (∅ : Attributes).insert "line" "7" } := by
  intro s lib
  have hlast : lastParent? (runAll movedBack).1 "f" =
      some { source := "src", dest := "f", kind := .contains
             attributes := (∅ : Attributes).insert "line" "1" } := by decide +kernel
  have hcall : s.edge? ⟨"g", "f", .calls⟩ =
      some { source := "g", dest := "f", kind := .calls
             attributes := (∅ : Attributes).insert "line" "7" } := by decide +kernel
  obtain ⟨hparent, hother, -, -, hrun⟩ := last_parent_wins movedBack
  obtain ⟨s', hs⟩ := (hparent lib rfl).2 ⟨by decide, by rw [hlast]; decide⟩
  obtain ⟨-, hget⟩ := hrun (add lib) s' hs
  refine ⟨?_, ?_, s', hs, ?_, ?_, ?_⟩
  · rw [hparent _ rfl, hlast]
    decide
  · rw [hother _ (by decide), hcall]
    exact nofun
  · exact (hget _).trans (if_pos rfl)
  · rw [hget, if_neg (by decide), if_pos ⟨rfl, by rw [edge, hlast]; rfl⟩]
  · rw [hget, if_neg (by decide), if_neg (by rw [edge, hlast]; decide), hcall]

end

end Insertion

end ArchFacts
