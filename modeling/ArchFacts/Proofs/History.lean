import ArchFacts.Proofs.Snapshot.Decode
import ArchFacts.Proofs.Store.Pass
import Mathlib.Data.List.Induction

/-!
# Histories of stores

A history is a list of changes that a caller makes to a store, the empty store at first; a change
that is refused leaves the store as it was. After every history the indices show exactly the
entities and relations, and queries through them find what searches find (`indexed_after`). After
every history of changes that bring in attributes only as they are built, the store obeys the rules
on its shape (`shaped_after`).
-/

namespace ArchFacts

/-- Something that a caller does to a store. -/
inductive Change where
  | addNode (n : Node)
  | putNode (n : Node)
  | addEdge (e : Edge)
  | putEdge (e : Edge)
  | removeNode (id : String)
  | removeNodeOnly (id : String)
  | removeEdge (key : EdgeKey)
  | addNodeAttribute (id key value : String)
  | addEdgeAttribute (edge : EdgeKey) (key value : String)
  | resolve
  | attach (container? : String → Option String) (fileAttribute : String)
  | clear
  | reindex
  | createNode (id name : String) (kind : NodeKind)
  | createEdge (key : EdgeKey)
  | setAttribute (target : RecordTarget) (key value : String)
  | replay (records : List Record)
  | install (h : Hierarchy) (config : Config)
  | apply (d : Document) (config : Config)
  | load (config : Config) (text : String)
  /-- The store gives way to one of any entities and relations. -/
  | ofLists (nodes : List Node) (edges : List Edge)
  /-- The store gives way to one of which some bytes are a snapshot. -/
  | decode (bytes : ByteArray)

namespace Change

/-- The store after a change. -/
def run (s : Store) : Change → Store
  | addNode n => (s.granted (s.addNode n)).2
  | putNode n => s.putNode n
  | addEdge e => (s.granted (s.addEdge e)).2
  | putEdge e => (s.granted (s.putEdge e)).2
  | removeNode id => (s.removeNode id).elim s (·.2)
  | removeNodeOnly id => (s.removeNodeOnly id).elim s (·.2)
  | removeEdge key => (s.removeEdge key).elim s (·.2)
  | addNodeAttribute id key value => (s.granted (s.addNodeAttribute id key value)).2
  | addEdgeAttribute edge key value => (s.granted (s.addEdgeAttribute edge key value)).2
  | resolve => s.resolve.2
  | attach container? fileAttribute => (s.attach container? fileAttribute).2
  | clear => ∅
  | reindex => s.reindex
  | createNode id name kind => (s.createNode id name kind).2
  | createEdge key => (s.createEdge key).2
  | setAttribute target key value => (s.setAttribute target key value).2
  | replay records => (s.granted ((Record.replay Store.sink s records).map (·.2))).2
  | install h config => (h.install config s).2
  | apply d config => (s.granted ((d.apply config s).map (·.2))).2
  | load config text => (s.granted ((s.load config text).map (·.2))).2
  | ofLists nodes edges => .ofLists nodes edges
  | decode bytes => (s.granted (Snapshot.decode bytes)).2

/-- Whether a change works on the store that is there, and the attributes of the entities and
relations it is given follow `P`. -/
def Follows (P : Attributes → Prop) : Change → Prop
  | addNode n | putNode n => P n.attributes
  | addEdge e | putEdge e => P e.attributes
  | ofLists .. | decode _ => False
  | _ => True

/-- A change that works on the store that is there, and is given only attributes that operations
build. -/
abbrev Plain : Change → Prop := Follows Attributes.Built

end Change

namespace Store

/-- The store after a history. -/
def after (history : List Change) : Store := history.foldl Change.run ∅

section
variable {P : Attributes → Prop} {s : Store} {α : Type}

/-- The store after an operation that may find nothing to do. -/
theorem Steps.elim {r : Option (α × Store)} (h : ∀ a s', r = some (a, s') → Steps P s s') :
    Steps P s (r.elim s (·.2)) := by
  cases r with
  | none => exact .refl
  | some r => exact h r.1 r.2 rfl

/-- The store after an operation that reports what it did, unless it is refused. -/
theorem Steps.granted_map {r : Except FactError (α × Store)}
    (h : ∀ a s', r = .ok (a, s') → Steps P s s') : Steps P s (s.granted (r.map (·.2))).2 := by
  refine Steps.granted ?_
  intro s' hs
  obtain ⟨⟨a, s''⟩, hr, rfl⟩ := map_eq_ok_iff.1 hs
  exact h a s'' hr

end

end Store

/-! ## What a change does -/

namespace Change

section
variable {P Q : Attributes → Prop} {s : Store} {c : Change}

theorem Follows.imp (h : c.Follows P) (hPQ : ∀ {a}, P a → Q a) : c.Follows Q := by
  cases c <;> first | exact hPQ h | exact h

/-- A change is a sequence of elementary steps. -/
theorem steps (hP : Attributes.Rule P) (hc : s.Coherent) (h : c.Follows P) :
    Store.Steps P s (c.run s) := by
  cases c with
  | addNode n => exact .granted fun _ hs => (Store.Step.addNode h hs).steps
  | putNode n => exact .putNode h
  | addEdge e => exact .granted fun _ hs => (Store.Step.addEdge h hs).steps
  | putEdge e => exact .granted fun _ hs => .putEdge h hs
  | removeNode id => exact .elim fun _ _ hs => .removeNode hc hs
  | removeNodeOnly id => exact .elim fun _ _ hs => (Store.Step.removeNodeOnly hs).steps
  | removeEdge key => exact .elim fun _ _ hs => (Store.Step.removeEdge hs).steps
  | addNodeAttribute id key value => exact .granted fun _ hs => .addNodeAttribute hP hc hs
  | addEdgeAttribute edge key value =>
    exact .granted fun _ hs => (Store.Step.addEdgeAttribute hP hs).steps
  | resolve => exact Store.Step.resolve.steps
  | attach container? fileAttribute => exact .attach hP hc container? fileAttribute
  | clear => exact Store.Step.clear.steps
  | reindex => rw [run, hc.reindex_eq]
  | createNode id name kind => exact .createNode hP
  | createEdge key => exact .createEdge hP
  | setAttribute target key value => exact .setAttribute hP hc
  | replay records => exact .granted_map fun _ _ hs => .replay hP hc hs
  | install hierarchy config => exact .install hP hc hierarchy config
  | apply d config => exact .granted_map fun _ _ hs => .apply hP hc hs
  | load config text => exact .granted_map fun _ _ hs => .load hP hc hs
  | ofLists nodes edges => exact h.elim
  | decode bytes => exact h.elim

/-- A change works on the store that is there, or puts another in its place. -/
theorem follows_or_replaces (c : Change) : c.Follows (fun _ => True) ∨
    (∃ nodes edges, c = ofLists nodes edges) ∨ ∃ bytes, c = decode bytes := by
  cases c <;> simp [Follows]

/-- A change of a coherent store gives a coherent store. -/
theorem coherent_run (hc : s.Coherent) (c : Change) : (c.run s).Coherent := by
  rcases follows_or_replaces c with h | ⟨nodes, edges, rfl⟩ | ⟨bytes, rfl⟩
  · exact Store.Steps.coherent (steps Attributes.rule_true hc h) hc
  · exact Store.coherent_ofLists nodes edges
  · cases h : Snapshot.decode bytes with
    | ok s' =>
      obtain ⟨nodes, edges, _, rfl⟩ := Snapshot.decode_eq_ok_iff.1 h
      simpa only [run, h, Store.granted] using Store.coherent_ofLists nodes edges
    | error _ => simpa only [run, h, Store.granted] using hc

end

end Change

namespace Store

/-! ## What a history leaves -/

section
variable {P : Attributes → Prop} {c : Change} {history : List Change}

theorem after_concat : after (history ++ [c]) = c.run (after history) := by
  rw [after, List.foldl_append]
  rfl

/-- The store after any history is coherent. -/
theorem coherent_after (history : List Change) : (after history).Coherent := by
  induction history using List.reverseRecOn with
  | nil => exact coherent_empty
  | append_singleton history c ih =>
    rw [after_concat]
    exact Change.coherent_run ih c

/-- A history of changes that follow a rule is a sequence of elementary steps. -/
theorem steps_after (hP : Attributes.Rule P) (h : ∀ c ∈ history, c.Follows P) :
    Steps P ∅ (after history) := by
  induction history using List.reverseRecOn with
  | nil => exact .refl
  | append_singleton history c ih =>
    rw [after_concat]
    have hbefore : Steps P ∅ (after history) := ih fun c hc => h c (by simp [hc])
    exact hbefore.trans (Change.steps hP (coherent_after history) (h c (by simp)))

/-- No entity has two parents after a history that brings in no other store. -/
theorem singleParents_after (h : ∀ c ∈ history, c.Follows fun _ => True) :
    (after history).SingleParents :=
  Steps.singleParents (steps_after Attributes.rule_true h) coherent_empty singleParents_empty

/-- The rules on the shape of a store hold after a history of plain changes. -/
theorem wellFormed_of_plain (h : ∀ c ∈ history, c.Plain) : (after history).WellFormed := by
  have hproper : ∀ c ∈ history, c.Follows Attributes.Proper :=
    fun c hc => (h c hc).imp Attributes.Built.proper
  exact Steps.wellFormed (steps_after Attributes.rule_proper hproper) coherent_empty
    wellFormed_empty

/-- The indices of a store show after any history what its entities and relations are: every query
through them finds what a search finds, in the order of ids or keys, none of them keeps an empty
set, and computing them anew changes nothing. -/
theorem indexed_after (history : List Change) :
    let s := after history
    (∀ name, s.nodesNamed name = s.nodeList.filter (·.name = name)) ∧
    (∀ id kind?, s.edgesFrom id kind? =
      s.edgeList.filter fun e => e.source = id && kind?.all (e.kind = ·)) ∧
    (∀ id kind?, s.edgesTo id kind? =
      s.edgeList.filter fun e => e.dest = id && kind?.all (e.kind = ·)) ∧
    s.nodeList.Pairwise (fun a b => compare a.id b.id = .lt) ∧
    s.edgeList.Pairwise (fun a b => compare a.toEdgeKey b.toEdgeKey = .lt) ∧
    (s.names.Tight ∧ s.outgoing.Tight ∧ s.incoming.Tight) ∧
    s.reindex = s := by
  intro s
  have h : s.Coherent := coherent_after history
  exact ⟨h.nodesNamed_eq, h.edgesFrom_eq, h.edgesTo_eq, h.pairwise_nodeList, h.pairwise_edgeList,
    ⟨h.names_tight, h.outgoing_tight, h.incoming_tight⟩, h.reindex_eq⟩

/-- After a history of plain changes every entity stands under its id and has no label, every
relation stands under its key and contains no entity in itself, no list of values is empty or
repeats a value, and an entity has at most one parent. -/
theorem shaped_after (h : ∀ c ∈ history, c.Plain) :
    let s := after history
    (∀ id n, s.node? id = some n → n.id = id ∧ labelKey ∉ n.attributes.entries ∧
      ∀ key values, (key, values) ∈ n.attributes.toList → values ≠ [] ∧ values.Nodup) ∧
    (∀ key e, s.edge? key = some e → e.toEdgeKey = key ∧
      ¬ (e.kind = .contains ∧ e.source = e.dest) ∧
      ∀ key values, (key, values) ∈ e.attributes.toList → values ≠ [] ∧ values.Nodup) ∧
    ∀ id, (s.edgeList.filter fun e => e.kind = .contains && e.dest = id).length ≤ 1 := by
  intro s
  have hw : s.WellFormed := wellFormed_of_plain h
  refine ⟨?_, ?_, ?_⟩
  · intro id n hn
    refine ⟨hw.node_id hn, hw.no_label hn, ?_⟩
    intro key values hm
    exact hw.node_proper hn key values (Std.ExtTreeMap.mem_toList_iff_getElem?_eq_some.1 hm)
  · intro key e he
    refine ⟨hw.edge_key he, ?_, ?_⟩
    · intro hself
      have := hw.not_selfContainment (mem_edges_iff.2 ⟨e, he⟩)
      rw [← hw.edge_key he, EdgeKey.isSelfContainment] at this
      simp [hself] at this
    · intro k values hm
      exact hw.edge_proper he k values (Std.ExtTreeMap.mem_toList_iff_getElem?_eq_some.1 hm)
  · intro id
    exact hw.length_parents_le (coherent_after history) id

/-- A file that is renamed and then moved from one subsystem to another, which puts the first
parent out. -/
def movedFile : List Change :=
  [.addNode { id := "src", kind := .subsystem }, .addNode { id := "lib", kind := .subsystem },
    .addNode { id := "f", kind := .file, attributes := (∅ : Attributes).insert labelKey "main.c" },
    .addEdge { source := "src", dest := "f", kind := .contains },
    .addNodeAttribute "f" labelKey "start.c",
    .addEdge { source := "lib", dest := "f", kind := .contains }, .resolve, .removeNodeOnly "src"]

theorem shaped_after_movedFile :
    (∀ c ∈ movedFile, c.Plain) ∧
      ((after movedFile).edgeList.filter fun e => e.kind = .contains && e.dest = "f").length ≤ 1 :=
  have h : ∀ c ∈ movedFile, c.Plain := by
    simp only [movedFile, List.forall_mem_cons, Change.Plain, Change.Follows]
    exact ⟨.empty, .empty, .insert _ _ .empty, .empty, trivial, .empty, trivial, trivial, nofun⟩
  ⟨h, (shaped_after h).2.2 "f"⟩

end

end Store

end ArchFacts
