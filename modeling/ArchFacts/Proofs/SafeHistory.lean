import ArchFacts.Proofs.Command.Ingest
import ArchFacts.Proofs.Snapshot.History

/-!
# Histories that leave no resolved relation dangling

Two things can leave a resolved relation without an end: an entity may be taken from under its
relations, and a relation may be brought in that is resolved already. In a safe history (`Safe`) no
entity is taken out without its relations, whatever is brought in resolved has both ends, and
snapshots are those of stores of safe histories. Then every store is grounded (`grounded_of_safe`),
and once it is resolved, by itself or at the end of a load or of an ingestion, every relation in it
has both ends (`hasEnds_of_safe`).
-/

namespace ArchFacts

namespace Change

/-- Whether a change of a store takes no entity from under its relations, and brings in no resolved
relation without both ends. Bytes may hold anything. -/
def SafeAt (s : Store) : Change → Prop
  | addEdge e | putEdge e => e.resolved = true → s.hasEnds e.toEdgeKey = true
  | ofLists nodes edges => ∀ e ∈ edges, e.resolved = true →
      (∃ n ∈ nodes, n.id = e.source) ∧ ∃ n ∈ nodes, n.id = e.dest
  | removeNodeOnly _ | decode _ => False
  | _ => True

end Change

namespace Store

/-- Histories of safe changes, and of snapshots of stores of such histories. -/
inductive Safe : List Change → Prop
  | nil : Safe []
  | change {history : List Change} {c : Change} : Safe history → c.SafeAt (after history) →
      Safe (history ++ [c])
  | decode {history other : List Change} : Safe history → Safe other →
      Safe (history ++ [.decode (Snapshot.encode (after other))])

section
variable {s s' : Store} {nodes : List Node} {edges : List Edge} {α : Type}

theorem hasNode_ofLists {id : String} (h : ∃ n ∈ nodes, n.id = id) :
    (ofLists nodes edges).hasNode id = true := by
  obtain ⟨n, hn, hid⟩ := h
  have hfound : (nodes.reverse.find? (·.id = id)).isSome :=
    List.find?_isSome.2 ⟨n, List.mem_reverse.2 hn, decide_eq_true hid⟩
  obtain ⟨m, hm⟩ := Option.isSome_iff_exists.1 hfound
  exact hasNode_iff.2 ⟨m.takeLabel, by rw [getElem?_nodes_ofLists, hm, Option.map_some]⟩

/-- The store of lists is grounded if the lists hold both ends of every resolved relation. -/
theorem grounded_ofLists (h : ∀ e ∈ edges, e.resolved = true →
    (∃ n ∈ nodes, n.id = e.source) ∧ ∃ n ∈ nodes, n.id = e.dest) :
    (ofLists nodes edges).Grounded := by
  intro key e he hr
  obtain rfl := (coherent_ofLists nodes edges).edge_key he
  rw [getElem?_edges_ofLists] at he
  split at he
  · cases he
  · have hmem : e ∈ edges := List.mem_reverse.1 (List.mem_of_find?_eq_some he)
    obtain ⟨hsource, hdest⟩ := h e hmem hr
    exact hasEnds_iff.2 ⟨hasNode_ofLists hsource, hasNode_ofLists hdest⟩

/-- The store after an operation that may find nothing to do. -/
theorem Grounded.elim {r : Option (α × Store)} (hg : s.Grounded)
    (h : ∀ a s', r = some (a, s') → s'.Grounded) : (r.elim s (·.2)).Grounded := by
  cases r with
  | none => exact hg
  | some r => exact h r.1 r.2 rfl

/-- The store after an operation that reports what it did, unless it is refused. -/
theorem Grounded.granted_map {r : Except FactError (α × Store)} (hg : s.Grounded)
    (h : ∀ a s', r = .ok (a, s') → s'.Grounded) : (s.granted (r.map (·.2))).2.Grounded := by
  cases r with
  | error _ => exact hg
  | ok r => exact h r.1 r.2 rfl

end

end Store

open Store (after Safe)

/-- A safe change keeps a store grounded. -/
theorem Change.grounded_run {s : Store} {c : Change} (hc : s.Coherent) (hg : s.Grounded)
    (h : c.SafeAt s) : (c.run s).Grounded := by
  cases c with
  | addNode n => exact hg.of_extends (.granted fun _ hs => .addNode hs)
  | putNode n => exact hg.of_extends (.putNode s n)
  | addEdge e => exact hg.of_extends (.granted fun _ hs => .addEdge hc h hs)
  | putEdge e => exact hg.of_extends (.granted fun _ hs => .putEdge hc h hs)
  | removeNode id => exact hg.elim fun _ _ hs => hg.removeNode hc hs
  | removeNodeOnly id => exact h.elim
  | removeEdge key => exact hg.elim fun _ _ hs => hg.of_extends (.removeEdge hs)
  | addNodeAttribute id key value =>
    exact hg.of_extends (.granted fun _ hs => .addNodeAttribute hs)
  | addEdgeAttribute edge key value =>
    exact hg.of_extends (.granted fun _ hs => .addEdgeAttribute hs)
  | resolve => exact fun he _ => (hg.resolve hc he).2
  | attach container? fileAttribute => exact hg.of_extends (.attach hc container? fileAttribute)
  | clear => exact Store.grounded_empty
  | reindex => rwa [run, hc.reindex_eq]
  | createNode id name kind => exact hg.of_extends (.send hc (.node id (some name) kind))
  | createEdge key => exact hg.of_extends (.send hc (.edge key))
  | setAttribute target key value => exact hg.of_extends (.send hc (.attr target key value))
  | replay records => exact hg.granted_map fun _ _ hs => hg.of_extends (.replay hc hs)
  | install hierarchy config => exact hg.of_extends (.install hc hierarchy config)
  | apply d config => exact hg.granted_map fun _ _ hs => hg.apply hc hs
  | load config text => exact hg.granted_map fun _ _ hs _ _ he _ => (hg.load hc hs he).2
  | ofLists nodes edges => exact Store.grounded_ofLists h
  | decode bytes => exact h.elim

/-- Only the store itself is decoded from the snapshot of a store of some history. -/
theorem Snapshot.eq_of_decode_encode {history : List Change} {s : Store}
    (h : decode (encode (after history)) = .ok s) : s = after history := by
  obtain ⟨nodes, edges, ⟨hsize, -⟩, -⟩ := decode_eq_ok_iff.1 h
  exact Except.ok.inj (h.symm.trans (decode_encode (Store.canonical_after history) hsize))

namespace Store

/-- Both ends of every resolved relation are there after a safe history. -/
theorem grounded_of_safe {history : List Change} (h : Safe history) : (after history).Grounded := by
  induction h with
  | nil => exact grounded_empty
  | @change history c _ hsafe ih =>
    rw [after_concat]
    exact Change.grounded_run (coherent_after history) ih hsafe
  | @decode history other _ _ ih ih' =>
    rw [after_concat]
    cases hdecode : Snapshot.decode (Snapshot.encode (after other)) with
    | ok s =>
      obtain rfl : s = after other := Snapshot.eq_of_decode_encode hdecode
      rw [Change.run, hdecode, granted]
      exact ih'
    | error _ =>
      rw [Change.run, hdecode, granted]
      exact ih

/-- **No resolved relation dangles.** After a safe history both ends of every resolved relation are
entities of the store. So resolving the store, loading a text into it, or ingesting records leaves
relations only that have both ends. -/
theorem hasEnds_of_safe {history : List Change} (h : Safe history) :
    let s := after history
    (∀ e ∈ s.edgeList, e.resolved = true → s.hasEnds e.toEdgeKey = true) ∧
    (∀ e ∈ s.resolve.2.edgeList, s.resolve.2.hasEnds e.toEdgeKey = true) ∧
    (∀ config text report s', s.load config text = .ok (report, s') →
      ∀ e ∈ s'.edgeList, s'.hasEnds e.toEdgeKey = true) ∧
    ∀ config hierarchy records report s',
      Command.ingest config hierarchy records s = .ok (report, s') →
      ∀ e ∈ s'.edgeList, s'.hasEnds e.toEdgeKey = true := by
  intro s
  have hc : s.Coherent := coherent_after history
  have hg : s.Grounded := grounded_of_safe h
  refine ⟨fun e he hr => hg ((mem_edgeList hc).1 he) hr,
    fun e he => (hg.resolve hc ((mem_edgeList hc.resolve).1 he)).2, ?_, ?_⟩
  · intro config text report s' hload e he
    have hsteps : Steps (fun _ => True) s s' := .load Attributes.rule_true hc hload
    exact (hg.load hc hload ((mem_edgeList (Steps.coherent hsteps hc)).1 he)).2
  · intro config hierarchy records report s' hingest e he
    obtain ⟨s₁, hsteps, -, rfl⟩ := Command.exists_steps_of_ingest Attributes.rule_true hc hingest
    have hc' : s₁.resolve.2.Coherent := (Steps.coherent hsteps hc).resolve
    exact (Command.grounded_ingest hc hg hingest ((mem_edgeList hc').1 he)).2

/-- A function that calls another. -/
def calling : List Change :=
  [.createNode "f" "f" .function, .createNode "g" "g" .function, .createEdge ⟨"f", "g", .calls⟩]

/-- A file and a function, a reference between them that is resolved from the start and a call
between nothing give way to the snapshot of the functions. One of these is put in its own place
under another name and gets a call to nowhere, and the other is removed with its call. -/
def recalled : List Change :=
  [.createNode "a.c" "a.c" .file, .createNode "h" "h" .function,
    .putEdge { source := "h", dest := "a.c", kind := .references, resolved := true },
    .addEdge { source := "x", dest := "y", kind := .calls },
    .decode (Snapshot.encode (after calling)),
    .putNode { id := "g", name := "the g", kind := .function }, .createEdge ⟨"g", "z", .calls⟩,
    .removeNode "f"]

theorem safe_recalled : Safe recalled := by
  have hcalling : Safe calling :=
    ((Safe.nil.change (by trivial)).change (by trivial)).change (by trivial)
  have hends : (after (recalled.take 2)).hasEnds ⟨"h", "a.c", .references⟩ = true := by
    decide +kernel
  have hdeclared : Safe (recalled.take 2) := (Safe.nil.change (by trivial)).change (by trivial)
  have hlinked : Safe (recalled.take 4) :=
    (hdeclared.change (by exact fun _ => hends)).change (by exact nofun)
  exact (((hlinked.decode hcalling).change (by trivial)).change (by trivial)).change (by trivial)

theorem hasEnds_of_safe_recalled : Safe recalled ∧
    ∀ e ∈ (after recalled).resolve.2.edgeList,
      (after recalled).resolve.2.hasEnds e.toEdgeKey = true :=
  ⟨safe_recalled, (hasEnds_of_safe safe_recalled).2.1⟩

end Store

end ArchFacts
