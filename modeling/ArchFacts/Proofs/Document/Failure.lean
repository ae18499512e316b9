import ArchFacts.Proofs.Document.Parse
import ArchFacts.Proofs.History

/-!
# Loads that fail

A document fails to go into a store exactly if one of its relations is unknown or one of its
entities has an unknown kind (`apply_eq_error_iff`). A text that is read states no such thing, so
only reading can fail (`load_eq_error_iff`).

A store that is changed in place keeps what has been changed before a failure (`InPlace`). But a
document is checked before the first change, and what the store refuses afterwards is counted and is
no failure. So a load in place leaves the new store if it succeeds and the old one if it fails
(`outcome_apply`, `outcome_load`). All of this together is `load_atomic`.
-/

namespace ArchFacts

/-! ## Relations that a document does not know -/

namespace Document

section
variable {config : Config} {rs : List Relation} {r : Relation} {d : Document} {s : Store}

/-- All kinds are known in a relation from which entities are made. -/
theorem known_of_nodes {nodes : List Node} (h : r.nodes = .ok nodes) :
    ∀ pair ∈ r.pairs, (NodeKind.ofTag? pair.second).isSome := by
  intro pair hpair
  obtain ⟨n, hn⟩ := exists_of_mapM_eq_ok h (Std.ExtTreeSet.mem_toList.2 hpair)
  split at hn
  · next hkind => rw [hkind]; rfl
  · cases hn

/-- A relation from which edges are made has a known name. -/
theorem known_of_edges {edges : List Edge} (h : r.edges = .ok edges) :
    (EdgeKind.ofTag? r.name).isSome := by
  unfold Relation.edges at h
  split at h
  · next hkind => rw [hkind]; rfl
  · cases h

/-- Relations declare something exactly if all kinds that they need are known. -/
theorem factsOf_eq_ok_iff :
    (∃ facts, factsOf config rs = .ok facts) ↔ ∀ r ∈ rs, Checked config r := by
  refine ⟨?_, fun h => ⟨_, factsOf_of_forall h⟩⟩
  rintro ⟨facts, h⟩
  induction rs generalizing facts with
  | nil => simp
  | cons r rs ih =>
    unfold factsOf at h
    refine List.forall_mem_cons.2 ?_
    unfold Checked at ih ⊢
    split at h
    · next hname =>
      obtain ⟨nodes, hnodes, h⟩ := bind_eq_ok_iff.1 h
      obtain ⟨rest, hrest, -⟩ := bind_eq_ok_iff.1 h
      rw [if_pos hname]
      exact ⟨known_of_nodes hnodes, ih rest hrest⟩
    · next hname =>
      obtain ⟨edges, hedges, h⟩ := bind_eq_ok_iff.1 h
      obtain ⟨rest, hrest, -⟩ := bind_eq_ok_iff.1 h
      rw [if_neg hname]
      exact ⟨known_of_edges hedges, ih rest hrest⟩

/-- The only failure of a document is in what it declares. -/
theorem apply_eq_error_iff_factsOf {e : FactError} :
    d.apply config s = .error e ↔ factsOf config d.relations = .error e := by
  unfold Document.apply
  cases factsOf config d.relations with
  | error e' => rw [error_bind, Except.error.injEq, Except.error.injEq]
  | ok facts => constructor <;> (intro h; cases h)

/-- A document fails exactly if it lists a relation that is unknown, or declares an entity of a kind
that is unknown. -/
theorem apply_eq_error_iff : (∃ e, d.apply config s = .error e) ↔
    (∃ r ∈ d.relations, r.name ≠ config.entityRelation ∧ EdgeKind.ofTag? r.name = none) ∨
      ∃ r ∈ d.relations, r.name = config.entityRelation ∧
        ∃ pair ∈ r.pairs, NodeKind.ofTag? pair.second = none := by
  have hfails : (∃ e, d.apply config s = .error e) ↔
      ¬ ∃ facts, factsOf config d.relations = .ok facts := by
    simp only [apply_eq_error_iff_factsOf]
    cases factsOf config d.relations <;> simp
  have hchecked : ∀ r : Relation, ¬ Checked config r ↔
      (r.name ≠ config.entityRelation ∧ EdgeKind.ofTag? r.name = none) ∨
        (r.name = config.entityRelation ∧
          ∃ pair ∈ r.pairs, NodeKind.ofTag? pair.second = none) := by
    intro r
    unfold Checked
    by_cases hname : r.name = config.entityRelation <;> simp [hname]
  rw [hfails, factsOf_eq_ok_iff]
  simp only [not_forall, hchecked, exists_prop, and_or_left, exists_or]

/-- A text that is read declares what its pairs do. -/
theorem exists_factsOf_of_parse {text : String} (h : parse config text = .ok d) :
    ∃ facts, factsOf config d.relations = .ok facts :=
  ⟨_, factsOf_of_knows (parse_tidy h).nonempty (parse_knows h)⟩

end

end Document

/-- Reading is the only part of a load that fails. -/
theorem Store.load_eq_error_iff {s : Store} {config : Config} {text : String} {e : FactError} :
    s.load config text = .error e ↔ Document.parse config text = .error e := by
  unfold Store.load
  cases hparse : Document.parse config text with
  | error e' => rw [error_bind, Except.error.injEq, Except.error.injEq]
  | ok d =>
    obtain ⟨facts, hfacts⟩ := Document.exists_factsOf_of_parse hparse
    rw [ok_bind, Document.apply_eq hfacts, ok_bind]
    constructor <;> (intro h; cases h)

/-! ## Operations in place -/

/-- An operation on a store in place. What it has changed stays changed if it fails. -/
abbrev InPlace (α : Type) : Type := ExceptT FactError (StateM Store) α

namespace InPlace

/-- What an operation in place gives, or its failure, and the store that it leaves. -/
def outcome {α : Type} (x : InPlace α) (s : Store) : Except FactError α × Store := x.run.run s

/-- Makes a change if the store accepts it, and counts changes made and changes refused. -/
def attempt {α : Type} (change : Store → α → Except FactError Store) (counts : Nat × Nat) (a : α) :
    InPlace (Nat × Nat) := do
  match change (← get) a with
  | .ok s =>
    set s
    return (counts.1 + 1, counts.2)
  | .error _ => return (counts.1, counts.2 + 1)

/-- Adds the attributes of a block to its target, and counts missing targets. -/
def applyBlock (missing : Nat) (b : Block) : InPlace Nat := do
  let (more, s) := (← get).applyBlock b
  set s
  return missing + more

/-- Puts what a document says into a store, change by change. -/
def apply (config : Config) (d : Document) : InPlace LoadReport := do
  let (nodes, edges) ← MonadExcept.ofExcept (Document.factsOf config d.relations)
  let (nodesAdded, duplicateNodes) ← (nodes.map d.withLabel).foldlM (attempt Store.addNode) (0, 0)
  let (edgesAdded, rejectedEdges) ← edges.foldlM (attempt Store.addEdge) (0, 0)
  let missingTargets ← d.blocks.foldlM applyBlock 0
  return { nodesAdded, duplicateNodes, edgesAdded, rejectedEdges, missingTargets }

/-- Reads a text, puts it into a store, change by change, and resolves the store. -/
def load (config : Config) (text : String) : InPlace LoadReport := do
  let d ← MonadExcept.ofExcept (Document.parse config text)
  let report ← apply config d
  let (resolution, s) := (← get).resolve
  set s
  return { report with resolution }

section
variable {α β : Type} {x : InPlace α} {f : α → InPlace β} {s s' : Store} {a : α} {e : FactError}
variable {change : Store → α → Except FactError Store}

/-- After a success the next operation starts from the store that was left. -/
theorem outcome_bind_of_ok (h : x.outcome s = (.ok a, s')) :
    (x >>= f : InPlace β).outcome s = (f a).outcome s' :=
  run_bind_of_ok h

/-- After a failure nothing is done. -/
theorem outcome_bind_of_error (h : x.outcome s = (.error e, s')) :
    (x >>= f : InPlace β).outcome s = (.error e, s') :=
  run_bind_of_error h

theorem outcome_ofExcept {y r : Except FactError α} (h : y = r) :
    (MonadExcept.ofExcept y : InPlace α).outcome s = (r, s) :=
  run_ofExcept h

/-- A refused change leaves the store as it is, and is counted. -/
theorem outcome_attempt (counts : Nat × Nat) : (attempt change counts a).outcome s =
    match change s a with
    | .ok s' => (.ok (counts.1 + 1, counts.2), s')
    | .error _ => (.ok (counts.1, counts.2 + 1), s) := by
  have hget : (get : InPlace Store).outcome s = (.ok s, s) := rfl
  rw [attempt, outcome_bind_of_ok hget]
  cases change s a <;> rfl

/-- Changes in place do not fail. They are made, refused and counted as they are on stores of their
own. -/
theorem outcome_foldlM_attempt (l : List α) :
    let x := l.foldl (Store.attempt change) ({}, s)
    (l.foldlM (attempt change) (0, 0)).outcome s = (.ok (x.1.added, x.1.refused), x.2) := by
  induction l using List.reverseRecOn with
  | nil => rfl
  | append_singleton l a ih =>
    dsimp only at ih ⊢
    rw [List.foldlM_append, outcome_bind_of_ok ih, List.foldlM_cons]
    simp only [List.foldlM_nil, bind_pure]
    rw [outcome_attempt, List.foldl_append, List.foldl_cons, List.foldl_nil]
    generalize l.foldl (Store.attempt change) ({}, s) = x
    unfold Store.attempt
    cases change x.2 a <;> rfl

/-- Entities that are added in place, one after another, are counted as they are by the program. -/
theorem outcome_addNodes (nodes : List Node) :
    (nodes.foldlM (attempt Store.addNode) (0, 0)).outcome s =
      (.ok ((s.addNodes nodes).1.added, (s.addNodes nodes).1.refused), (s.addNodes nodes).2) :=
  outcome_foldlM_attempt nodes

/-- Relations that are added in place, one after another, are counted as they are by the program. -/
theorem outcome_addEdges (edges : List Edge) :
    (edges.foldlM (attempt Store.addEdge) (0, 0)).outcome s =
      (.ok ((s.addEdges edges).1.added, (s.addEdges edges).1.refused), (s.addEdges edges).2) :=
  outcome_foldlM_attempt edges

/-- Blocks in place do not fail, and do what they do on stores of their own. -/
theorem outcome_applyBlocks (blocks : List Block) :
    (blocks.foldlM applyBlock 0).outcome s =
      (.ok (s.applyBlocks blocks).1, (s.applyBlocks blocks).2) := by
  induction blocks using List.reverseRecOn with
  | nil => rfl
  | append_singleton blocks b ih =>
    rw [List.foldlM_append, outcome_bind_of_ok ih, List.foldlM_cons]
    simp only [List.foldlM_nil, bind_pure, Store.applyBlocks, List.foldl_append, List.foldl_cons,
      List.foldl_nil]
    rfl

end

/-! ## Loads in place -/

section
variable {config : Config} {d : Document} {s : Store} {text : String}

/-- A document in place leaves the new store if it succeeds, and the old one if it fails. -/
theorem outcome_apply : (apply config d).outcome s =
    match d.apply config s with
    | .ok (report, s') => (.ok report, s')
    | .error e => (.error e, s) := by
  cases hfacts : Document.factsOf config d.relations with
  | error e =>
    rw [apply, outcome_bind_of_error (outcome_ofExcept hfacts),
      Document.apply_eq_error_iff_factsOf.2 hfacts]
  | ok facts =>
    obtain ⟨nodes, edges⟩ := facts
    rw [apply, outcome_bind_of_ok (outcome_ofExcept hfacts), Document.apply_eq hfacts]
    dsimp only
    rw [outcome_bind_of_ok (outcome_addNodes _)]
    dsimp only
    rw [outcome_bind_of_ok (outcome_addEdges _)]
    dsimp only
    rw [outcome_bind_of_ok (outcome_applyBlocks _)]
    rfl

/-- A load in place leaves the new store if it succeeds, and the old one if it fails. -/
theorem outcome_load : (load config text).outcome s =
    match s.load config text with
    | .ok (report, s') => (.ok report, s')
    | .error e => (.error e, s) := by
  cases hparse : Document.parse config text with
  | error e =>
    rw [load, outcome_bind_of_error (outcome_ofExcept hparse), Store.load_eq_error_iff.2 hparse]
  | ok d =>
    obtain ⟨facts, hfacts⟩ := Document.exists_factsOf_of_parse hparse
    have happly := Document.apply_eq (s := s) hfacts
    have hout := @outcome_apply config d s
    rw [happly] at hout
    rw [load, outcome_bind_of_ok (outcome_ofExcept hparse), outcome_bind_of_ok hout, Store.load,
      hparse, ok_bind, happly]
    rfl

end

end InPlace

namespace Store

/-- **Only reading fails, and a failure changes nothing.** A load of a text fails exactly if the
text cannot be read, and with the same error, since what was read passes the check under the same
settings. Any document, under any settings, fails to go into a store exactly if it lists an unknown
relation or declares an entity of an unknown kind. If they fail, both leave the old store, indices
included, although they change it in place. -/
theorem load_atomic (s : Store) (config : Config) :
    (∀ text e, s.load config text = .error e ↔ Document.parse config text = .error e) ∧
    (∀ text d, Document.parse config text = .ok d →
      ∃ facts, Document.factsOf config d.relations = .ok facts) ∧
    (∀ d : Document, (∃ e, d.apply config s = .error e) ↔
      (∃ r ∈ d.relations, r.name ≠ config.entityRelation ∧ EdgeKind.ofTag? r.name = none) ∨
        ∃ r ∈ d.relations, r.name = config.entityRelation ∧
          ∃ pair ∈ r.pairs, NodeKind.ofTag? pair.second = none) ∧
    (∀ text, (InPlace.load config text).outcome s =
      match s.load config text with
      | .ok (report, s') => (.ok report, s')
      | .error e => (.error e, s)) ∧
    ∀ d : Document, (InPlace.apply config d).outcome s =
      match d.apply config s with
      | .ok (report, s') => (.ok report, s')
      | .error e => (.error e, s) :=
  ⟨fun _ _ => load_eq_error_iff, fun _ _ => Document.exists_factsOf_of_parse,
    fun _ => Document.apply_eq_error_iff, fun _ => InPlace.outcome_load,
    fun _ => InPlace.outcome_apply⟩

/-- A text whose last line lacks an equals sign. -/
def unequalText : String :=
  "FACT TUPLE :\n$INSTANCE q cClass\nFACT ATTRIBUTE :\nq \x7b k v \x7d\n"

/-- A document that declares an entity. -/
def declaring : Document := (∅ : Document).addTuple "$INSTANCE" ⟨"q", "cClass"⟩ 2

theorem parse_unequal : Document.parse {} unequalText =
    .error (.format 4 "expected `=` after attribute key `k` at column 7, found `v`") := by
  decide +kernel

theorem load_atomic_unequal :
    let s := after [.createNode "keep" "keep" .enumeration]
    (∃ e, s.load {} unequalText = .error e ∧
      (InPlace.load {} unequalText).outcome s = (.error e, s)) ∧
    ∃ e, declaring.apply { entityRelation := "DECLARES" } s = .error e ∧
      (InPlace.apply { entityRelation := "DECLARES" } declaring).outcome s = (.error e, s) := by
  intro s
  obtain ⟨hload, -, -, hloaded, -⟩ := load_atomic s {}
  obtain ⟨-, -, hfails, -, happlied⟩ := load_atomic s { entityRelation := "DECLARES" }
  constructor
  · have herror := (hload unequalText _).2 parse_unequal
    exact ⟨_, herror, by rw [hloaded, herror]⟩
  · have hunknown : ∃ r ∈ declaring.relations, r.name ≠ "DECLARES" ∧
        EdgeKind.ofTag? r.name = none := ⟨_, List.mem_singleton.2 rfl, by decide, by decide⟩
    obtain ⟨e, herror⟩ := (hfails declaring).2 (.inl hunknown)
    exact ⟨e, herror, by rw [happlied, herror]⟩

end Store

end ArchFacts
