import ArchFacts.Document.Load
import ArchFacts.Proofs.Document.Statements
import ArchFacts.Proofs.Except
import Mathlib.Data.List.Nodup

/-!
# The facts that a document declares

If the settings know the relations of a document, each pair declares an entity (`nodeOf?`) or a
relation between entities (`edgeOf?`), and the document declares what its pairs do, in their order
(`factsOf_eq`). So what a document puts into a store does not depend on lines (`apply_unlined`).
Relations to which distinct pairs have been added one by one list these pairs, relation by relation
(`tuples_relationsOf_perm`).
-/

namespace ArchFacts.Document

/-- The entity that a pair declares, if it is one of the entity relation. -/
def nodeOf? (config : Config) (t : String × Pair) : Option Node :=
  if t.1 = config.entityRelation then
    (NodeKind.ofTag? t.2.second).map fun kind => { id := t.2.first, kind }
  else none

/-- The relation between entities that a pair states, if it is one of another relation. -/
def edgeOf? (config : Config) (t : String × Pair) : Option Edge :=
  if t.1 = config.entityRelation then none
  else (EdgeKind.ofTag? t.1).map fun kind => { source := t.2.first, dest := t.2.second, kind }

/-- Whether the kinds that a relation needs are known: those of the entities that its pairs declare,
if it is the entity relation, and otherwise its own. -/
def Checked (config : Config) (r : Relation) : Prop :=
  if r.name = config.entityRelation then ∀ pair ∈ r.pairs, (NodeKind.ofTag? pair.second).isSome
  else (EdgeKind.ofTag? r.name).isSome

/-- The values that the blocks for a target have under a key, block by block. -/
def valuesFor (d : Document) (target : Target) (key : String) : List String :=
  (d.blocks.filter (·.target = target)).flatMap (·.attributes.values key)

/-- The relations to which some pairs have been added, each to the one with its name. -/
def relationsOf (ts : List (String × Pair)) : List Relation :=
  ts.foldl (fun rs t => insertPair t.1 t.2 0 rs) []

section
variable {config : Config} {rs : List Relation} {r : Relation} {d : Document}
variable {name : String} {pair : Pair} {line : Nat} {t : String × Pair} {ts : List (String × Pair)}

/-- The tuples of a relation are its pairs under its name. -/
theorem mem_relationTuples : t ∈ r.tuples ↔ t.1 = r.name ∧ t.2 ∈ r.pairs := by
  obtain ⟨name, pair⟩ := t
  simp only [Relation.tuples, List.mem_map, Std.ExtTreeSet.mem_toList, Prod.mk.injEq]
  constructor
  · rintro ⟨_, hp, rfl, rfl⟩
    exact ⟨rfl, hp⟩
  · rintro ⟨rfl, hp⟩
    exact ⟨pair, hp, rfl, rfl⟩

/-! ## Declared entities and relations -/

/-- The pairs of the entity relation declare entities, if their kinds are known. -/
theorem nodes_eq (hr : r.name = config.entityRelation)
    (h : ∀ pair ∈ r.pairs, (NodeKind.ofTag? pair.second).isSome) :
    r.nodes = .ok (r.tuples.filterMap (nodeOf? config)) := by
  rw [Relation.nodes, Relation.tuples, List.filterMap_map]
  refine mapM_eq_ok ?_
  intro pair hpair
  obtain ⟨kind, hkind⟩ := Option.isSome_iff_exists.1 (h pair (Std.ExtTreeSet.mem_toList.1 hpair))
  exact ⟨{ id := pair.first, kind }, by rw [hkind], by simp [nodeOf?, hr, hkind]⟩

/-- The pairs of a known relation between entities state relations. -/
theorem edges_eq (hr : r.name ≠ config.entityRelation) (h : (EdgeKind.ofTag? r.name).isSome) :
    r.edges = .ok (r.tuples.filterMap (edgeOf? config)) := by
  obtain ⟨kind, hkind⟩ := Option.isSome_iff_exists.1 h
  have hstate : ∀ pair : Pair, edgeOf? config (r.name, pair) =
      some { source := pair.first, dest := pair.second, kind } := by
    intro pair
    simp [edgeOf?, hr, hkind]
  rw [Relation.edges, hkind, Relation.tuples, List.filterMap_map]
  simp only [Function.comp_def, hstate]
  rw [List.filterMap_eq_map']

/-- A document declares what its pairs do, in their order, if the kinds that its relations need are
known. -/
theorem factsOf_of_forall (h : ∀ r ∈ rs, Checked config r) :
    factsOf config rs = .ok ((rs.flatMap Relation.tuples).filterMap (nodeOf? config),
      (rs.flatMap Relation.tuples).filterMap (edgeOf? config)) := by
  induction rs with
  | nil => rfl
  | cons r rs ih =>
    obtain ⟨hknown, hrest⟩ := List.forall_mem_cons.1 h
    rw [factsOf, ih hrest, List.flatMap_cons, List.filterMap_append, List.filterMap_append]
    unfold Checked at hknown
    split at hknown
    · next hname =>
      have hedges : r.tuples.filterMap (edgeOf? config) = [] := by
        refine List.filterMap_eq_nil_iff.2 ?_
        intro t ht
        rw [edgeOf?, if_pos ((mem_relationTuples.1 ht).1.trans hname)]
      rw [if_pos hname, nodes_eq hname hknown, hedges]
      rfl
    · next hname =>
      have hnodes : r.tuples.filterMap (nodeOf? config) = [] := by
        refine List.filterMap_eq_nil_iff.2 ?_
        intro t ht
        rw [nodeOf?, if_neg ((mem_relationTuples.1 ht).1.symm ▸ hname)]
      rw [if_neg hname, edges_eq hname hknown, hnodes]
      rfl

/-- A document that the settings know declares what its pairs do. -/
theorem factsOf_eq (hr : EdgeKind.ofTag? config.entityRelation = none) (hk : Known config rs) :
    factsOf config rs = .ok ((rs.flatMap Relation.tuples).filterMap (nodeOf? config),
      (rs.flatMap Relation.tuples).filterMap (edgeOf? config)) := by
  refine factsOf_of_forall fun r hmem => ?_
  unfold Checked
  split
  · next hname =>
    refine (hk r hmem).elim (·.2) fun htag => ?_
    rw [hname, hr] at htag
    cases htag
  · next hname => exact (hk r hmem).resolve_left fun h => hname h.1

/-- A document whose relations have pairs, all known to the settings, declares what its pairs do. -/
theorem factsOf_of_knows (hne : ∀ r ∈ rs, r.pairs ≠ ∅)
    (hk : ∀ t ∈ rs.flatMap Relation.tuples, config.Knows t) :
    factsOf config rs = .ok ((rs.flatMap Relation.tuples).filterMap (nodeOf? config),
      (rs.flatMap Relation.tuples).filterMap (edgeOf? config)) := by
  have hknows : ∀ r ∈ rs, ∀ pair ∈ r.pairs, config.Knows (r.name, pair) := fun r hr pair hp =>
    hk _ (List.mem_flatMap.2 ⟨r, hr, mem_relationTuples.2 ⟨rfl, hp⟩⟩)
  refine factsOf_of_forall fun r hmem => ?_
  unfold Checked
  split
  · next hname =>
    intro pair hp
    have hpair := hknows r hmem pair hp
    rwa [Config.Knows, if_pos hname] at hpair
  · next hname =>
    obtain ⟨pair, hp⟩ : ∃ pair, pair ∈ r.pairs :=
      Classical.not_not.1 fun hno => hne r hmem (Std.ExtTreeSet.ext_mem fun x =>
        ⟨fun hx => absurd ⟨x, hx⟩ hno, fun hx => absurd hx Std.ExtTreeSet.not_mem_empty⟩)
    have hpair := hknows r hmem pair hp
    rwa [Config.Knows, if_neg hname] at hpair

/-- What a document puts into a store, once it is known what it declares. -/
theorem apply_eq {s : Store} {nodes : List Node} {edges : List Edge}
    (h : factsOf config d.relations = .ok (nodes, edges)) :
    let added := s.addNodes (nodes.map d.withLabel)
    let linked := added.2.addEdges edges
    let filled := linked.2.applyBlocks d.blocks
    d.apply config s = .ok ({
      nodesAdded := added.1.added
      duplicateNodes := added.1.refused
      edgesAdded := linked.1.added
      rejectedEdges := linked.1.refused
      missingTargets := filled.1 }, filled.2) := by
  rw [Document.apply, h]
  rfl

/-- The name that a document gives an id is the first label of its blocks. -/
theorem label?_eq (d : Document) (id : String) :
    d.label? id = (d.valuesFor (.entity id) labelKey).head? := by
  rw [label?, valuesFor, List.head?_flatMap, ← List.head?_filterMap, ← List.head?_filterMap,
    List.filterMap_filter]
  simp only [decide_eq_true_eq]

/-! ## Lines -/

theorem tuples_unlined : d.unlined.tuples = d.tuples := by
  simp only [tuples, unlined, List.flatMap_map]
  rfl

theorem known_unlined : Known config (rs.map Relation.unlined) ↔ Known config rs :=
  List.forall_mem_map

theorem label?_unlined {id : String} : d.unlined.label? id = d.label? id := by
  rw [label?, unlined, List.findSome?_map]
  rfl

theorem applyBlocks_unlined {s : Store} {blocks : List Block} :
    s.applyBlocks (blocks.map Block.unlined) = s.applyBlocks blocks := by
  rw [Store.applyBlocks, List.foldl_map]
  rfl

/-- What a document that the settings know puts into a store does not depend on lines. -/
theorem apply_unlined {s : Store} (hr : EdgeKind.ofTag? config.entityRelation = none)
    (hk : Known config d.relations) : d.unlined.apply config s = d.apply config s := by
  have hfacts : factsOf config d.unlined.relations = factsOf config d.relations := by
    have hk' : Known config d.unlined.relations := known_unlined.2 hk
    rw [factsOf_eq hr hk, factsOf_eq hr hk']
    exact congrArg (fun ts => Except.ok (ts.filterMap (nodeOf? config),
      ts.filterMap (edgeOf? config))) tuples_unlined
  have hlabel : d.unlined.withLabel = d.withLabel := by
    funext n
    rw [withLabel, withLabel, label?_unlined]
  rw [Document.apply, Document.apply, hfacts, hlabel]
  simp only [unlined, applyBlocks_unlined]

/-! ## Relations made of pairs -/

/-- Adding a pair to the relation with a name adds one tuple. -/
theorem mem_tuples_insertPair : t ∈ (insertPair name pair line rs).flatMap Relation.tuples ↔
    t = (name, pair) ∨ t ∈ rs.flatMap Relation.tuples := by
  rcases forall_ne_or_exists_append name rs with hne | ⟨before, r, after, rfl, rfl, hne⟩
  · rw [insertPair_of_forall_ne hne, List.flatMap_append, List.mem_append, or_comm]
    simp only [List.flatMap_singleton, mem_relationTuples, mem_singleton_iff, Prod.ext_iff]
  · rw [insertPair_append hne]
    simp only [List.flatMap_append, List.flatMap_cons, List.mem_append, mem_relationTuples,
      Std.ExtTreeSet.mem_insert, Std.LawfulEqCmp.compare_eq_iff_eq, Prod.ext_iff]
    grind

/-- The pairs of tidy relations are distinct. -/
theorem Tidy.nodup_tuples (h : Tidy rs) : (rs.flatMap Relation.tuples).Nodup := by
  refine List.nodup_flatMap.2 ⟨?_, h.distinct.imp ?_⟩
  · intro r _
    have hpairs : r.pairs.toList.Nodup :=
      Std.ExtTreeSet.distinct_toList.imp fun hne heq => hne (by simp [heq])
    exact hpairs.map fun _ _ heq => (Prod.mk.inj heq).2
  · intro r r' hne t ht ht'
    exact hne ((mem_relationTuples.1 ht).1.symm.trans (mem_relationTuples.1 ht').1)

/-- The tuples of one relation are listed in increasing order. -/
theorem Tidy.pairwise_tuples (h : Tidy rs) : (rs.flatMap Relation.tuples).Pairwise
    fun t t' => t.1 = t'.1 → compare t.2 t'.2 = .lt := by
  refine List.pairwise_flatMap.2 ⟨fun r _ => ?_, h.distinct.imp ?_⟩
  · have hpairs : r.pairs.toList.Pairwise fun a b => compare a b = .lt :=
      Std.ExtTreeSet.ordered_toList
    refine List.pairwise_map.2 (hpairs.imp ?_)
    intro a b hlt _
    exact hlt
  · intro r r' hne t ht t' ht' heq
    rw [(mem_relationTuples.1 ht).1, (mem_relationTuples.1 ht').1] at heq
    exact absurd heq hne

/-- What holds of no relations, and still holds after each pair, holds of the relations of pairs. -/
theorem relationsOf_induction {P : List Relation → Prop} (hnil : P [])
    (hinsert : ∀ rs, P rs → ∀ t ∈ ts, P (insertPair t.1 t.2 0 rs)) : P (relationsOf ts) :=
  List.foldlRecOn ts _ hnil hinsert

theorem tidy_relationsOf : Tidy (relationsOf ts) :=
  relationsOf_induction ⟨.nil, by simp⟩ fun _ h _ _ => h.insertPair

/-- The settings know relations if they know each pair. -/
theorem known_relationsOf (h : ∀ t ∈ ts, (t.1 = config.entityRelation ∧
    (NodeKind.ofTag? t.2.second).isSome) ∨ (EdgeKind.ofTag? t.1).isSome) :
    Known config (relationsOf ts) :=
  relationsOf_induction (by simp [Known]) fun _ hk t ht => hk.insertPair (h t ht)

/-- The relations made from some tuples have these tuples, and no others. -/
theorem mem_tuples_relationsOf : t ∈ (relationsOf ts).flatMap Relation.tuples ↔ t ∈ ts := by
  have hfold : ∀ rs, t ∈ (ts.foldl (fun rs t => insertPair t.1 t.2 0 rs) rs).flatMap
      Relation.tuples ↔ t ∈ ts ∨ t ∈ rs.flatMap Relation.tuples := by
    induction ts with
    | nil => simp
    | cons t' ts ih =>
      intro rs
      rw [List.foldl_cons, ih, mem_tuples_insertPair, List.mem_cons, ← or_assoc,
        or_comm (a := t ∈ ts)]
  rw [relationsOf, hfold]
  simp

/-- Relations to which distinct pairs have been added list these pairs. -/
theorem tuples_relationsOf_perm (h : ts.Nodup) :
    ((relationsOf ts).flatMap Relation.tuples).Perm ts :=
  (List.perm_ext_iff_of_nodup tidy_relationsOf.nodup_tuples h).2 fun _ => mem_tuples_relationsOf

end

end ArchFacts.Document
