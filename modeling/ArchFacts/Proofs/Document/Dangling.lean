import ArchFacts.Proofs.Document.Fill
import ArchFacts.Proofs.History

/-!
# Dangling tuples

A tuple dangles if it states a relation of an id that neither the store has nor the document
declares. Resolution drops the relation. But before that it has been stored as any other, and as a
parent it has put out the parent that its destination had. So a document, and the same document
without its dangling tuples, leave the same in a store but for the parents of those entities that
have one by a dangling tuple (`agreeOn_link`). Of all parents that the document gives such an
entity, the last stays if it is an entity, and otherwise none (`exists_onlyParent`). Both together
are `apply_withoutDangling`.
-/

namespace ArchFacts

/-- Pairs with one second word are compared by their first. -/
theorem Pair.compare_of_second {a b c : String} : compare (Pair.mk a c) ⟨b, c⟩ = compare a b := by
  have hlex : compare (Pair.mk a c) ⟨b, c⟩ = (compare a b).then (compare c c) := rfl
  have hself : compare c c = .eq := Std.ReflCmp.compare_self
  rw [hlex, hself, Ordering.then_eq]

/-- A relation with some of its pairs only. -/
def Relation.keep (kept : String × Pair → Bool) (r : Relation) : Relation :=
  { r with pairs := r.pairs.filter fun pair => kept (r.name, pair) }

namespace Document

/-- Whether a tuple states a relation of an id that neither the store nor the document provides. -/
def isDangling (config : Config) (s : Store) (d : Document) (t : String × Pair) : Bool :=
  t.1 ≠ config.entityRelation &&
    !(d.provides config s t.2.first && d.provides config s t.2.second)

/-- A document with some of its tuples only. -/
def keep (kept : String × Pair → Bool) (d : Document) : Document :=
  { d with relations := (d.relations.map (Relation.keep kept)).filter (!·.pairs.isEmpty) }

/-- A document without its dangling tuples. -/
def withoutDangling (config : Config) (s : Store) (d : Document) : Document :=
  d.keep fun t => !d.isDangling config s t

/-- The parent that a tuple gives an entity, unless it is the entity itself. -/
def parentOf? (child : String) (t : String × Pair) : Option String :=
  if t.1 = EdgeKind.contains.tag ∧ t.2.second = child ∧ t.2.first ≠ child then some t.2.first
  else none

/-- The parents that a document gives an entity, in increasing order. -/
def parentsOf (d : Document) (child : String) : List String := d.tuples.filterMap (parentOf? child)

/-- Whether an id that is provided has a parent by a dangling tuple. -/
def Displaces (config : Config) (s : Store) (d : Document) (child : String) : Prop :=
  d.provides config s child = true ∧ ∃ t ∈ d.tuples, d.isDangling config s t = true ∧
    t.1 = EdgeKind.contains.tag ∧ t.2.second = child

section
variable {config : Config} {d : Document} {rs : List Relation} {r : Relation} {s : Store}
variable {kept : String × Pair → Bool} {t : String × Pair} {child parent id : String}

/-- A tuple dangles if it is not a declaration, and one of its ends is neither in the store nor
declared. -/
theorem isDangling_iff : d.isDangling config s t = true ↔ t.1 ≠ config.entityRelation ∧
    ¬ (d.provides config s t.2.first = true ∧ d.provides config s t.2.second = true) := by
  rw [isDangling, Bool.and_eq_true, decide_eq_true_eq, Bool.not_eq_true', ← Bool.and_eq_true,
    Bool.not_eq_true]

/-! ## Some of the tuples -/

theorem tuples_keepRelation : (r.keep kept).tuples = r.tuples.filter kept := by
  rw [Relation.tuples, Relation.tuples, Relation.keep, Std.ExtTreeSet.toList_filter,
    List.filter_map]
  rfl

/-- The tuples that are kept are those of the document with the property, in the same order. -/
theorem tuples_keep : (d.keep kept).tuples = d.tuples.filter kept := by
  rw [tuples, tuples, keep]
  dsimp only
  induction d.relations with
  | nil => rfl
  | cons r rs ih =>
    rw [List.map_cons, List.flatMap_cons, List.filter_append, ← ih, ← tuples_keepRelation]
    by_cases he : (r.keep kept).pairs.isEmpty = true
    · have hnil : (r.keep kept).tuples = [] := by
        rw [Relation.tuples, Std.ExtTreeSet.isEmpty_iff.1 he]
        rfl
      rw [List.filter_cons_of_neg (by simp [he]), hnil, List.nil_append]
    · rw [List.filter_cons_of_pos (by simp [he]), List.flatMap_cons]

/-- No relation is left without pairs. -/
theorem pairs_keep_ne : ∀ r ∈ (d.keep kept).relations, r.pairs ≠ ∅ := by
  intro r hr he
  have hne := (List.mem_filter.1 hr).2
  rw [he] at hne
  simp at hne

/-- What is kept of a known document is known. -/
theorem knows_keep (hk : ∀ t ∈ d.tuples, config.Knows t) :
    ∀ t ∈ (d.keep kept).tuples, config.Knows t := by
  intro t hmem
  rw [tuples_keep] at hmem
  exact hk t (List.mem_filter.1 hmem).1

/-- The parents that a document gives an entity are listed in increasing order. -/
theorem pairwise_parentsOf (h : Tidy d.relations) :
    (d.parentsOf child).Pairwise fun p p' => compare p p' = .lt := by
  refine List.pairwise_filterMap.2 (h.pairwise_tuples.imp ?_)
  rintro ⟨name, p, c⟩ ⟨name', p', c'⟩ hlt q hq q' hq'
  simp only [parentOf?, Option.ite_none_right_eq_some, Option.some.injEq] at hq hq'
  obtain ⟨⟨rfl, rfl, -⟩, rfl⟩ := hq
  obtain ⟨⟨rfl, rfl, -⟩, rfl⟩ := hq'
  rw [← Pair.compare_of_second]
  exact hlt rfl

/-! ## Entities and relations -/

/-- Dangling tuples declare no entities. -/
theorem populate_withoutDangling :
    (d.withoutDangling config s).populate config s = d.populate config s := by
  have hnodes : (d.tuples.filter fun t => !d.isDangling config s t).filterMap (nodeOf? config) =
      d.tuples.filterMap (nodeOf? config) := by
    rw [List.filterMap_filter]
    refine List.filterMap_congr fun t _ => ?_
    split
    · rfl
    · next hdangling =>
      have hdangling : d.isDangling config s t = true := by simpa using hdangling
      rw [nodeOf?, if_neg (isDangling_iff.1 hdangling).1]
  rw [populate, populate, declared, withoutDangling, tuples_keep, hnodes]
  rfl

/-- The relations that tuples state of ids that are provided. -/
theorem stated_withoutDangling :
    (d.withoutDangling config s).stated config = (d.stated config).filter fun e =>
        d.provides config s e.source && d.provides config s e.dest := by
  rw [stated, withoutDangling, tuples_keep, List.filterMap_filter, List.filter_filterMap]
  refine List.filterMap_congr fun t _ => ?_
  cases he : edgeOf? config t with
  | none => simp
  | some e =>
    obtain ⟨hname, rfl, -⟩ := edgeOf?_eq_some.1 he
    simp only [isDangling, Option.filter_some]
    simp [hname]

/-- The parents that the stated relations give an entity are those that the tuples do. -/
theorem filterMap_parent? (hr : config.entityRelation ≠ EdgeKind.contains.tag) :
    (d.stated config).filterMap (Edge.parent? child) = d.parentsOf child := by
  rw [List.filterMap_filterMap, parentsOf]
  refine List.filterMap_congr fun t _ => ?_
  cases he : edgeOf? config t with
  | none =>
    rw [parentOf?, if_neg]
    · rfl
    · rintro ⟨hname, -, -⟩
      rw [edgeOf?, hname, if_neg hr.symm, EdgeKind.ofTag?_tag] at he
      cases he
  | some e =>
    obtain ⟨-, rfl, -⟩ := edgeOf?_eq_some.1 he
    simp only [parentOf?, EdgeKind.tag_inj]
    rfl

/-! ## What is left in the store -/

/-- With and without its dangling tuples a document leaves the same under the keys of relations
whose ends are provided, but for the parents of entities that have one by a dangling tuple. -/
theorem agreeOn_link (hc : s.Coherent) :
    Store.AgreeOn (fun key =>
        (d.provides config s key.source && d.provides config s key.dest) = true ∧
          ¬ (key.kind = .contains ∧ d.Displaces config s key.dest))
      (d.link config s) ((d.withoutDangling config s).link config s) := by
  rw [link, link, populate_withoutDangling, stated_withoutDangling]
  have hc' : (d.populate config s).Coherent := coherent_populate hc
  refine Store.AgreeOn.foldl_offer (fun _ _ => rfl) hc' hc' (fun _ _ h => h.1) ?_
  rintro e he key ⟨hends, hparent⟩ ⟨hkind, hkind', hdest⟩
  obtain ⟨t, ht, hedge⟩ := List.mem_filterMap.1 he
  obtain ⟨hname, rfl, -⟩ := edgeOf?_eq_some.1 hedge
  rw [Bool.and_eq_true] at hends
  rw [← hdest] at hparent
  have hnot : ¬ d.Displaces config s e.dest := fun h => hparent ⟨hkind', h⟩
  refine ⟨?_, fun h => hnot h.2⟩
  rw [hdest, hends.2, Bool.and_true]
  by_contra hsource
  exact hnot ⟨hdest ▸ hends.2, _, ht, isDangling_iff.2 ⟨hname, fun h => hsource h.1⟩,
    congrArg EdgeKind.tag hkind, rfl⟩

/-- An entity that has a parent by a dangling tuple has, in a store whose relations had both ends
before the document, only the last parent that the document gives it. -/
theorem exists_onlyParent (ht : Tidy d.relations) (hc : s.Coherent)
    (hends : ∀ key ∈ s.edges, s.hasEnds key = true)
    (h : d.Displaces config s child) :
    ∃ parent ∈ d.parentsOf child, (∀ p ∈ d.parentsOf child, (compare p parent).isLE) ∧
      (d.link config s).OnlyParent parent child := by
  obtain ⟨hchild, ⟨name, p, c⟩, hmem, hdangling, rfl, rfl⟩ := h
  obtain ⟨hname, hmissing⟩ := isDangling_iff.1 hdangling
  have hp : ¬ d.provides config s p = true := fun hp => hmissing ⟨hp, hchild⟩
  have hne : p ≠ c := fun heq => hp (heq ▸ hchild)
  let e : Edge := { source := p, dest := c, kind := .contains }
  have he : e ∈ d.stated config :=
    List.mem_filterMap.2 ⟨_, hmem, edgeOf?_eq_some.2 ⟨hname, rfl, rfl⟩⟩
  have hparent : (e.parent? c).isSome :=
    Option.isSome_iff_exists.2 ⟨p, Edge.parent?_eq_some.2 ⟨rfl, hne⟩⟩
  have hparents : (d.stated config).filterMap (Edge.parent? c) =
      d.parentsOf c := filterMap_parent? hname.symm
  have hnew : e.toEdgeKey ∉ (d.populate config s).edges := by
    intro hin
    rw [edges_populate] at hin
    have hsource : s.hasNode p = true := (Store.hasEnds_iff.1 (hends _ hin)).1
    exact hp (by rw [provides, hsource, Bool.true_or])
  obtain ⟨parent, hlast⟩ := Edge.exists_last_parent he hparent
  have honly : (d.link config s).OnlyParent parent c :=
    Store.onlyParent_foldl_offer (coherent_populate hc) (fun _ => bare_of_mem) hlast
      ⟨e, he, hparent, hnew⟩
  rw [hparents, getLast?_eq_some_iff (pairwise_parentsOf ht)] at hlast
  exact ⟨parent, hlast.1, hlast.2, honly⟩

/-- **What dangling tuples do.** Put into a store whose relations have both ends, a document that
was read and the same document without its dangling tuples leave, after a resolution, the same
entities and the same relations, but for the parents of entities that have one by a dangling tuple.
Such an entity has only the greatest parent that the document gives it, with the attributes of the
document's blocks, if this is an entity, and otherwise none. -/
theorem apply_withoutDangling {history : List Change} {text : String}
    (hends : ∀ key ∈ (Store.after history).edges, (Store.after history).hasEnds key = true)
    (h : parse config text = .ok d) :
    let g := Store.after history
    ∃ report s report' s', d.apply config g = .ok (report, s) ∧
      (d.withoutDangling config g).apply config g = .ok (report', s') ∧
      s.resolve.2.nodes = s'.resolve.2.nodes ∧
      (∀ key, ¬ (key.kind = .contains ∧ d.Displaces config g key.dest) →
        s.resolve.2.edge? key = s'.resolve.2.edge? key) ∧
      ∀ child, d.Displaces config g child →
        ∃ parent ∈ d.parentsOf child, (∀ p ∈ d.parentsOf child, (compare p parent).isLE) ∧
          ∀ p, s.resolve.2.edge? ⟨p, child, .contains⟩ =
            if p = parent ∧ d.provides config g parent = true then
              some { source := parent, dest := child, kind := .contains, resolved := true,
                     attributes := d.blocks.foldl
                       (fun a b => b.onEdge ⟨parent, child, .contains⟩ a) ∅ }
            else none := by
  intro g
  have hc : g.Coherent := Store.coherent_after history
  have hg : g.Grounded := fun hkey _ => hends _ (Store.mem_edges_iff.2 ⟨_, hkey⟩)
  have hk : ∀ t ∈ d.tuples, config.Knows t := parse_knows h
  have hk' : ∀ t ∈ (d.withoutDangling config g).tuples, config.Knows t := knows_keep hk
  have ht : Tidy d.relations := parse_tidy h
  obtain ⟨report, s, happly, hnodes, hedges⟩ := exists_apply ht.nonempty hk hc hg
  obtain ⟨report', s', happly', hnodes', hedges'⟩ := exists_apply pairs_keep_ne hk' hc hg
  refine ⟨report, s, report', s', happly, happly', ?_, fun key hkey => ?_, fun child hchild => ?_⟩
  · apply Std.ExtTreeMap.ext_getElem?
    intro id
    rw [hnodes, hnodes', ← withoutDangling, populate_withoutDangling]
    rfl
  · rw [Store.edge?, Store.edge?, hedges, hedges', ← withoutDangling, populate_withoutDangling,
      hasEnds_populate hk]
    split
    · next hthere =>
      rw [agreeOn_link hc key ⟨hthere, hkey⟩]
      rfl
    · rfl
  · obtain ⟨parent, hparent, hmax, honly⟩ := exists_onlyParent ht hc hends hchild
    refine ⟨parent, hparent, hmax, fun p => ?_⟩
    rw [Store.edge?, hedges, hasEnds_populate hk, honly, hchild.1, Bool.and_true]
    by_cases hp : p = parent
    · subst hp
      simp
    · simp [hp]

/-- A text that names two parents of a file, of which it does not declare the last. -/
def strayText : String :=
  "FACT TUPLE :\n$INSTANCE a cFile\n$INSTANCE c cFile\ncontain a c\ncontain ghost c\n"

/-- What the text says. -/
def stray : Document :=
  ((((∅ : Document).addTuple "$INSTANCE" ⟨"a", "cFile"⟩ 2).addTuple
    "$INSTANCE" ⟨"c", "cFile"⟩ 3).addTuple "contain" ⟨"a", "c"⟩ 4).addTuple
    "contain" ⟨"ghost", "c"⟩ 5

theorem parse_stray : parse {} strayText = .ok stray := by decide +kernel

/-- A file that has a parent. -/
def attached : List Change :=
  [.addNode { id := "a", kind := .file }, .addNode { id := "c", kind := .file },
    .addEdge { source := "a", dest := "c", kind := .contains }, .resolve]

/-- All relations of the store have both ends. -/
theorem hasEnds_attached :
    ∀ key ∈ (Store.after attached).edges, (Store.after attached).hasEnds key = true := by
  have hall : ∀ x ∈ (Store.after attached).edges.toList,
      (Store.after attached).hasEnds x.1 = true := by decide +kernel
  intro key hkey
  obtain ⟨e, he⟩ := Store.mem_edges_iff.1 hkey
  exact hall (key, e) (Std.ExtTreeMap.mem_toList_iff_getElem?_eq_some.2 he)

/-- The document displaces the parent of `c`. -/
theorem displaces_stray : stray.Displaces {} (Store.after attached) "c" :=
  ⟨by decide +kernel, ("contain", ⟨"ghost", "c"⟩), by decide +kernel, by decide +kernel, rfl, rfl⟩

theorem apply_withoutDangling_stray :
    let g := Store.after attached
    (∀ key ∈ g.edges, g.hasEnds key = true) ∧ parse {} strayText = .ok stray ∧
    stray.Displaces {} g "c" ∧
    ∃ report s report' s', stray.apply {} g = .ok (report, s) ∧
      (stray.withoutDangling {} g).apply {} g = .ok (report', s') ∧
      s.resolve.2.nodes = s'.resolve.2.nodes ∧
      (∀ key, ¬ (key.kind = .contains ∧ stray.Displaces {} g key.dest) →
        s.resolve.2.edge? key = s'.resolve.2.edge? key) ∧
      ∀ child, stray.Displaces {} g child →
        ∃ parent ∈ stray.parentsOf child,
          (∀ p ∈ stray.parentsOf child, (compare p parent).isLE) ∧
          ∀ p, s.resolve.2.edge? ⟨p, child, .contains⟩ =
            if p = parent ∧ stray.provides {} g parent = true then
              some { source := parent, dest := child, kind := .contains, resolved := true,
                     attributes := stray.blocks.foldl
                       (fun a b => b.onEdge ⟨parent, child, .contains⟩ a) ∅ }
            else none :=
  ⟨hasEnds_attached, parse_stray, displaces_stray,
    apply_withoutDangling hasEnds_attached parse_stray⟩

/-- A dangling tuple may cost a file the parent that the same document gives it. -/
theorem apply_withoutDangling_differs :
    let g := Store.after []
    (∀ key ∈ g.edges, g.hasEnds key = true) ∧ parse {} strayText = .ok stray ∧
    ∃ report s report' s', stray.apply {} g = .ok (report, s) ∧
      (stray.withoutDangling {} g).apply {} g = .ok (report', s') ∧
      s.resolve.2.edge? ⟨"a", "c", .contains⟩ = none ∧
      s'.resolve.2.edge? ⟨"a", "c", .contains⟩ =
        some { source := "a", dest := "c", kind := .contains, resolved := true } := by
  intro g
  have hk : ∀ t ∈ stray.tuples, Config.Knows {} t := parse_knows parse_stray
  obtain ⟨report, s, happly, -, hedges⟩ := exists_apply (parse_tidy parse_stray).nonempty hk
    Store.coherent_empty Store.grounded_empty
  obtain ⟨report', s', happly', -, hedges'⟩ := exists_apply pairs_keep_ne (knows_keep hk)
    Store.coherent_empty Store.grounded_empty
  refine ⟨fun key hkey => absurd hkey Std.ExtTreeMap.not_mem_empty, parse_stray, report, s,
    report', s', happly, happly', ?_, ?_⟩
  · rw [Store.edge?, hedges]
    decide +kernel
  · rw [Store.edge?, hedges']
    decide +kernel

end

end Document

end ArchFacts
