import ArchFacts.Proofs.Store.Fill
import Mathlib.Data.List.Induction

/-!
# Offering relations to a store

To add a list of relations is to offer them to the store one by one (`addEdges_snd`). The store
refuses one that it has, and one of an entity as its own parent. Any other it takes, and a parent
puts its rivals out (`getElem?_offer`). So stores that agree on some keys still do after a list of
relations has been offered to one and a part of it to the other, if the relations left out have none
of these keys, nor has any rival of a relation that has none (`AgreeOn.foldl_offer`). Two relations
with different keys that are no rivals may be offered in either order (`offer_comm`).

The parent of an entity is the last one offered: once one of the relations in a list is new as its
parent, it has afterwards only the last parent in the list (`onlyParent_foldl_offer`).
-/

namespace ArchFacts

theorem EdgeKey.isSelfContainment_iff {key : EdgeKey} :
    key.isSelfContainment = true ↔ key.kind = .contains ∧ key.source = key.dest := by
  rw [isSelfContainment, Bool.and_eq_true, decide_eq_true_eq, decide_eq_true_eq]

/-- The parent that a relation gives an entity, unless it is the entity itself. -/
def Edge.parent? (child : String) (e : Edge) : Option String :=
  if e.kind = .contains ∧ e.dest = child ∧ e.source ≠ child then some e.source else none

theorem Edge.parent?_eq_some {child parent : String} {e : Edge} :
    e.parent? child = some parent ↔
      e.toEdgeKey = ⟨parent, child, .contains⟩ ∧ parent ≠ child := by
  obtain ⟨⟨source, dest, kind⟩, _, _⟩ := e
  simp only [parent?, Option.ite_none_right_eq_some, Option.some.injEq, EdgeKey.mk.injEq]
  constructor
  · rintro ⟨⟨rfl, rfl, hne⟩, rfl⟩
    exact ⟨⟨rfl, rfl, rfl⟩, hne⟩
  · rintro ⟨⟨rfl, rfl, rfl⟩, hne⟩
    exact ⟨⟨rfl, rfl, hne⟩, rfl⟩

/-- Among relations of which one gives an entity a parent there is a last that does. -/
theorem Edge.exists_last_parent {child : String} {e : Edge} {es : List Edge} (he : e ∈ es)
    (hp : (e.parent? child).isSome) :
    ∃ last, (es.filterMap (Edge.parent? child)).getLast? = some last := by
  obtain ⟨p, hp⟩ := Option.isSome_iff_exists.1 hp
  rw [← Option.isSome_iff_exists, List.getLast?_isSome]
  exact List.ne_nil_of_mem (List.mem_filterMap.2 ⟨e, he, hp⟩)

namespace Store

/-- The store after a relation has been offered to it. -/
def offer (s : Store) (e : Edge) : Store := (s.granted (s.addEdge e)).2

/-- Whether two stores hold the same under some keys. -/
def AgreeOn (K : EdgeKey → Prop) (s s' : Store) : Prop :=
  ∀ key, K key → s.edges[key]? = s'.edges[key]?

/-- Whether an entity has one parent and no other, by a relation that is open and has no
attributes. -/
def OnlyParent (s : Store) (parent child : String) : Prop :=
  ∀ p, s.edges[EdgeKey.mk p child .contains]? =
    if p = parent then some { source := parent, dest := child, kind := .contains } else none

section
variable {s s' : Store} {e e' : Edge} {es : List Edge} {key : EdgeKey} {K : EdgeKey → Prop}
variable {parent child : String} {x : Tally × Store}

/-! ## One relation -/

theorem countEdge_snd (x : Tally × Store) (e : Edge) : (countEdge x e).2 = x.2.offer e := by
  unfold countEdge attempt offer
  cases x.2.addEdge e <;> rfl

/-- A relation is counted as refused exactly if it says that an entity contains itself or is there
already. -/
theorem countEdge_eq (x : Tally × Store) (e : Edge) : countEdge x e =
    (if e.isSelfContainment = true ∨ e.toEdgeKey ∈ x.2.edges
      then { x.1 with refused := x.1.refused + 1 } else { x.1 with added := x.1.added + 1 },
      x.2.offer e) := by
  refine Prod.ext ?_ (countEdge_snd x e)
  unfold countEdge attempt addEdge
  by_cases hself : e.isSelfContainment = true
  · rw [if_pos hself, if_pos (.inl hself)]
  · rw [if_neg hself]
    by_cases hmem : e.toEdgeKey ∈ x.2.edges
    · rw [if_pos (Std.ExtTreeMap.contains_iff_mem.2 hmem), if_pos (.inr hmem)]
    · rw [if_neg (mt Std.ExtTreeMap.contains_iff_mem.1 hmem), if_neg (by simp [hself, hmem])]

/-- Adding relations is offering one after the other. -/
theorem addEdges_snd (s : Store) (es : List Edge) : (s.addEdges es).2 = es.foldl offer s :=
  (List.foldl_hom Prod.snd fun x e => (countEdge_snd x e).symm).symm

@[simp] theorem offer_nodes : (s.offer e).nodes = s.nodes := by
  unfold offer
  cases h : s.addEdge e with
  | ok s' => exact addEdge_nodes h
  | error _ => rfl

theorem Coherent.offer (hc : s.Coherent) (e : Edge) : (s.offer e).Coherent := by
  rw [← countEdge_snd ({}, s)]
  exact hc.addEdges [e]

/-- A relation that is stored puts its rivals out. -/
theorem getElem?_registerEdge_rivals (hc : s.Coherent) :
    (s.registerEdge e).edges[key]? =
      if key = e.toEdgeKey then some e else if e.Rivals key then none else s.edges[key]? := by
  have hiff : (e.kind = .contains ∧ key.dest = e.dest ∧ key.kind = .contains) ↔ e.Rivals key := by
    rw [EdgeKey.Rivals, and_comm (a := key.kind = .contains), eq_comm (a := e.dest)]
  rw [getElem?_registerEdge hc]
  simp only [hiff]

/-- What stands under a key after a relation has been offered. -/
theorem getElem?_offer (hc : s.Coherent) :
    (s.offer e).edges[key]? =
      if e.isSelfContainment = true ∨ e.toEdgeKey ∈ s.edges then s.edges[key]?
      else if key = e.toEdgeKey then some e
      else if e.Rivals key then none
      else s.edges[key]? := by
  rw [offer, addEdge]
  by_cases hself : e.isSelfContainment = true
  · rw [if_pos hself, if_pos (.inl hself), granted]
  · rw [if_neg hself]
    by_cases hmem : e.toEdgeKey ∈ s.edges
    · rw [if_pos (Std.ExtTreeMap.contains_iff_mem.2 hmem), if_pos (.inr hmem), granted]
    · rw [if_neg (mt Std.ExtTreeMap.contains_iff_mem.1 hmem), if_neg (by simp [hself, hmem]),
        granted, getElem?_registerEdge_rivals hc]

/-- Off its own key and those of its rivals a relation touches nothing. -/
theorem getElem?_offer_of_ne (hc : s.Coherent) (hkey : key ≠ e.toEdgeKey) (hr : ¬ e.Rivals key) :
    (s.offer e).edges[key]? = s.edges[key]? := by
  rw [getElem?_offer hc, if_neg hkey, if_neg hr, ite_self]

/-- Whether a relation is there does not depend on one that has another key and is no rival. -/
theorem mem_edges_offer_of_ne (hc : s.Coherent) (hkey : key ≠ e.toEdgeKey) (hr : ¬ e.Rivals key) :
    key ∈ (s.offer e).edges ↔ key ∈ s.edges := by
  rw [mem_edges_iff, mem_edges_iff, getElem?_offer_of_ne hc hkey hr]

/-- A relation that the store has, or one of an entity as its own parent, is refused. -/
theorem offer_of_refused (h : e.isSelfContainment = true ∨ e.toEdgeKey ∈ s.edges) :
    s.offer e = s := by
  unfold offer addEdge
  by_cases hself : e.isSelfContainment = true
  · rw [if_pos hself]
    rfl
  · rw [if_neg hself, if_pos (Std.ExtTreeMap.contains_iff_mem.2 (h.resolve_left hself))]
    rfl

/-- A relation that has been offered is there, unless it is of an entity as its own parent. -/
theorem mem_edges_offer_self (hc : s.Coherent) (hself : e.isSelfContainment = false) :
    e.toEdgeKey ∈ (s.offer e).edges := by
  by_cases hmem : e.toEdgeKey ∈ s.edges
  · rwa [offer_of_refused (.inr hmem)]
  · have hno : ¬ (e.isSelfContainment = true ∨ e.toEdgeKey ∈ s.edges) := by simp [hself, hmem]
    rw [mem_edges_iff, getElem?_offer hc, if_neg hno, if_pos rfl]
    exact ⟨e, rfl⟩

/-- A relation in a store afterwards was there before or is the one that has been offered. -/
theorem getElem?_offer_cases (hc : s.Coherent) {e' : Edge}
    (h : (s.offer e).edges[key]? = some e') :
    s.edges[key]? = some e' ∨ e' = e ∧ e'.toEdgeKey = key := by
  rw [getElem?_offer hc] at h
  split at h
  · exact .inl h
  · split at h
    · next hkey =>
      cases h
      exact .inr ⟨rfl, hkey.symm⟩
    · split at h
      · cases h
      · exact .inl h

theorem mem_edges_offer_iff (hc : s.Coherent) (hkind : key.kind ≠ .contains) :
    key ∈ (s.offer e).edges ↔ key ∈ s.edges ∨ e.toEdgeKey = key := by
  have hrival : ¬ e.Rivals key := fun hr => hkind hr.2.1
  rw [mem_edges_iff, getElem?_offer hc, if_neg hrival]
  split
  · next hrefused =>
    rw [← mem_edges_iff]
    refine ⟨.inl, fun h => h.elim id ?_⟩
    rintro rfl
    exact hrefused.resolve_left fun hself => hkind (EdgeKey.isSelfContainment_iff.1 hself).1
  · split
    · next hkey => exact ⟨fun _ => .inr hkey.symm, fun _ => ⟨e, rfl⟩⟩
    · next hkey =>
      rw [← mem_edges_iff]
      exact ⟨.inl, fun h => h.resolve_right (Ne.symm hkey)⟩

/-! ## Lists of relations -/

theorem foldl_offer_nodes (s : Store) (es : List Edge) : (es.foldl offer s).nodes = s.nodes :=
  List.foldlRecOn (motive := fun s' => s'.nodes = s.nodes) es offer rfl
    fun _ hnodes _ _ => offer_nodes.trans hnodes

theorem Coherent.foldl_offer (hc : s.Coherent) (es : List Edge) :
    (es.foldl Store.offer s).Coherent :=
  List.foldlRecOn es Store.offer hc fun _ h e _ => h.offer e

/-- A relation in a store afterwards was there before or is one of those that have been offered. -/
theorem getElem?_foldl_offer_cases (hc : s.Coherent)
    (h : (es.foldl offer s).edges[key]? = some e) :
    s.edges[key]? = some e ∨ e ∈ es ∧ e.toEdgeKey = key := by
  induction es generalizing s with
  | nil => exact .inl h
  | cons e' es ih =>
    rcases ih (hc.offer e') h with he | ⟨he, hkey⟩
    · rcases getElem?_offer_cases hc he with he | ⟨rfl, hkey⟩
      · exact .inl he
      · exact .inr ⟨List.mem_cons_self, hkey⟩
    · exact .inr ⟨List.mem_cons_of_mem _ he, hkey⟩

/-- What is in a store afterwards was there before or has been offered. -/
theorem mem_edges_foldl_offer (hc : s.Coherent) (h : key ∈ (es.foldl offer s).edges) :
    key ∈ s.edges ∨ ∃ e ∈ es, e.toEdgeKey = key := by
  obtain ⟨e, he⟩ := mem_edges_iff.1 h
  rcases getElem?_foldl_offer_cases hc he with he | he
  · exact .inl (mem_edges_iff.2 ⟨e, he⟩)
  · exact .inr ⟨e, he⟩

/-- Relations that are all refused leave a store as it is, and are counted as refused. -/
theorem addEdges_of_refused
    (h : ∀ e ∈ es, e.isSelfContainment = true ∨ e.toEdgeKey ∈ s.edges) :
    s.addEdges es = ({ refused := es.length }, s) := by
  induction es using List.reverseRecOn with
  | nil => rfl
  | append_singleton es e ih =>
    obtain ⟨hes, he⟩ := List.forall_mem_append.1 h
    have hstep : s.addEdges (es ++ [e]) = countEdge (s.addEdges es) e := List.foldl_append
    rw [hstep, ih hes, countEdge_eq, if_pos (he e (by simp)), offer_of_refused (he e (by simp)),
      List.length_append, List.length_singleton]

theorem foldl_offer_of_refused
    (h : ∀ e ∈ es, e.isSelfContainment = true ∨ e.toEdgeKey ∈ s.edges) :
    es.foldl offer s = s := by
  rw [← addEdges_snd, addEdges_of_refused h]

/-- A relation that is no parent is there once it has been offered, and stays. -/
theorem mem_edges_foldl_offer_iff (hc : s.Coherent) (hkind : key.kind ≠ .contains) :
    key ∈ (es.foldl offer s).edges ↔ key ∈ s.edges ∨ ∃ e ∈ es, e.toEdgeKey = key := by
  induction es generalizing s with
  | nil => simp
  | cons e es ih =>
    rw [List.foldl_cons, ih (hc.offer e), mem_edges_offer_iff hc hkind, or_assoc]
    simp only [List.mem_cons, exists_eq_or_imp]

/-! ## Agreement -/

/-- A relation that has one of the keys does the same to stores that agree on them. -/
theorem AgreeOn.offer (h : AgreeOn K s s') (hc : s.Coherent) (hc' : s'.Coherent)
    (he : K e.toEdgeKey) : AgreeOn K (s.offer e) (s'.offer e) := by
  intro key hkey
  have hmem : e.toEdgeKey ∈ s.edges ↔ e.toEdgeKey ∈ s'.edges := by
    rw [mem_edges_iff, mem_edges_iff, h _ he]
  simp only [getElem?_offer hc, getElem?_offer hc', hmem, h key hkey]

/-- A relation that has none of the keys, and no rival among them, does nothing to them. -/
theorem agreeOn_offer (hc : s.Coherent) (he : ¬ K e.toEdgeKey)
    (hr : ∀ key, K key → ¬ e.Rivals key) : AgreeOn K (s.offer e) s :=
  fun key hkey => getElem?_offer_of_ne hc (fun heq => he (heq ▸ hkey)) (hr key hkey)

/-- Off its own key and those of its rivals a relation may as well be offered before another. -/
theorem agreeOn_offer_comm (hc : s.Coherent) (hkey : e.toEdgeKey ≠ e'.toEdgeKey)
    (hr : ¬ e'.Rivals e.toEdgeKey) :
    AgreeOn (fun key => key ≠ e'.toEdgeKey ∧ ¬ e'.Rivals key) ((s.offer e).offer e')
      ((s.offer e').offer e) := by
  have hother : ∀ {s : Store}, s.Coherent →
      AgreeOn (fun key => key ≠ e'.toEdgeKey ∧ ¬ e'.Rivals key) (s.offer e') s :=
    fun hc => agreeOn_offer hc (fun h => h.1 rfl) fun _ h => h.2
  intro key hk
  calc ((s.offer e).offer e').edges[key]?
    _ = (s.offer e).edges[key]? := hother (hc.offer e) key hk
    _ = ((s.offer e').offer e).edges[key]? :=
      ((hother hc).offer (hc.offer e') hc ⟨hkey, hr⟩ key hk).symm

/-- Relations with different keys that are no rivals may be offered in any order. -/
theorem offer_comm (hc : s.Coherent) (hkey : e.toEdgeKey ≠ e'.toEdgeKey)
    (hr : ¬ e.Rivals e'.toEdgeKey) : (s.offer e).offer e' = (s.offer e').offer e := by
  have hr' : ¬ e'.Rivals e.toEdgeKey := mt EdgeKey.Rivals.symm hr
  refine ((hc.offer e).offer e').ext ((hc.offer e').offer e) (by simp only [offer_nodes])
    (Std.ExtTreeMap.ext_getElem? fun key => ?_)
  by_cases hk : key ≠ e'.toEdgeKey ∧ ¬ e'.Rivals key
  · exact agreeOn_offer_comm hc hkey hr' key hk
  · -- The key is that of `e'` or of a rival of it, so of no rival of `e`.
    refine (agreeOn_offer_comm hc hkey.symm hr key ⟨?_, ?_⟩).symm
    · rintro rfl
      exact hk ⟨hkey, hr'⟩
    · intro hrival
      refine hk ⟨?_, fun hrival' => hr ⟨hrival.1, hrival'.1, hrival.2.2.trans hrival'.2.2.symm⟩⟩
      rintro rfl
      exact hr hrival

/-- Whether a relation is counted does not depend on one before it that has another key and is no
rival. -/
theorem countEdge_comm (hc : x.2.Coherent) (hkey : e.toEdgeKey ≠ e'.toEdgeKey)
    (hr : ¬ e.Rivals e'.toEdgeKey) :
    countEdge (countEdge x e) e' = countEdge (countEdge x e') e := by
  have hr' : ¬ e'.Rivals e.toEdgeKey := mt EdgeKey.Rivals.symm hr
  simp only [countEdge_eq, offer_comm hc hkey hr, mem_edges_offer_of_ne hc hkey.symm hr,
    mem_edges_offer_of_ne hc hkey hr']
  split <;> split <;> rfl

/-- Stores that agree on some keys still do after a list of relations has been offered to one and to
the other only some of them, among which are all that have one of the keys, provided that no rival
of the others has one. -/
theorem AgreeOn.foldl_offer {kept : Edge → Bool} (h : AgreeOn K s s') (hc : s.Coherent)
    (hc' : s'.Coherent) (hkept : ∀ e ∈ es, K e.toEdgeKey → kept e = true)
    (hrival : ∀ e ∈ es, ∀ key, K key → e.Rivals key → K e.toEdgeKey) :
    AgreeOn K (es.foldl Store.offer s) ((es.filter kept).foldl Store.offer s') := by
  induction es generalizing s s' with
  | nil => exact h
  | cons e es ih =>
    have hrest {t t' : Store} (ht : AgreeOn K t t') (hct : t.Coherent) (hct' : t'.Coherent) :
        AgreeOn K (es.foldl Store.offer t) ((es.filter kept).foldl Store.offer t') :=
      ih ht hct hct' (fun e' he' => hkept e' (by simp [he']))
        fun e' he' => hrival e' (by simp [he'])
    by_cases he : K e.toEdgeKey
    · rw [List.filter_cons_of_pos (hkept e (by simp) he)]
      exact hrest (h.offer hc hc' he) (hc.offer e) (hc'.offer e)
    · have hnone : ∀ key, K key → ¬ e.Rivals key :=
        fun key hkey hr => he (hrival e (by simp) key hkey hr)
      have hleft : AgreeOn K (s.offer e) s' :=
        fun key hkey => (agreeOn_offer hc he hnone key hkey).trans (h key hkey)
      by_cases hk : kept e = true
      · rw [List.filter_cons_of_pos hk]
        have hright : AgreeOn K (s.offer e) (s'.offer e) :=
          fun key hkey => (hleft key hkey).trans (agreeOn_offer hc' he hnone key hkey).symm
        exact hrest hright (hc.offer e) (hc'.offer e)
      · rw [List.filter_cons_of_neg hk]
        exact hrest hleft (hc.offer e) hc'

/-- Under some keys nothing changes if every relation that has one of them is refused, and no rival
of the others has one. -/
theorem agreeOn_foldl_offer (hc : s.Coherent)
    (hrefused : ∀ e ∈ es, K e.toEdgeKey → e.isSelfContainment = true ∨ e.toEdgeKey ∈ s.edges)
    (hrival : ∀ e ∈ es, ∀ key, K key → e.Rivals key → K e.toEdgeKey) :
    AgreeOn K (es.foldl Store.offer s) s := by
  classical
  have hrest : (es.filter fun e => K e.toEdgeKey).foldl Store.offer s = s := by
    refine foldl_offer_of_refused fun e he => ?_
    obtain ⟨he, hkey⟩ := List.mem_filter.1 he
    exact hrefused e he (of_decide_eq_true hkey)
  have hagree : AgreeOn K (es.foldl Store.offer s)
      ((es.filter fun e => K e.toEdgeKey).foldl Store.offer s) :=
    AgreeOn.foldl_offer (fun _ _ => rfl) hc hc (fun _ _ => decide_eq_true) hrival
  rwa [hrest] at hagree

/-- A relation that is there and no parent stays as it is, whatever is offered. -/
theorem getElem?_foldl_offer_of_some (hc : s.Coherent) (hkind : key.kind ≠ .contains)
    (h : s.edges[key]? = some e) : (es.foldl offer s).edges[key]? = some e := by
  have hagree : AgreeOn (· = key) (es.foldl offer s) s := by
    refine agreeOn_foldl_offer hc ?_ ?_
    · rintro e' - rfl
      exact .inr (mem_edges_iff.2 ⟨e, h⟩)
    · rintro e' - _ rfl hr
      exact absurd hr.2.1 hkind
  exact (hagree key rfl).trans h

/-- Of relations with free and distinct keys all are added but those of an entity as its own parent,
which are refused. -/
theorem addEdges_fst (hc : s.Coherent) (hfree : ∀ e ∈ es, e.toEdgeKey ∉ s.edges)
    (hd : es.Pairwise (·.toEdgeKey ≠ ·.toEdgeKey)) :
    (s.addEdges es).1 =
      { added := es.countP (!·.isSelfContainment)
        refused := es.countP (·.isSelfContainment) } := by
  induction es using List.reverseRecOn with
  | nil => rfl
  | append_singleton es e ih =>
    obtain ⟨hd, -, hne⟩ := List.pairwise_append.1 hd
    have hstep : s.addEdges (es ++ [e]) = countEdge (s.addEdges es) e := List.foldl_append
    have hnew : e.toEdgeKey ∉ (s.addEdges es).2.edges := by
      rw [addEdges_snd]
      intro hmem
      rcases mem_edges_foldl_offer hc hmem with hmem | ⟨e', he', hkey⟩
      · exact hfree e (by simp) hmem
      · exact hne e' he' e (by simp) hkey
    rw [hstep, countEdge_eq, ih (fun e' he' => hfree e' (by simp [he'])) hd, List.countP_append,
      List.countP_append, List.countP_singleton, List.countP_singleton]
    by_cases hself : e.isSelfContainment = true <;> simp [hself, hnew]

/-! ## The parent of an entity -/

/-- Under the keys of the parents of an entity nothing changes if the store has all parents that are
offered. -/
theorem agreeOn_parents (hc : s.Coherent)
    (h : ∀ e ∈ es, (e.parent? child).isSome → e.toEdgeKey ∈ s.edges) :
    AgreeOn (fun key => key.kind = .contains ∧ key.dest = child) (es.foldl Store.offer s) s := by
  refine agreeOn_foldl_offer hc ?_ ?_
  · rintro e he ⟨hkind, hdest⟩
    by_cases hself : e.source = child
    · exact .inl (by simp [EdgeKey.isSelfContainment, hkind, hdest, hself])
    · exact .inr (h e he (by simp [Edge.parent?, hkind, hdest, hself]))
  · rintro e - key ⟨-, rfl⟩ hr
    exact ⟨hr.1, hr.2.2⟩

/-- A new parent puts every other out. -/
theorem onlyParent_offer (hc : s.Coherent) (he : e.bare = e)
    (hp : e.parent? child = some parent) (hnew : e.toEdgeKey ∉ s.edges) :
    (s.offer e).OnlyParent parent child := by
  obtain ⟨hkey, hne⟩ := Edge.parent?_eq_some.1 hp
  have he : e = { source := parent, dest := child, kind := .contains } :=
    he.symm.trans (by rw [Edge.bare, hkey])
  have hself : e.isSelfContainment = false := by
    rw [hkey]
    simp [EdgeKey.isSelfContainment, hne]
  intro p
  rw [getElem?_offer hc, if_neg (by simp [hself, hnew]), hkey]
  by_cases hp : p = parent
  · rw [if_pos (by rw [hp]), if_pos hp, he]
  · rw [if_neg (by simp [hp]), if_pos ⟨rfl, rfl, rfl⟩, if_neg hp]

/-- A parent that is offered takes the place of the only parent, which may be the same. -/
theorem OnlyParent.offer_parent (h : s.OnlyParent parent child) (hc : s.Coherent)
    (he : e.bare = e) {parent' : String} (hp : e.parent? child = some parent') :
    (s.offer e).OnlyParent parent' child := by
  by_cases hmem : e.toEdgeKey ∈ s.edges
  · obtain ⟨e', he'⟩ := mem_edges_iff.1 hmem
    rw [(Edge.parent?_eq_some.1 hp).1, h] at he'
    obtain rfl : parent' = parent := by
      by_contra hne
      rw [if_neg hne] at he'
      cases he'
    intro p
    rw [getElem?_offer hc, if_pos (.inr hmem), h]
  · exact onlyParent_offer hc he hp hmem

/-- The only parent stays if what is offered is no parent. -/
theorem OnlyParent.offer_other (h : s.OnlyParent parent child) (hc : s.Coherent)
    (hp : e.parent? child = none) : (s.offer e).OnlyParent parent child := by
  intro p
  rw [← h p]
  by_cases hother : e.kind = .contains ∧ e.dest = child
  · -- The entity itself is no parent, but refused.
    have hself : e.source = child := by
      by_contra hne
      rw [Edge.parent?, if_pos ⟨hother.1, hother.2, hne⟩] at hp
      cases hp
    have hrefused : e.isSelfContainment = true := by
      simp [EdgeKey.isSelfContainment, hother, hself]
    rw [getElem?_offer hc, if_pos (.inl hrefused)]
  · refine getElem?_offer_of_ne hc (fun hkey => hother ?_) fun hr => hother ⟨hr.1, hr.2.2⟩
    rw [← hkey]
    exact ⟨rfl, rfl⟩

/-- An entity that has one parent has still one after a relation has been offered. -/
theorem OnlyParent.offer (h : s.OnlyParent parent child) (hc : s.Coherent) (he : e.bare = e) :
    (s.offer e).OnlyParent ((e.parent? child).getD parent) child := by
  cases hp : e.parent? child with
  | some p => exact h.offer_parent hc he hp
  | none => exact h.offer_other hc hp

/-- If one of some relations, which have no attributes, gives an entity a new parent, the last
parent that they give it is the only one afterwards. -/
theorem onlyParent_foldl_offer (hc : s.Coherent) (hbare : ∀ e ∈ es, e.bare = e)
    (hlast : (es.filterMap (Edge.parent? child)).getLast? = some parent)
    (hnew : ∃ e ∈ es, (e.parent? child).isSome ∧ e.toEdgeKey ∉ s.edges) :
    (es.foldl offer s).OnlyParent parent child := by
  induction es using List.reverseRecOn generalizing parent with
  | nil => cases hlast
  | append_singleton es e ih =>
    have hc' : (es.foldl Store.offer s).Coherent := hc.foldl_offer es
    have hlast : (e.parent? child).or (es.filterMap (Edge.parent? child)).getLast? =
        some parent := by
      rw [← hlast, List.filterMap_append, List.getLast?_append]
      cases hp : e.parent? child <;> simp [hp]
    rw [List.foldl_append, List.foldl_cons, List.foldl_nil]
    by_cases hold : ∃ e ∈ es, (e.parent? child).isSome ∧ e.toEdgeKey ∉ s.edges
    · -- The entity has only one parent before the last relation.
      have ⟨e', he', hp', _⟩ := hold
      obtain ⟨parent', hlast'⟩ := Edge.exists_last_parent he' hp'
      have honly : (es.foldl Store.offer s).OnlyParent parent' child :=
        ih (fun e' he' => hbare e' (by simp [he'])) hlast' hold
      rw [hlast', Option.or_some, Option.some.injEq] at hlast
      exact hlast ▸ honly.offer hc' (hbare e (by simp))
    · -- The last relation is the first that gives it a new parent.
      obtain ⟨e', he', hp, hfree⟩ := hnew
      obtain rfl : e' = e := by
        rcases List.mem_append.1 he' with he' | he'
        · exact absurd ⟨e', he', hp, hfree⟩ hold
        · exact List.mem_singleton.1 he'
      obtain ⟨p, hp⟩ := Option.isSome_iff_exists.1 hp
      have hfree' : e'.toEdgeKey ∉ (es.foldl Store.offer s).edges := by
        intro hmem
        rcases mem_edges_foldl_offer hc hmem with hmem | ⟨e, he, hkey⟩
        · exact hfree hmem
        · refine hold ⟨e, he, ?_, hkey ▸ hfree⟩
          rw [Edge.parent?_eq_some.2 (hkey ▸ Edge.parent?_eq_some.1 hp)]
          rfl
      rw [hp, Option.some_or, Option.some.injEq] at hlast
      exact hlast ▸ onlyParent_offer hc' (hbare e' (by simp)) hp hfree'

/-- If an entity has no parent, it has afterwards the last that is offered, if any is. -/
theorem getElem?_foldl_offer_parent (hc : s.Coherent) (hbare : ∀ e ∈ es, e.bare = e)
    (hnone : ∀ p, EdgeKey.mk p child .contains ∉ s.edges) :
    (es.foldl offer s).edges[EdgeKey.mk parent child .contains]? =
      if (es.filterMap (Edge.parent? child)).getLast? = some parent then
        some { source := parent, dest := child, kind := .contains }
      else none := by
  by_cases hex : ∃ e ∈ es, (e.parent? child).isSome
  · obtain ⟨e, he, hp⟩ := hex
    have hnew : e.toEdgeKey ∉ s.edges := by
      obtain ⟨p, hp⟩ := Option.isSome_iff_exists.1 hp
      rw [(Edge.parent?_eq_some.1 hp).1]
      exact hnone p
    obtain ⟨last, hlast⟩ := Edge.exists_last_parent he hp
    rw [onlyParent_foldl_offer hc hbare hlast ⟨e, he, hp, hnew⟩, hlast]
    by_cases h : parent = last
    · rw [if_pos h, if_pos (congrArg some h.symm), h]
    · rw [if_neg h, if_neg fun heq => h (Option.some.inj heq).symm]
  · have hnil : es.filterMap (Edge.parent? child) = [] := by
      refine List.filterMap_eq_nil_iff.2 fun e he => ?_
      rw [← Option.not_isSome_iff_eq_none]
      exact fun hp => hex ⟨e, he, hp⟩
    have hagree : AgreeOn (fun key => key.kind = .contains ∧ key.dest = child)
        (es.foldl offer s) s := agreeOn_parents hc fun e he hp => absurd ⟨e, he, hp⟩ hex
    rw [hagree _ ⟨rfl, rfl⟩, hnil, Std.ExtTreeMap.getElem?_eq_none (hnone parent)]
    rfl

end

end Store

end ArchFacts
