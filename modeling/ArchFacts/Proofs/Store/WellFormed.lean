import ArchFacts.Proofs.Store.Step

/-!
# Well-formed stores

The rules on the shape of a store (`WellFormed`): everything stands under its own id or key, nothing
contains itself, an entity has at most one parent, no entity has the attribute `label`, and no key
of attributes is without values or has a value twice. What a step leaves was there before or is new
and obeys the rules (`Step.node_cases`, `Step.edge_cases`), so a step of a coherent store keeps them
(`Step.wellFormed`). Coherence is needed for the rule on parents (`Step.singleParents`): a new
parent puts out those that the index of destinations shows.
-/

namespace ArchFacts

/-- An entity without a label keeps its name and its attributes. -/
theorem Node.takeLabel_eq {n : Node} (h : labelKey ∉ n.attributes.entries) : n.takeLabel = n := by
  have hvalues : n.attributes.values labelKey = [] := Attributes.values_eq_nil_of_not_mem h
  simp [takeLabel, Attributes.take, hvalues, Attributes.erase_of_not_mem h]

namespace Store

/-- The rules on the shape of a store. -/
structure WellFormed (s : Store) : Prop where
  node_id : ∀ {id : String} {n}, s.nodes[id]? = some n → n.id = id
  edge_key : ∀ {key : EdgeKey} {e}, s.edges[key]? = some e → e.toEdgeKey = key
  not_selfContainment : ∀ {key}, key ∈ s.edges → key.isSelfContainment = false
  parent_unique : ∀ {k k'}, k ∈ s.edges → k' ∈ s.edges → k.kind = .contains →
    k'.kind = .contains → k.dest = k'.dest → k = k'
  no_label : ∀ {id : String} {n}, s.nodes[id]? = some n → labelKey ∉ n.attributes.entries
  node_proper : ∀ {id : String} {n}, s.nodes[id]? = some n → n.attributes.Proper
  edge_proper : ∀ {key : EdgeKey} {e}, s.edges[key]? = some e → e.attributes.Proper

/-- Whether an entity has at most one parent. -/
def SingleParents (s : Store) : Prop :=
  ∀ {k k'}, k ∈ s.edges → k' ∈ s.edges → k.kind = .contains → k'.kind = .contains →
    k.dest = k'.dest → k = k'

section
variable {P : Attributes → Prop} {s s' : Store}

theorem wellFormed_empty : (∅ : Store).WellFormed where
  node_id h := by simp at h
  edge_key h := by simp at h
  not_selfContainment h := by simp at h
  parent_unique h := by simp at h
  no_label h := by simp at h
  node_proper h := by simp at h
  edge_proper h := by simp at h

theorem singleParents_empty : (∅ : Store).SingleParents := wellFormed_empty.parent_unique

/-! ## What a step leaves

Whatever is there after a step was there before it, perhaps with other attributes, or is new and
obeys the rules. -/

/-- An entity that a step leaves was there before, or is new and has no label. -/
theorem Step.node_cases (hP : Attributes.Rule P) (hs : Step P s s') (hc : s.Coherent) {id : String}
    {n : Node} (hn : s'.nodes[id]? = some n) :
    (∃ m, s.nodes[id]? = some m ∧ (P m.attributes → P n.attributes) ∧
        (labelKey ∉ m.attributes.entries → labelKey ∉ n.attributes.entries)) ∨
      P n.attributes ∧ labelKey ∉ n.attributes.entries := by
  have hold : s.nodes[id]? = some n →
      ∃ m, s.nodes[id]? = some m ∧ (P m.attributes → P n.attributes) ∧
        (labelKey ∉ m.attributes.entries → labelKey ∉ n.attributes.entries) :=
    fun hn => ⟨n, hn, fun h => h, fun h => h⟩
  cases hs with
  | @register m _ hm =>
    rcases getElem?_insert_eq_some.1 hn with ⟨_, rfl⟩ | ⟨_, hn⟩
    · exact .inr ⟨hP.erase hm, m.labelKey_not_mem_takeLabel⟩
    · exact .inl (hold hn)
  | dropNode _ => exact .inl (hold (getElem?_of_erase hn))
  | @rename i m name hm =>
    rcases getElem?_insert_eq_some.1 hn with ⟨rfl, rfl⟩ | ⟨_, hn⟩
    · obtain rfl : m.id = i := hc.node_id hm
      exact .inl ⟨m, hm, hP.erase, fun _ => Node.labelKey_not_mem_takeLabel _⟩
    · exact .inl (hold (getElem?_of_erase hn))
  | @setNode i m a hm ha hl =>
    rcases getElem?_insert_eq_some.1 hn with ⟨rfl, rfl⟩ | ⟨_, hn⟩
    · exact .inl ⟨m, hm, ha, hl⟩
    · exact .inl (hold hn)
  | eraseEdge key => exact .inl (hold (eraseEdge_nodes ▸ hn))
  | registerEdge _ _ _ => exact .inl (hold (registerEdge_nodes ▸ hn))
  | setEdge _ _ => exact .inl (hold hn)
  | resolve => exact .inl (hold hn)
  | clear => simp at hn

/-- A relation that a step leaves was there before, or is new, contains nothing in itself, and is
the only parent of its destination if it is a parent. -/
theorem Step.edge_cases (hs : Step P s s') (hc : s.Coherent) {key : EdgeKey} {e' : Edge}
    (he' : s'.edges[key]? = some e') :
    (∃ e, s.edges[key]? = some e ∧ (P e.attributes → P e'.attributes)) ∨
      P e'.attributes ∧ key.isSelfContainment = false ∧
        ∀ k ∈ s'.edges, key.kind = .contains → k.kind = .contains → key.dest = k.dest →
          key = k := by
  have hold : s.edges[key]? = some e' →
      ∃ e, s.edges[key]? = some e ∧ (P e.attributes → P e'.attributes) :=
    fun he => ⟨e', he, fun h => h⟩
  cases hs with
  | register _ _ => exact .inl (hold he')
  | dropNode _ => exact .inl (hold he')
  | rename _ _ => exact .inl (hold he')
  | setNode _ _ _ => exact .inl (hold he')
  | eraseEdge k =>
    rw [getElem?_eraseEdge] at he'
    split at he'
    · cases he'
    · exact .inl (hold he')
  | @registerEdge e hself _ he =>
    rw [getElem?_registerEdge hc] at he'
    split at he'
    · next hkey =>
      cases he'
      refine .inr ⟨he, hkey ▸ hself, fun k hk hkind hkind' hdest => ?_⟩
      by_contra hne
      -- The old parents have been put out.
      obtain ⟨e', he'⟩ := mem_edges_iff.1 hk
      rw [getElem?_registerEdge hc, if_neg (hkey ▸ Ne.symm hne),
        if_pos (hkey ▸ ⟨hkind, hdest.symm, hkind'⟩)] at he'
      cases he'
    · split at he'
      · cases he'
      · exact .inl (hold he')
  | @setEdge k e a he ha =>
    rcases getElem?_insert_eq_some.1 he' with ⟨rfl, rfl⟩ | ⟨_, he'⟩
    · exact .inl ⟨e, he, ha⟩
    · exact .inl (hold he')
  | resolve =>
    rw [getElem?_resolve] at he'
    obtain ⟨e, he, hset⟩ := Option.bind_eq_some_iff.1 he'
    rw [settle_eq hset]
    exact .inl ⟨e, he, fun h => h⟩
  | clear => simp at he'

/-- A step stores nothing that contains itself. -/
theorem Step.not_selfContainment (hs : Step P s s') (hc : s.Coherent)
    (h : ∀ {key}, key ∈ s.edges → key.isSelfContainment = false) {key : EdgeKey}
    (hk : key ∈ s'.edges) : key.isSelfContainment = false := by
  obtain ⟨e', he'⟩ := mem_edges_iff.1 hk
  rcases hs.edge_cases hc he' with ⟨e, he, _⟩ | ⟨_, hself, _⟩
  · exact h (mem_edges_iff.2 ⟨e, he⟩)
  · exact hself

/-- A step gives no entity a second parent. -/
theorem Step.singleParents (hs : Step P s s') (hc : s.Coherent) (h : s.SingleParents) :
    s'.SingleParents := by
  intro k k' hk hk' hkind hkind' hdest
  obtain ⟨e, he⟩ := mem_edges_iff.1 hk
  obtain ⟨e', he'⟩ := mem_edges_iff.1 hk'
  rcases hs.edge_cases hc he with ⟨e₀, he₀, _⟩ | ⟨_, _, honly⟩
  · rcases hs.edge_cases hc he' with ⟨e₀', he₀', _⟩ | ⟨_, _, honly⟩
    · exact h (mem_edges_iff.2 ⟨e₀, he₀⟩) (mem_edges_iff.2 ⟨e₀', he₀'⟩) hkind hkind' hdest
    · exact (honly k hk hkind' hkind hdest.symm).symm
  · exact honly k' hk' hkind hkind' hdest

/-- Steps give no entity a second parent. -/
theorem Steps.singleParents (hs : Steps P s s') (hc : s.Coherent) (h : s.SingleParents) :
    s'.SingleParents := by
  induction hs with
  | refl => exact h
  | tail hsteps hstep ih =>
    intro k k'
    exact hstep.singleParents (Steps.coherent hsteps hc) ih

/-- A step of a coherent store that brings in proper attributes only keeps the rules. -/
theorem Step.wellFormed (hs : Step Attributes.Proper s s') (hc : s.Coherent) (h : s.WellFormed) :
    s'.WellFormed where
  node_id := (hs.coherent hc).node_id
  edge_key := (hs.coherent hc).edge_key
  not_selfContainment := hs.not_selfContainment hc h.not_selfContainment
  parent_unique := hs.singleParents hc h.parent_unique
  no_label hn := by
    rcases hs.node_cases Attributes.rule_proper hc hn with ⟨m, hm, _, hl⟩ | ⟨_, hl⟩
    · exact hl (h.no_label hm)
    · exact hl
  node_proper hn := by
    rcases hs.node_cases Attributes.rule_proper hc hn with ⟨m, hm, hp, _⟩ | ⟨hp, _⟩
    · exact hp (h.node_proper hm)
    · exact hp
  edge_proper he := by
    rcases hs.edge_cases hc he with ⟨e, he, hp⟩ | ⟨hp, _⟩
    · exact hp (h.edge_proper he)
    · exact hp

/-- Steps from a coherent store that bring in proper attributes only keep the rules. -/
theorem Steps.wellFormed (hs : Steps Attributes.Proper s s') (hc : s.Coherent)
    (h : s.WellFormed) : s'.WellFormed := by
  induction hs with
  | refl => exact h
  | tail hsteps hstep ih => exact hstep.wellFormed (Steps.coherent hsteps hc) ih

/-- An entity has at most one parent. -/
theorem WellFormed.length_parents_le (h : s.WellFormed) (hc : s.Coherent) (id : String) :
    (s.edgeList.filter fun e => e.kind = .contains && e.dest = id).length ≤ 1 := by
  have hlt := hc.pairwise_edgeList.filter fun e => e.kind = .contains && e.dest = id
  have hparent : ∀ e ∈ s.edgeList.filter fun e => e.kind = .contains && e.dest = id,
      e.toEdgeKey ∈ s.edges ∧ e.kind = .contains ∧ e.dest = id := by
    intro e he
    obtain ⟨hm, he⟩ := List.mem_filter.1 he
    exact ⟨mem_edges_iff.2 ⟨e, (mem_edgeList hc).1 hm⟩, by simpa using he⟩
  generalize (s.edgeList.filter fun e => e.kind = .contains && e.dest = id) = parents at *
  match parents with
  | [] => simp
  | [_] => simp
  | a :: b :: _ =>
    obtain ⟨ha, hka, hda⟩ := hparent a (by simp)
    obtain ⟨hb, hkb, hdb⟩ := hparent b (by simp)
    have hab : a.toEdgeKey = b.toEdgeKey := h.parent_unique ha hb hka hkb (hda.trans hdb.symm)
    have hcmp : compare a.toEdgeKey b.toEdgeKey = .lt := List.rel_of_pairwise_cons hlt (by simp)
    simp [hab] at hcmp

end

end Store

end ArchFacts
