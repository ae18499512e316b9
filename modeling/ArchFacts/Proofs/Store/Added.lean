import ArchFacts.Proofs.Store.Offer

/-!
# Relations that are new

When relations are added that are no parents, no relation gives way. So every relation that is
counted is one more (`edgeCount_addEdges`), all that were there are still there, and what is counted
is what is new (`addEdges_fst_eq_length_added`). If the relations differ whenever their keys do, the
new ones are those whose keys were free (`mem_added_addEdges`).
-/

namespace ArchFacts.Store

/-- The relations of a store under keys that are free in another one. -/
def added (s s' : Store) : List Edge := s'.edgeList.filter fun e => (s.edge? e.toEdgeKey).isNone

section
variable {s s' : Store} {e : Edge} {es : List Edge} {x : Tally × Store}

/-- A relation is new if it is there now and its key was free. -/
theorem mem_added (hc' : s'.Coherent) :
    e ∈ s.added s' ↔ s'.edge? e.toEdgeKey = some e ∧ s.edge? e.toEdgeKey = none := by
  rw [added, List.mem_filter, mem_edgeList hc', Option.isNone_iff_eq_none]
  rfl

/-- If nothing is lost, the store is larger by what is new. -/
theorem edgeCount_eq_add_length_added (hc : s.Coherent) (hc' : s'.Coherent)
    (hkeep : ∀ key e, s.edge? key = some e → s'.edge? key = some e) :
    s'.edgeCount = s.edgeCount + (s.added s').length := by
  have hold : (s'.edgeList.filter fun e => (s.edge? e.toEdgeKey).isSome).Perm s.edgeList := by
    have hnodup : ∀ {t : Store}, t.Coherent → t.edgeList.Nodup :=
      fun ht => ht.pairwise_key_ne.imp fun hne heq => hne (congrArg _ heq)
    refine (List.perm_ext_iff_of_nodup ((hnodup hc').filter _) (hnodup hc)).2 fun e => ?_
    rw [List.mem_filter, mem_edgeList hc', mem_edgeList hc]
    constructor
    · rintro ⟨he, hthere⟩
      obtain ⟨e', he'⟩ := Option.isSome_iff_exists.1 hthere
      have heq : some e' = some e := (hkeep _ e' he').symm.trans he
      exact he'.trans heq
    · intro he
      exact ⟨hkeep _ e he, Option.isSome_iff_exists.2 ⟨e, he⟩⟩
  calc s'.edgeCount
    _ = s'.edgeList.length := length_edgeList.symm
    _ = (s'.edgeList.filter fun e => (s.edge? e.toEdgeKey).isSome).length +
        (s.added s').length := by
      rw [List.length_eq_length_filter_add fun e => (s.edge? e.toEdgeKey).isSome, added]
      simp only [Option.not_isSome]
    _ = s.edgeCount + (s.added s').length := by rw [hold.length_eq, length_edgeList]

/-- A relation that is no parent is put beside those that are there. -/
theorem edges_offer (hc : s.Coherent) (hkind : e.kind ≠ .contains) : (s.offer e).edges =
    if e.toEdgeKey ∈ s.edges then s.edges else s.edges.insert e.toEdgeKey e := by
  have hself : e.isSelfContainment = false :=
    Bool.eq_false_iff.2 fun h => hkind (EdgeKey.isSelfContainment_iff.1 h).1
  by_cases hmem : e.toEdgeKey ∈ s.edges
  · rw [if_pos hmem, offer_of_refused (.inr hmem)]
  · rw [if_neg hmem]
    refine Std.ExtTreeMap.ext_getElem? fun key => ?_
    have hrival : ¬ e.Rivals key := fun hr => hkind hr.1
    rw [getElem?_offer hc, if_neg (by simp [hself, hmem]), if_neg hrival,
      Std.ExtTreeMap.getElem?_insert]
    exact if_congr (by rw [Std.LawfulEqCmp.compare_eq_iff_eq, eq_comm]) rfl rfl

/-- A relation that is no parent is counted exactly if the store grows. -/
theorem edgeCount_countEdge (hc : x.2.Coherent) (hkind : e.kind ≠ .contains) :
    (countEdge x e).2.edgeCount + x.1.added = x.2.edgeCount + (countEdge x e).1.added := by
  have hself : ¬ e.isSelfContainment = true := fun h =>
    hkind (EdgeKey.isSelfContainment_iff.1 h).1
  rw [countEdge_eq, edgeCount, edges_offer hc hkind]
  by_cases hmem : e.toEdgeKey ∈ x.2.edges
  · rw [if_pos hmem, if_pos (.inr hmem), edgeCount]
  · rw [if_neg hmem, if_neg (by simp [hself, hmem]), Std.ExtTreeMap.size_insert,
      if_neg (mt Std.ExtTreeMap.contains_iff_mem.1 hmem), edgeCount, Nat.add_right_comm,
      Nat.add_assoc]

/-- If none of the relations comes from a parent, the store has as many more as are accepted. -/
theorem edgeCount_addEdges (hc : s.Coherent) (hkind : ∀ e ∈ es, e.kind ≠ .contains) :
    (s.addEdges es).2.edgeCount = s.edgeCount + (s.addEdges es).1.added := by
  refine (List.foldlRecOn (motive := fun x => x.2.Coherent ∧
    x.2.edgeCount = s.edgeCount + x.1.added) es countEdge (b := ({}, s)) ⟨hc, rfl⟩ ?_).2
  rintro x ⟨hcx, hx⟩ e he
  refine ⟨?_, ?_⟩
  · rw [countEdge_snd]
    exact hcx.offer e
  · have hstep := edgeCount_countEdge hcx (hkind e he)
    omega

/-! ## Adding relations that are no parents -/

/-- If none of the relations comes from a parent, those that are there stay as they are. -/
theorem edge?_addEdges_of_some {key : EdgeKey} (hc : s.Coherent)
    (hkind : ∀ e ∈ es, e.kind ≠ .contains) (h : s.edge? key = some e) :
    (s.addEdges es).2.edge? key = some e := by
  have hagree : AgreeOn (· ∈ s.edges) (es.foldl offer s) s :=
    agreeOn_foldl_offer hc (fun _ _ hmem => .inr hmem)
      fun e he _ _ hr => absurd hr.1 (hkind e he)
  rw [addEdges_snd]
  exact (hagree key (mem_edges_iff.2 ⟨e, h⟩)).trans h

/-- What is counted is what is new. -/
theorem addEdges_fst_eq_length_added (hc : s.Coherent)
    (hkind : ∀ e ∈ es, e.kind ≠ .contains) :
    (s.addEdges es).1.added = (s.added (s.addEdges es).2).length := by
  have hkeep : ∀ key e, s.edge? key = some e → (s.addEdges es).2.edge? key = some e :=
    fun _ _ => edge?_addEdges_of_some hc hkind
  have hgrown := edgeCount_addEdges hc hkind
  rw [edgeCount_eq_add_length_added hc (hc.addEdges es) hkeep] at hgrown
  exact (Nat.add_left_cancel hgrown).symm

/-- Of relations that differ whenever their keys do, those with free keys are new. -/
theorem mem_added_addEdges (hc : s.Coherent) (hkind : ∀ e ∈ es, e.kind ≠ .contains)
    (hkey : ∀ e ∈ es, ∀ e' ∈ es, e.toEdgeKey = e'.toEdgeKey → e = e') :
    e ∈ s.added (s.addEdges es).2 ↔ e ∈ es ∧ s.edge? e.toEdgeKey = none := by
  rw [mem_added (hc.addEdges es), addEdges_snd]
  refine and_congr_left fun hfree => ⟨fun he => ?_, fun he => ?_⟩
  · rcases getElem?_foldl_offer_cases hc he with he | ⟨he, -⟩
    · rw [edge?, he] at hfree
      cases hfree
    · exact he
  · obtain ⟨e', he'⟩ := mem_edges_iff.1
      ((mem_edges_foldl_offer_iff hc (hkind e he)).2 (.inr ⟨e, he, rfl⟩))
    rcases getElem?_foldl_offer_cases hc he' with hold | ⟨hmem, heq⟩
    · rw [edge?, hold] at hfree
      cases hfree
    · rwa [edge?, hkey e he e' hmem heq.symm, heq]

end

end ArchFacts.Store
