import ArchFacts.Proofs.History
import ArchFacts.Proofs.Store.Fill

/-!
# Resolving a store

A resolution settles every relation of a coherent store and touches nothing else. Each relation is
either left resolved or dropped, so the two counts of the report add up to the number of relations
that there were (`resolved_add_unresolved`), and those that are dropped are those that are not
there afterwards (`Coherent.unresolved_resolve`). All that is left is resolved, and a store of
which that holds is not changed by resolving it (`Coherent.resolve_of_resolved`). The main statement
is `resolve_exact`.
-/

namespace ArchFacts.Store

section
variable {s : Store}

/-! ## Counts -/

/-- Each relation is counted once, as resolved or as dropped. -/
theorem resolved_add_unresolved (s : Store) :
    s.resolve.1.resolved + s.resolve.1.unresolved = s.edgeCount := by
  have hresolved : s.resolve.1.resolved =
      s.edges.toList.countP fun x => (s.settle x.2).isSome := by
    simp [resolve, ← Std.ExtTreeMap.length_toList, Std.ExtTreeMap.toList_filterMap,
      List.length_filterMap_eq_countP]
  have hunresolved : s.resolve.1.unresolved =
      s.edges.toList.countP fun x => ¬ (s.settle x.2).isSome = true := by
    rw [resolve, List.length_map, ← List.countP_eq_length_filter]
    exact List.countP_congr fun x _ => by simp
  rw [hresolved, hunresolved, ← List.length_eq_countP_add_countP, Std.ExtTreeMap.length_toList,
    edgeCount]

/-- The relations that are counted as dropped are those that are not there afterwards. -/
theorem Coherent.unresolved_resolve (hc : s.Coherent) :
    s.resolve.1.unresolved = s.edgeList.countP fun e => s.resolve.2.edge? e.toEdgeKey = none := by
  have hdropped : s.resolve.1.unresolved =
      s.edges.toList.countP fun x => (s.settle x.2).isNone := by
    rw [Store.resolve, List.length_map, List.countP_eq_length_filter]
  rw [hdropped, edgeList, List.countP_map]
  refine List.countP_congr fun x hx => ?_
  have hget : s.edges[x.1]? = some x.2 := Std.ExtTreeMap.mem_toList_iff_getElem?_eq_some.1 hx
  have hkey : x.2.toEdgeKey = x.1 := hc.edge_key hget
  simp [edge?, Store.getElem?_resolve, hkey, hget]

/-! ## Resolving again -/

/-- Resolving changes nothing in a store in which every relation is resolved. -/
theorem Coherent.resolve_of_resolved (hc : s.Coherent)
    (h : ∀ {key : EdgeKey} {e}, s.edges[key]? = some e → e.resolved = true) :
    s.resolve = ({ resolved := s.edgeCount, unresolved := 0 }, s) := by
  have hstore : s.resolve.2 = s := by
    refine hc.resolve.ext hc resolve_nodes (Std.ExtTreeMap.ext_getElem? fun key => ?_)
    rw [Store.getElem?_resolve]
    cases he : s.edges[key]? with
    | none => rfl
    | some e => rw [Option.bind_some, settle, if_pos (h he)]
  have hresolved : s.resolve.1.resolved = s.edgeCount := congrArg edgeCount hstore
  have hunresolved : s.resolve.1.unresolved = 0 := by
    have hall := resolved_add_unresolved s
    omega
  refine Prod.ext ?_ hstore
  rw [← hresolved, ← hunresolved]

/-- **A resolution settles every relation and does nothing else.** It leaves the entities of a
coherent store as they are. The relations that it leaves are those that were resolved before or have
both ends, with their keys and attributes, and all of them are resolved. The report counts the
relations that are dropped and those that are left, which together are all that there were. The
indices stay in step. A second resolution changes nothing, and its report says that as many
relations are left and none is dropped. -/
theorem resolve_exact (hc : s.Coherent) :
    let report := s.resolve.1
    let s' := s.resolve.2
    s'.nodes = s.nodes ∧ s'.names = s.names ∧
    (∀ key e', s'.edge? key = some e' ↔ ∃ e, s.edge? key = some e ∧
      (e.resolved = true ∨ s.hasEnds key = true) ∧ e' = { e with resolved := true }) ∧
    report.unresolved = s.edgeList.countP (fun e => s'.edge? e.toEdgeKey = none) ∧
    report.resolved = s'.edgeCount ∧
    report.resolved + report.unresolved = s.edgeCount ∧
    s'.Coherent ∧
    s'.resolve = ({ resolved := report.resolved, unresolved := 0 }, s') := by
  intro report s'
  have hleft : ∀ {key : EdgeKey} {e'}, s'.edges[key]? = some e' ↔ ∃ e, s.edges[key]? = some e ∧
      (e.resolved = true ∨ s.hasEnds key = true) ∧ e' = { e with resolved := true } := by
    intro key e'
    simp only [s', hc.getElem?_resolve, Option.bind_eq_some_iff, Option.ite_none_right_eq_some,
      Option.some.injEq, eq_comm (a := e')]
  have hresolved : ∀ {key : EdgeKey} {e'}, s'.edges[key]? = some e' → e'.resolved = true := by
    intro key e' he'
    obtain ⟨e, -, -, rfl⟩ := hleft.1 he'
    rfl
  exact ⟨resolve_nodes, rfl, fun _ _ => hleft, hc.unresolved_resolve, rfl,
    resolved_add_unresolved s, hc.resolve, hc.resolve.resolve_of_resolved hresolved⟩

/-- A call that has both ends when it is requested, one that gets its second end later, a reference
to nothing, and a resolved reference whose second end has been taken out. -/
def halfLinked : List Change :=
  [.createNode "f" "f" .function, .createNode "g" "g" .function, .createNode "o" "o" .object,
    .createEdge ⟨"f", "g", .calls⟩, .createEdge ⟨"g", "h", .calls⟩,
    .addEdgeAttribute ⟨"g", "h", .calls⟩ "line" "7", .createNode "h" "h" .function,
    .createEdge ⟨"f", "x", .references⟩, .createEdge ⟨"f", "o", .references⟩, .removeNodeOnly "o"]

theorem resolve_exact_halfLinked : (after halfLinked).Coherent ∧
    (after halfLinked).resolve.1 = { resolved := 3, unresolved := 1 } ∧
    (after halfLinked).resolve.2.resolve =
      ({ resolved := 3, unresolved := 0 }, (after halfLinked).resolve.2) := by
  have hc : (after halfLinked).Coherent := coherent_after halfLinked
  have hreport : (after halfLinked).resolve.1 = { resolved := 3, unresolved := 1 } := by
    decide +kernel
  obtain ⟨-, -, -, -, -, -, -, hagain⟩ := resolve_exact hc
  rw [hreport] at hagain
  exact ⟨hc, hreport, hagain⟩

end

end ArchFacts.Store
