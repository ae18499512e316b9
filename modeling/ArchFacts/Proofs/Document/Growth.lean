import ArchFacts.Proofs.Document.Meaning

/-!
# Loads only add

A text may be loaded into a store that has entities and relations already. Declared entities come in
under free ids only (`Store.nodeCount_addNodes`), and a relation that is resolved and no parent is
neither put out nor dropped (`Document.exists_fill_edge`). What a block holds for an entity or
relation is added after the values that are there (`Block.growsTo_foldl_onNode`,
`Block.growsTo_foldl_onEdge`). So what was there before has grown at most, and the report counts
each pair of the text once (`Document.report_total`). The main statement is `Store.load_additive`.
-/

namespace ArchFacts

namespace Attributes

/-- Whether every key of some attributes is there in others, where its values come first and in the
same order. -/
def GrowsTo (a b : Attributes) : Prop :=
  ∀ (key : String) (values : List String), a.entries[key]? = some values →
    ∃ values', b.entries[key]? = some values' ∧ values <+: values'

section
variable {a b c : Attributes}

theorem GrowsTo.refl (a : Attributes) : a.GrowsTo a :=
  fun _ values h => ⟨values, h, List.prefix_refl values⟩

/-- Values that come first, come first after a second growth. -/
theorem GrowsTo.trans (h : a.GrowsTo b) (h' : b.GrowsTo c) : a.GrowsTo c := by
  intro key values hvalues
  obtain ⟨values', hvalues', hpre⟩ := h key values hvalues
  obtain ⟨values'', hvalues'', hpre'⟩ := h' key values' hvalues'
  exact ⟨values'', hvalues'', hpre.trans hpre'⟩

/-- A value is added after those that are there. -/
theorem growsTo_insert (a : Attributes) (key value : String) : a.GrowsTo (a.insert key value) := by
  by_cases hv : value ∈ a.values key
  · rw [insert_of_mem hv]
    exact .refl a
  · intro k values hvalues
    rw [entries_insert_of_not_mem hv, Std.ExtTreeMap.getElem?_insert]
    by_cases hk : key = k
    · subst hk
      rw [if_pos Std.ReflCmp.compare_self, values_of_getElem? hvalues]
      exact ⟨_, rfl, List.prefix_append _ _⟩
    · rw [if_neg (mt Std.LawfulEqCmp.eq_of_compare hk)]
      exact ⟨values, hvalues, List.prefix_refl values⟩

theorem growsTo_insertAll (a : Attributes) (key : String) (values : List String) :
    a.GrowsTo (a.insertAll key values) :=
  List.foldlRecOn values _ (.refl a) fun b h value _ => h.trans (growsTo_insert b key value)

/-- Merging appends values. -/
theorem growsTo_merge (a b : Attributes) : a.GrowsTo (a.merge b) :=
  List.foldlRecOn b.toList _ (.refl a) fun c h x _ => h.trans (growsTo_insertAll c x.1 x.2)

theorem growsTo_foldl_merge (a : Attributes) (as : List Attributes) :
    a.GrowsTo (as.foldl merge a) :=
  List.foldlRecOn as merge (.refl a) fun c h b _ => h.trans (growsTo_merge c b)

end

end Attributes

namespace Block

/-- Blocks take nothing away from an entity, nor from a relation. -/
theorem growsTo_foldl_onNode (blocks : List Block) (id : String) (a : Attributes) :
    a.GrowsTo (blocks.foldl (fun a b => b.onNode id a) a) := by
  rw [foldl_onNode_eq]
  exact Attributes.growsTo_foldl_merge a _

/-- Blocks append values to the attributes of a relation. -/
theorem growsTo_foldl_onEdge (blocks : List Block) (key : EdgeKey) (a : Attributes) :
    a.GrowsTo (blocks.foldl (fun a b => b.onEdge key a) a) := by
  rw [foldl_onEdge_eq]
  exact Attributes.growsTo_foldl_merge a _

end Block

namespace Store

section
variable {s s' : Store}

/-! ## Counts -/

/-- Each entity that is counted as added is one more. -/
theorem nodeCount_addNodes (s : Store) (ns : List Node) :
    (s.addNodes ns).2.nodeCount = s.nodeCount + (s.addNodes ns).1.added := by
  refine List.foldlRecOn (motive := fun x => x.2.nodeCount = s.nodeCount + x.1.added) ns countNode
    (show (({}, s) : Tally × Store).2.nodeCount = s.nodeCount + 0 from rfl) ?_
  intro x hx n _
  rw [countNode_eq]
  by_cases hn : x.2.hasNode n.id = true
  · rw [if_pos hn, hx]
  · have hfree : ¬ x.2.nodes.contains n.id = true := hn
    rw [if_neg hn, nodeCount, register, Std.ExtTreeMap.size_insert, if_neg hfree, ← nodeCount, hx,
      Nat.add_assoc]

/-- Stores with entities under the same ids have as many. -/
theorem nodeCount_congr (h : ∀ id, s.hasNode id = s'.hasNode id) : s.nodeCount = s'.nodeCount := by
  have hkeys : s.nodes.keys = s'.nodes.keys := by
    have hs : s.nodes.keys.Pairwise fun a b => compare a b = .lt := Std.ExtTreeMap.ordered_keys
    have hs' : s'.nodes.keys.Pairwise fun a b => compare a b = .lt := Std.ExtTreeMap.ordered_keys
    refine eq_of_pairwise_lt (f := id) hs hs' fun id => ?_
    rw [Std.ExtTreeMap.mem_keys, Std.ExtTreeMap.mem_keys, ← Std.ExtTreeMap.contains_iff_mem,
      ← Std.ExtTreeMap.contains_iff_mem]
    exact Bool.eq_iff_iff.1 (h id)
  rw [nodeCount, nodeCount, ← Std.ExtTreeMap.length_keys, hkeys, Std.ExtTreeMap.length_keys]

end

end Store

namespace Document

section
variable {config : Config} {d : Document} {s : Store} {id : String} {n : Node} {key : EdgeKey}
variable {e : Edge}

/-- An entity that was there before keeps its kind and name, and its attributes grow. -/
theorem exists_fill_node (hn : s.nodes[id]? = some n) :
    ∃ a, (d.fill config s).nodes[id]? = some { n with attributes := a } ∧
      n.attributes.GrowsTo a := by
  refine ⟨_, ?_, Block.growsTo_foldl_onNode d.blocks id n.attributes⟩
  rw [getElem?_fill_nodes, populate, Store.getElem?_addNodes, hn]
  rfl

/-- A relation that was there before, resolved and no parent, stays, and its attributes grow. -/
theorem exists_fill_edge (hc : s.Coherent) (he : s.edges[key]? = some e) (hr : e.resolved = true)
    (hkind : key.kind ≠ .contains) :
    ∃ a, (d.fill config s).edges[key]? = some { e with attributes := a } ∧
      e.attributes.GrowsTo a := by
  have hlink : (d.link config s).edges[key]? = some e :=
    Store.getElem?_foldl_offer_of_some (coherent_populate hc) hkind (edges_populate config s d ▸ he)
  refine ⟨_, ?_, Block.growsTo_foldl_onEdge d.blocks key e.attributes⟩
  rw [getElem?_fill_edges hc, hlink, Option.bind_some, if_pos (.inl hr), hr]

/-- Of the entities that a document declares, one comes in for each that is counted. -/
theorem nodeCount_fill :
    (d.fill config s).nodeCount = s.nodeCount + (d.report config s).nodesAdded :=
  (Store.nodeCount_congr fun _ => hasNode_fill).trans (Store.nodeCount_addNodes s _)

/-- A document has as many tuples as it counts. -/
theorem length_tuples : d.tuples.length = d.tupleCount := by
  rw [tuples, tupleCount, List.length_flatMap, List.length_flatMap]
  simp only [Relation.tuples, List.length_map]

/-- Each pair of another relation than the entity relation states one relation. -/
theorem length_stated (hk : ∀ t ∈ d.tuples, config.Knows t) :
    (d.stated config).length = d.tuples.countP (·.1 ≠ config.entityRelation) := by
  simpa using countP_stated hk fun _ => true

/-- Each pair of a document is counted once: those of the entity relation as an entity, added or
not, and all others as a relation, added or not. -/
theorem report_total (hk : ∀ t ∈ d.tuples, config.Knows t) :
    (d.report config s).nodesAdded + (d.report config s).duplicateNodes =
        d.tuples.countP (·.1 = config.entityRelation) ∧
      (d.report config s).edgesAdded + (d.report config s).rejectedEdges =
        d.tuples.countP (·.1 ≠ config.entityRelation) := by
  have hdeclared : (d.declared config).length = d.tuples.countP (·.1 = config.entityRelation) := by
    rw [length_declared hk, declaredIds, List.length_map, List.countP_eq_length_filter]
  rw [← hdeclared, ← length_stated hk]
  exact ⟨Store.added_add_refused_foldl_attempt s _, Store.added_add_refused_foldl_attempt _ _⟩

end

end Document

namespace Store

/-- **Loading only adds.** A text that is loaded into the store after any history leaves every
entity in it with its kind and name, and every resolved relation that is no parent. Their keys stay,
each with the values that it had, and those that are new after them. There are as many more entities
as the report says, and the report counts every pair of the text once: those that declare an entity
as added or as duplicates, the others as added or as rejected. -/
theorem load_additive {history : List Change} {config : Config} {text : String}
    {report : LoadReport} {s : Store}
    (h : (after history).load config text = .ok (report, s)) :
    let g := after history
    (∀ id n, g.node? id = some n →
      ∃ a, s.node? id = some { n with attributes := a } ∧ n.attributes.GrowsTo a) ∧
    (∀ key e, g.edge? key = some e → e.resolved = true → key.kind ≠ .contains →
      ∃ a, s.edge? key = some { e with attributes := a } ∧ e.attributes.GrowsTo a) ∧
    s.nodeCount = g.nodeCount + report.nodesAdded ∧
    ∃ d, Document.parse config text = .ok d ∧
      report.nodesAdded + report.duplicateNodes + report.edgesAdded + report.rejectedEdges =
        d.tupleCount ∧
      report.nodesAdded + report.duplicateNodes =
        d.tuples.countP (·.1 = config.entityRelation) := by
  intro g
  obtain ⟨d, hparse, -⟩ := Document.exists_parse_of_load h
  cases h.symm.trans (Document.load_eq hparse g)
  have hk : ∀ t ∈ d.tuples, config.Knows t := Document.parse_knows hparse
  obtain ⟨hnodes, hedges⟩ := Document.report_total (s := g) hk
  refine ⟨fun _ _ => Document.exists_fill_node,
    fun _ _ => Document.exists_fill_edge (coherent_after history), Document.nodeCount_fill, d,
    hparse, ?_, hnodes⟩
  have htotal : d.tupleCount = d.tuples.countP (·.1 = config.entityRelation) +
      d.tuples.countP (·.1 ≠ config.entityRelation) := by
    rw [← Document.length_tuples]
    simpa using
      List.length_eq_countP_add_countP fun t : String × Pair => t.1 = config.entityRelation
  rw [htotal, ← hnodes, ← hedges, Nat.add_assoc _ _ (LoadReport.rejectedEdges _)]

/-- A text that declares anew a function which is there, under another name and with another value,
declares an object twice, states a call that is there and one to nothing, and gives a value to all
relations between two functions. -/
def furtherText : String :=
  String.join <| [
    "FACT TUPLE :", "$INSTANCE f cClass", "$INSTANCE o cObject", "$INSTANCE o variable",
    "call f g", "call f ghost", "reference f g", "FACT ATTRIBUTE :",
    "f \x7b label = F line = ( 2 1 ) \x7d", "(f g) \x7b line = ( 9 7 8 ) \x7d"].map (· ++ "\n")

/-- Two functions, the first with a value, and two relations between them, each with one of the
values that the text gives them. -/
def inheriting : List Change :=
  [.createNode "f" "main" .function, .createNode "g" "run" .function,
    .addNodeAttribute "f" "line" "1", .createEdge ⟨"f", "g", .calls⟩,
    .addEdgeAttribute ⟨"f", "g", .calls⟩ "line" "7", .createEdge ⟨"f", "g", .inherits⟩,
    .addEdgeAttribute ⟨"f", "g", .inherits⟩ "line" "8"]

/-- The function keeps its name and its value, the call that was there keeps its own, and the report
counts the entities that are new. -/
theorem load_additive_inheriting : ∃ report s,
    (after inheriting).load {} furtherText = .ok (report, s) ∧
    (∃ a, s.node? "f" = some { id := "f", name := "main", kind := .function, attributes := a } ∧
      ((∅ : Attributes).insert "line" "1").GrowsTo a) ∧
    (∃ a, s.edge? ⟨"f", "g", .calls⟩ = some
        { source := "f", dest := "g", kind := .calls, resolved := true, attributes := a } ∧
      ((∅ : Attributes).insert "line" "7").GrowsTo a) ∧
    s.nodeCount = (after inheriting).nodeCount + report.nodesAdded := by
  have hok : (Document.parse {} furtherText).isOk = true := by
    rw [Document.parse, furtherText, String.toList_join]
    decide +kernel
  obtain ⟨d, hparse⟩ := exists_of_isOk hok
  have hload := Document.load_eq hparse (after inheriting)
  obtain ⟨hnodes, hedges, hcount, -⟩ := load_additive hload
  have hnode : (after inheriting).node? "f" = some
      { id := "f", name := "main", kind := .function
        attributes := (∅ : Attributes).insert "line" "1" } := by decide +kernel
  have hedge : (after inheriting).edge? ⟨"f", "g", .calls⟩ = some
      { source := "f", dest := "g", kind := .calls, resolved := true
        attributes := (∅ : Attributes).insert "line" "7" } := by decide +kernel
  exact ⟨_, _, hload, hnodes _ _ hnode, hedges _ _ hedge rfl (by decide), hcount⟩

end Store

end ArchFacts
