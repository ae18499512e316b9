import ArchFacts.Proofs.Document.Fill
import ArchFacts.Proofs.History

/-!
# Loading a text twice

A text that is loaded into the store that it left changes nothing (`load_again`), although the
second load offers relations again that the first has put out or dropped. All declared entities are
there by then (`populate_fill`), and a relation that is no parent either stayed or still wants an
end (`repeats_of_ne`). Parents of an entity put each other out. If the first load offered one that
was new, the last parent offered was the only one left to settle, and is again. Otherwise the entity
had all of them before, that is one and the same, which stayed, or was dropped and is dropped again
(`repeats_parent`).
-/

namespace ArchFacts

namespace Document

/-- Whether the second load of a document leaves under a key what the first has left. -/
def Repeats (config : Config) (s : Store) (d : Document) (key : EdgeKey) : Prop :=
  (d.fill config (d.fill config s)).edges[key]? = (d.fill config s).edges[key]?

section
variable {config : Config} {d : Document} {s : Store} {key : EdgeKey} {e : Edge}

/-- The second time all declared entities are refused. -/
theorem addNodes_fill : (d.fill config s).addNodes (d.declared config) =
    ({ refused := (d.declared config).length }, d.fill config s) :=
  Store.addNodes_of_hasNode fun n hn =>
    hasNode_fill.trans (Store.hasNode_addNodes.2 (.inr ⟨n, hn, rfl⟩))

/-- All entities that a document declares are in the store that it has filled. -/
theorem populate_fill : d.populate config (d.fill config s) = d.fill config s :=
  congrArg Prod.snd addNodes_fill

theorem link_fill : d.link config (d.fill config s) =
    (d.stated config).foldl Store.offer (d.fill config s) := by
  rw [link, populate_fill]

theorem hasEnds_populate_fill :
    (d.populate config (d.fill config s)).hasEnds key = (d.populate config s).hasEnds key := by
  rw [populate_fill, hasEnds_fill]

/-! ## What the second load does under one key -/

/-- What the first load has left stays if the second puts nothing else in its place. -/
theorem repeats_of_link (hc : s.Coherent)
    (h : (d.link config (d.fill config s)).edges[key]? = (d.fill config s).edges[key]?) :
    d.Repeats config s key := by
  rw [Repeats, getElem?_fill_edges (coherent_fill hc), h]
  cases he : (d.fill config s).edges[key]? with
  | none => rfl
  | some e =>
    rw [getElem?_fill_edges hc] at he
    obtain ⟨e', -, he⟩ := Option.bind_eq_some_iff.1 he
    split at he
    · cases he
      rw [Option.bind_some, if_pos (.inl rfl)]
      simp only [Block.foldl_onEdge_twice]
    · cases he

/-- Both loads leave the same if both have the same to settle. -/
theorem repeats_of_links (hc : s.Coherent)
    (h : (d.link config (d.fill config s)).edges[key]? = (d.link config s).edges[key]?) :
    d.Repeats config s key := by
  rw [Repeats, getElem?_fill_edges (coherent_fill hc), h, hasEnds_populate_fill,
    ← getElem?_fill_edges hc]

/-- A relation that the first load dropped is dropped again. -/
theorem repeats_of_dropped (hc : s.Coherent) (hlink : key ∈ (d.link config s).edges)
    (hdropped : (d.fill config s).edges[key]? = none) : d.Repeats config s key := by
  have hends : ¬ (d.populate config s).hasEnds key = true := by
    intro hends
    obtain ⟨e, he⟩ := Store.mem_edges_iff.1 hlink
    rw [getElem?_fill_edges hc, he, Option.bind_some, if_pos (.inr hends)] at hdropped
    cases hdropped
  rw [Repeats, hdropped, getElem?_fill_edges (coherent_fill hc), hasEnds_populate_fill]
  refine Option.bind_eq_none_iff.2 fun e he => ?_
  rcases getElem?_link_cases (coherent_fill hc) he with he | ⟨hr, -⟩
  · rw [hdropped] at he
    cases he
  · rw [if_neg]
    simp [hr, hends]

/-! ## Relations that are no parents -/

/-- A relation that is no parent stays, or wants an end both times. -/
theorem repeats_of_ne (hc : s.Coherent) (hkind : key.kind ≠ .contains) :
    d.Repeats config s key := by
  by_cases hagain : (∃ e ∈ d.stated config, e.toEdgeKey = key) ∧ key ∉ (d.fill config s).edges
  · have hlink : key ∈ (d.link config s).edges :=
      (Store.mem_edges_foldl_offer_iff (coherent_populate hc) hkind).2 (.inr hagain.1)
    exact repeats_of_dropped hc hlink (Std.ExtTreeMap.getElem?_eq_none hagain.2)
  · have hagree : Store.AgreeOn (· = key) (d.link config (d.fill config s)) (d.fill config s) := by
      rw [link_fill]
      refine Store.agreeOn_foldl_offer (coherent_fill hc) ?_ ?_
      · rintro e he rfl
        exact .inr (Classical.not_not.1 fun hnew => hagain ⟨⟨e, he, rfl⟩, hnew⟩)
      · rintro e - key rfl hr
        exact absurd hr.2.1 hkind
    exact repeats_of_link hc (hagree key rfl)

/-! ## Parents -/

/-- If the store had all parents of an entity that are offered, and one of them is not left, then
this was its only parent, and was dropped. -/
theorem repeats_of_known (hc : s.Coherent) (hs : s.SingleParents) {parent child last : String}
    (hknown : ∀ e ∈ d.stated config, (e.parent? child).isSome → e.toEdgeKey ∈ s.edges)
    (he : e ∈ d.stated config) (hp : (e.parent? child).isSome)
    (hdropped : e.toEdgeKey ∉ (d.fill config s).edges)
    (hlast : ∃ e ∈ d.stated config, e.parent? child = some last)
    (honly : (d.link config (d.fill config s)).OnlyParent last child) :
    d.Repeats config s ⟨parent, child, .contains⟩ := by
  have hlink : ∀ p, (d.link config s).edges[EdgeKey.mk p child .contains]? =
      s.edges[EdgeKey.mk p child .contains]? := by
    intro p
    rw [← edges_populate config s d] at hknown ⊢
    have hagree := Store.agreeOn_parents (coherent_populate hc) hknown
    exact hagree ⟨p, child, .contains⟩ ⟨rfl, rfl⟩
  obtain ⟨q, hq⟩ := Option.isSome_iff_exists.1 hp
  have hkey : e.toEdgeKey = ⟨q, child, .contains⟩ := (Edge.parent?_eq_some.1 hq).1
  have hmem : (⟨q, child, .contains⟩ : EdgeKey) ∈ s.edges := hkey ▸ hknown e he hp
  have hunique : ∀ p, (⟨p, child, .contains⟩ : EdgeKey) ∈ s.edges → p = q :=
    fun p hp => congrArg EdgeKey.source (hs hp hmem rfl rfl rfl)
  obtain rfl : last = q := by
    obtain ⟨e', he', hp'⟩ := hlast
    refine hunique last ?_
    rw [← (Edge.parent?_eq_some.1 hp').1]
    exact hknown e' he' (by rw [hp']; rfl)
  by_cases hparent : parent = last
  · subst hparent
    refine repeats_of_dropped hc ?_ (Std.ExtTreeMap.getElem?_eq_none (hkey ▸ hdropped))
    obtain ⟨e', he'⟩ := Store.mem_edges_iff.1 hmem
    exact Store.mem_edges_iff.2 ⟨e', (hlink parent).trans he'⟩
  · refine repeats_of_links hc ?_
    rw [honly, if_neg hparent, hlink]
    exact (Std.ExtTreeMap.getElem?_eq_none fun hmem => hparent (hunique parent hmem)).symm

/-- The parent of an entity stays the same, or is dropped both times. -/
theorem repeats_parent (hc : s.Coherent) (hs : s.SingleParents) {parent child : String} :
    d.Repeats config s ⟨parent, child, .contains⟩ := by
  by_cases hnew : ∃ e ∈ d.stated config,
      (e.parent? child).isSome ∧ e.toEdgeKey ∉ (d.fill config s).edges
  · obtain ⟨e, he, hp, hmissing⟩ := hnew
    obtain ⟨last, hlast⟩ := Edge.exists_last_parent he hp
    have honly : (d.link config (d.fill config s)).OnlyParent last child := by
      rw [link_fill]
      exact Store.onlyParent_foldl_offer (coherent_fill hc) (fun _ => bare_of_mem) hlast
        ⟨e, he, hp, hmissing⟩
    by_cases hfirst : ∃ e ∈ d.stated config,
        (e.parent? child).isSome ∧ e.toEdgeKey ∉ (d.populate config s).edges
    · -- Both loads offer a new parent, so only the last one is left to settle.
      have honly' : (d.link config s).OnlyParent last child :=
        Store.onlyParent_foldl_offer (coherent_populate hc) (fun _ => bare_of_mem) hlast hfirst
      exact repeats_of_links hc ((honly parent).trans (honly' parent).symm)
    · have hknown : ∀ e ∈ d.stated config, (e.parent? child).isSome → e.toEdgeKey ∈ s.edges :=
        fun e he hp =>
          edges_populate config s d ▸ Classical.not_not.1 fun hfree => hfirst ⟨e, he, hp, hfree⟩
      exact repeats_of_known hc hs hknown he hp hmissing
        (List.mem_filterMap.1 (List.mem_of_getLast? hlast)) honly
  · refine repeats_of_link hc ?_
    have hthere : ∀ e ∈ d.stated config, (e.parent? child).isSome →
        e.toEdgeKey ∈ (d.fill config s).edges := fun e he hp =>
      Classical.not_not.1 fun hmissing => hnew ⟨e, he, hp, hmissing⟩
    rw [link_fill]
    exact Store.agreeOn_parents (coherent_fill hc) hthere _ ⟨rfl, rfl⟩

/-- To fill a store in which no entity has two parents once more changes nothing. -/
theorem fill_fill (hc : s.Coherent) (hs : s.SingleParents) :
    d.fill config (d.fill config s) = d.fill config s := by
  refine (coherent_fill (coherent_fill hc)).ext (coherent_fill hc)
    (Std.ExtTreeMap.ext_getElem? fun id => ?_) (Std.ExtTreeMap.ext_getElem? fun key => ?_)
  · rw [getElem?_fill_nodes, populate_fill, getElem?_fill_nodes, Option.map_map]
    simp only [Function.comp_def, Block.foldl_onNode_twice]
  · obtain ⟨source, dest, kind⟩ := key
    by_cases hkind : kind = .contains
    · subst hkind
      exact repeats_parent hc hs
    · exact repeats_of_ne hc hkind

end

end Document

namespace Store

/-- **Loading a text twice is loading it once.** If a text is loaded into the store after a history
that brings in no other store, it is loaded once more without fail. The second load adds no entity
and leaves everything as it is: entities, relations, attributes in their order, and indices. -/
theorem load_again {history : List Change} (h : ∀ c ∈ history, c.Follows fun _ => True)
    {config : Config} {text : String} {report : LoadReport} {s : Store}
    (hload : (after history).load config text = .ok (report, s)) :
    ∃ report', s.load config text = .ok (report', s) ∧ report'.nodesAdded = 0 := by
  obtain ⟨d, hparse, rfl⟩ := Document.exists_parse_of_load hload
  obtain ⟨report', hagain, hadded⟩ :=
    Document.load_eq_ok hparse (d.fill config (after history))
  rw [Document.fill_fill (coherent_after history) (singleParents_after h)] at hagain
  refine ⟨report', hagain, ?_⟩
  rw [hadded, Document.addNodes_fill]

/-- A text that declares one id as a file and as a function, names three parents of it, of which
only the second is declared, gives it a value in two blocks, and states a call to nothing. -/
def crowdedText : String :=
  String.join <| [
    "FACT TUPLE :", "$INSTANCE f cFile", "$INSTANCE f cFunction", "$INSTANCE b cFile",
    "contain a f", "contain b f", "contain ghost f", "call f ghost", "call f b", "FACT ATTRIBUTE :",
    "f \x7b line = 2 \x7d", "(f b) \x7b line = ( 9 1 ) \x7d",
    "f \x7b line = ( 1 2 ) label = F \x7d", "(a f) \x7b line = 5 \x7d"].map (· ++ "\n")

/-- The first of these parents has a relation to the file with a value, before either is there. -/
def crowding : List Change :=
  [.addEdge { source := "a", dest := "f", kind := .contains },
    .addEdgeAttribute ⟨"a", "f", .contains⟩ "line" "3", .createNode "h" "h" .function]

theorem load_again_crowded : (∀ c ∈ crowding, c.Follows fun _ => True) ∧
    ∃ report s report', (after crowding).load {} crowdedText = .ok (report, s) ∧
      s.load {} crowdedText = .ok (report', s) ∧ report'.nodesAdded = 0 := by
  have hfollows : ∀ c ∈ crowding, c.Follows fun _ => True := by simp [crowding, Change.Follows]
  have hok : (Document.parse {} crowdedText).isOk = true := by
    rw [Document.parse, crowdedText, String.toList_join]
    decide +kernel
  obtain ⟨d, hparse⟩ := exists_of_isOk hok
  obtain ⟨report, hload, -⟩ := Document.load_eq_ok hparse (after crowding)
  obtain ⟨report', hagain, hnone⟩ := load_again hfollows hload
  exact ⟨hfollows, report, _, report', hload, hagain, hnone⟩

end Store

end ArchFacts
