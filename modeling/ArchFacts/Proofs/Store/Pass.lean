import ArchFacts.Document.Load
import ArchFacts.Hierarchy
import ArchFacts.Proofs.Except
import ArchFacts.Proofs.Store.Step
import ArchFacts.Record.Basic

/-!
# Passes that fill a store are sequences of elementary steps

Requests of extractors, hierarchies of source files, documents and texts all change a store through
its operations, one after the other.
-/

namespace ArchFacts

namespace Hierarchy

/-- The store with the directories of a hierarchy, if the settings ask for them. -/
def addDirectories (h : Hierarchy) (config : Config) (s : Store) : Store :=
  if config.includeSubsystems then h.directories.toList.foldl addDirectory s else s

/-- The store with the files of a hierarchy, if the settings ask for them. -/
def addFiles (h : Hierarchy) (config : Config) (s : Store) : Store :=
  if config.includeFiles then h.files.toList.foldl (addFile config) s else s

/-- Installing a hierarchy adds its directories and then its files. -/
theorem install_snd (h : Hierarchy) (config : Config) (s : Store) :
    (h.install config s).2 = h.addFiles config (h.addDirectories config s) := rfl

end Hierarchy

namespace Store

variable {P : Attributes → Prop} {s s' : Store}

/-! ## Requests -/

/-- The store after a request that may have been refused. -/
theorem Steps.granted {r : Except FactError Store} (h : ∀ s', r = .ok s' → Steps P s s') :
    Steps P s (s.granted r).2 := by
  cases r with
  | ok s' => exact h s' rfl
  | error _ => exact .refl

/-- Creating an entity is at most one change. -/
theorem Steps.createNode (hP : Attributes.Rule P) {id name : String} {kind : NodeKind} :
    Steps P s (s.createNode id name kind).2 :=
  Steps.granted fun _ h => (Step.addNode hP.empty h).steps

/-- Creating a relation is at most one change. -/
theorem Steps.createEdge (hP : Attributes.Rule P) {key : EdgeKey} :
    Steps P s (s.createEdge key).2 :=
  Steps.granted fun _ h => (Step.addEdge hP.empty h).steps

/-- Setting an attribute is a change of the attributes of one entity or one relation, or none. -/
theorem Steps.setAttribute (hP : Attributes.Rule P) (hc : s.Coherent) {target : RecordTarget}
    {key value : String} : Steps P s (s.setAttribute target key value).2 := by
  cases target with
  | node id => exact Steps.granted fun _ h => Steps.addNodeAttribute hP hc h
  | edge edge => exact Steps.granted fun _ h => (Step.addEdgeAttribute hP h).steps

/-- Sending a record to a store is a sequence of elementary changes. -/
theorem Steps.send (hP : Attributes.Rule P) (hc : s.Coherent) (r : Record) :
    Steps P s (r.send sink s).2 := by
  cases r with
  | node => exact Steps.createNode hP
  | edge => exact Steps.createEdge hP
  | attr => exact Steps.setAttribute hP hc

/-- Replaying records. -/
theorem Steps.replay (hP : Attributes.Rule P) (hc : s.Coherent) {records : List Record}
    {report : ReplayReport} (h : Record.replay sink s records = .ok (report, s')) :
    Steps P s s' := by
  obtain ⟨_, _, h⟩ := bind_eq_ok_iff.1 h
  have hs : s' = (Record.sendAll sink s records).2 := by
    injection h with h
    rw [h]
  rw [hs]
  exact steps_foldl Prod.snd (x := (({} : ReplayReport), s)) hc fun _ hx r _ => Steps.send hP hx r

/-! ## Hierarchies -/

theorem Steps.addContainer (hP : Attributes.Rule P) {kind : NodeKind} {path : String} :
    Steps P s (Hierarchy.addContainer kind s path) := by
  unfold Hierarchy.addContainer
  split
  · next h => exact (Step.addNode hP.empty h).steps
  · exact .refl

theorem Steps.linkToParent (hP : Attributes.Rule P) {path : String} :
    Steps P s (Hierarchy.linkToParent s path) := by
  unfold Hierarchy.linkToParent
  split
  · exact .refl
  · split
    · next h => exact (Step.addEdge hP.empty h).steps
    · exact .refl

/-- Installing a hierarchy. -/
theorem Steps.install (hP : Attributes.Rule P) (hc : s.Coherent) (h : Hierarchy)
    (config : Config) : Steps P s (h.install config s).2 := by
  rw [Hierarchy.install_snd]
  have hdirs : Steps P s (h.addDirectories config s) := by
    unfold Hierarchy.addDirectories
    split
    · exact steps_foldl id hc fun _ _ _ _ => (Steps.addContainer hP).trans (Steps.linkToParent hP)
    · exact .refl
  refine hdirs.trans ?_
  unfold Hierarchy.addFiles
  split
  · refine steps_foldl id (hdirs.coherent hc) ?_
    intro s _ file _
    unfold Hierarchy.addFile
    dsimp only
    split
    · exact (Steps.addContainer hP).trans (Steps.linkToParent hP)
    · exact Steps.addContainer hP
  · exact .refl

/-! ## Documents -/

/-- Adding those of some entities that the store accepts. -/
theorem Steps.addNodes (hc : s.Coherent) {nodes : List Node} (hn : ∀ n ∈ nodes, P n.attributes) :
    Steps P s (s.addNodes nodes).2 :=
  foldl_attempt hc fun n hmem => Step.addNode (hn n hmem)

/-- Adding the attributes of a block to its target. -/
theorem Steps.applyBlock (hP : Attributes.Rule P) (hc : s.Coherent) (b : Block) :
    Steps P s (s.applyBlock b).2 := by
  unfold Store.applyBlock
  split
  · split
    · next h => exact Steps.mergeNodeAttributes hP (by simp [Attributes.erase]) h
    · exact .refl
  · split
    · exact .refl
    · refine steps_foldl id hc ?_
      intro s _ e _
      cases h : s.mergeEdgeAttributes e.toEdgeKey b.attributes with
      | none => simpa [h] using Relation.ReflTransGen.refl
      | some s' => simpa [h] using (Step.mergeEdgeAttributes hP h).steps

/-- Applying attribute blocks is a sequence of elementary changes. -/
theorem Steps.applyBlocks (hP : Attributes.Rule P) (hc : s.Coherent) (blocks : List Block) :
    Steps P s (s.applyBlocks blocks).2 :=
  steps_foldl Prod.snd (x := (0, s)) hc fun _ hx b _ => Steps.applyBlock hP hx b

/-- The entities and relations that a document declares have no attributes yet, and the relations
are open. -/
theorem attributes_of_factsOf {config : Config} {relations : List Relation} {nodes : List Node}
    {edges : List Edge} (h : Document.factsOf config relations = .ok (nodes, edges)) :
    (∀ n ∈ nodes, n.attributes = ∅) ∧ ∀ e ∈ edges, e.attributes = ∅ ∧ e.resolved = false := by
  induction relations generalizing nodes edges with
  | nil => cases h; simp
  | cons r rs ih =>
    unfold Document.factsOf at h
    split at h
    · obtain ⟨ns', hns, h⟩ := bind_eq_ok_iff.1 h
      obtain ⟨⟨ns, es⟩, hrs, h⟩ := bind_eq_ok_iff.1 h
      cases h
      refine ⟨?_, (ih hrs).2⟩
      intro n hn
      rcases List.mem_append.1 hn with hn | hn
      · obtain ⟨pair, _, hp⟩ := exists_of_mem_mapM hns hn
        split at hp <;> cases hp
        rfl
      · exact (ih hrs).1 n hn
    · obtain ⟨es', hes, h⟩ := bind_eq_ok_iff.1 h
      obtain ⟨⟨ns, es⟩, hrs, h⟩ := bind_eq_ok_iff.1 h
      cases h
      refine ⟨(ih hrs).1, ?_⟩
      intro e he
      rcases List.mem_append.1 he with he | he
      · unfold Relation.edges at hes
        split at hes <;> cases hes
        obtain ⟨pair, _, rfl⟩ := List.mem_map.1 he
        exact ⟨rfl, rfl⟩
      · exact (ih hrs).2 e he

/-- Putting what a document says into a store. -/
theorem Steps.apply (hP : Attributes.Rule P) (hc : s.Coherent) {d : Document} {config : Config}
    {report : LoadReport} (h : d.apply config s = .ok (report, s')) : Steps P s s' := by
  unfold Document.apply at h
  obtain ⟨⟨nodes, edges⟩, hfacts, h⟩ := bind_eq_ok_iff.1 h
  cases h
  have ⟨hn, he⟩ := attributes_of_factsOf hfacts
  have h₁ : Steps P s (s.addNodes (nodes.map d.withLabel)).2 := by
    refine Steps.addNodes hc ?_
    intro n hmem
    obtain ⟨m, hm, rfl⟩ := List.mem_map.1 hmem
    rw [show (d.withLabel m).attributes = ∅ from hn m hm]
    exact hP.empty
  have h₂ := h₁.trans (Steps.addEdges (h₁.coherent hc) fun e hmem => (he e hmem).1 ▸ hP.empty)
  exact h₂.trans (Steps.applyBlocks hP (Steps.coherent h₂ hc) d.blocks)

/-- Reading a text into a store. -/
theorem Steps.load (hP : Attributes.Rule P) (hc : s.Coherent) {config : Config} {text : String}
    {report : LoadReport} (h : s.load config text = .ok (report, s')) : Steps P s s' := by
  unfold Store.load at h
  obtain ⟨d, _, h⟩ := bind_eq_ok_iff.1 h
  obtain ⟨⟨r, s₁⟩, ha, h⟩ := bind_eq_ok_iff.1 h
  cases h
  exact (Steps.apply hP hc ha).tail .resolve

end Store

end ArchFacts
