import ArchFacts.Proofs.Store.Grounded
import ArchFacts.Proofs.Store.Offer

/-!
# What installing a hierarchy leaves

To install a hierarchy is to place its containers one after the other (`install_eq_foldl`): an
entity is added for each, and each is linked to the directory that holds it if directories are
containers. A container that has been placed stays so (`Placed.place`), so afterwards all are
(`placed_install`), and to install the hierarchy once more changes nothing (`install_of_placed`).
Each file of the hierarchy then has a container in the store if the settings give it one
(`find?_install`, `hasNode_install`).

Installing keeps the entities that are there, brings in no attributes, and changes parents only
(`keeps_install`). So the store still names the same files (`ofStore_of_keeps`).
-/

namespace ArchFacts.Hierarchy

open Std (ExtTreeMap ExtTreeSet)

/-- Adds a container, linked to its directory if directories are containers. -/
def place (config : Config) (s : Store) (container : NodeKind × String) : Store :=
  let s := addContainer container.1 s container.2
  if config.includeSubsystems then linkToParent s container.2 else s

/-- The containers that the settings ask for, in the order in which they are added. -/
def containers (h : Hierarchy) (config : Config) : List (NodeKind × String) :=
  (if config.includeSubsystems then h.directories.toList.map (.subsystem, ·) else []) ++
    if config.includeFiles then h.files.toList.map (.file, ·) else []

/-- Whether a store has an entity for a container, with a link from its directory if directories are
containers. -/
structure Placed (config : Config) (s : Store) (path : String) : Prop where
  hasNode : s.hasNode path = true
  linked : config.includeSubsystems = true → ∀ dir, Path.parent? path = some dir →
    ⟨dir, path, .contains⟩ ∈ s.edges

/-- Whether a store has the entities of another, with no other attributes, and the same relations
except for parents. -/
structure Keeps (s s' : Store) : Prop where
  node : ∀ {id : String} {n}, s.nodes[id]? = some n → s'.nodes[id]? = some n
  node_cases : ∀ {id : String} {n}, s'.nodes[id]? = some n →
    s.nodes[id]? = some n ∨ n.attributes = ∅
  edge : s'.AgreeOn (·.kind ≠ .contains) s

section
variable {config : Config} {h : Hierarchy} {s s' s'' : Store} {path dir p : String}
variable {kind : NodeKind} {container : NodeKind × String} {list : List (NodeKind × String)}

/-! ## Placing a container -/

/-- A container is added unless its id is taken. -/
theorem addContainer_eq : addContainer kind s path =
    if s.hasNode path = true then s
    else s.register { id := path, name := Path.name path, kind } := by
  unfold addContainer Store.addNode
  by_cases h : s.hasNode path = true
  · rw [if_pos h, if_pos h]
  · rw [if_neg h, if_neg h]

theorem addContainer_edges : (addContainer kind s path).edges = s.edges := by
  rw [addContainer_eq]
  split <;> rfl

/-- To link a container is to offer a relation from its directory. -/
theorem linkToParent_eq (hdir : Path.parent? path = some dir) : linkToParent s path =
    s.offer { source := dir, dest := path, kind := .contains, resolved := true } := by
  rw [linkToParent, hdir, Store.offer]
  dsimp only
  cases s.addEdge { source := dir, dest := path, kind := .contains, resolved := true } <;> rfl

/-- A path without a directory is not linked. -/
theorem linkToParent_of_none (hdir : Path.parent? path = none) : linkToParent s path = s := by
  rw [linkToParent, hdir]

/-- No directory holds itself. -/
theorem ne_of_parent? (hdir : Path.parent? path = some dir) : dir ≠ path := by
  rintro rfl
  exact absurd (Path.length_of_parent? hdir) (Nat.lt_irrefl _)

/-- Installing a container keeps the indices in step. -/
theorem coherent_place (hc : s.Coherent) (container : NodeKind × String) :
    (place config s container).Coherent := by
  unfold place
  split
  · exact (hc.addContainer container.1 container.2).linkToParent container.2
  · exact hc.addContainer container.1 container.2

/-- What is linked to its directory has the link afterwards. -/
theorem mem_edges_linkToParent (hc : s.Coherent) (hdir : Path.parent? path = some dir) :
    ⟨dir, path, .contains⟩ ∈ (linkToParent s path).edges := by
  rw [linkToParent_eq hdir]
  exact Store.mem_edges_offer_self hc (by simp [EdgeKey.isSelfContainment, ne_of_parent? hdir])

/-- A link between a directory and what it holds is not put out by another of these. -/
theorem mem_edges_linkToParent_of_mem (hc : s.Coherent) (hdir : Path.parent? p = some dir)
    (h : ⟨dir, p, .contains⟩ ∈ s.edges) : ⟨dir, p, .contains⟩ ∈ (linkToParent s path).edges := by
  cases hparent : Path.parent? path with
  | none => rwa [linkToParent_of_none hparent]
  | some dir' =>
    rw [linkToParent_eq hparent]
    by_cases hp : p = path
    · -- There is only one directory above a path, so this is the link that is there.
      subst hp
      obtain rfl : dir = dir' := Option.some.inj (hdir.symm.trans hparent)
      rwa [Store.offer_of_refused (.inr h)]
    · rw [Store.mem_edges_iff] at h ⊢
      rwa [Store.getElem?_offer_of_ne hc (by simp [hp]) fun hr => hp hr.2.2.symm]

/-- A container that has been placed is there, with its link. -/
theorem placed_place (hc : s.Coherent) (container : NodeKind × String) :
    Placed config (place config s container) container.2 := by
  obtain ⟨kind, path⟩ := container
  have hadd : (addContainer kind s path).hasNode path = true :=
    Store.hasNode_addContainer kind s path
  unfold place
  by_cases hsub : config.includeSubsystems = true
  · rw [if_pos hsub]
    exact ⟨(Store.hasNode_linkToParent _ path).trans hadd,
      fun _ _ hdir => mem_edges_linkToParent (hc.addContainer kind path) hdir⟩
  · rw [if_neg hsub]
    exact ⟨hadd, fun hyes => absurd hyes hsub⟩

/-- A container that is there, with its link, is still so after another has been placed. -/
theorem Placed.place (hp : Placed config s p) (hc : s.Coherent) (container : NodeKind × String) :
    Placed config (place config s container) p := by
  obtain ⟨kind, path⟩ := container
  have hadd : (addContainer kind s path).hasNode p = true :=
    (Store.Extends.addContainer kind s path).hasNode hp.hasNode
  unfold Hierarchy.place
  by_cases hsub : config.includeSubsystems = true
  · rw [if_pos hsub]
    refine ⟨(Store.hasNode_linkToParent _ path).trans hadd, fun _ dir hdir => ?_⟩
    refine mem_edges_linkToParent_of_mem (hc.addContainer kind path) hdir ?_
    rw [addContainer_edges]
    exact hp.linked hsub dir hdir
  · rw [if_neg hsub]
    exact ⟨hadd, fun hyes => absurd hyes hsub⟩

/-- A container that is there, with its link, is not placed again. -/
theorem place_of_placed (hp : Placed config s container.2) : place config s container = s := by
  have hadd : addContainer container.1 s container.2 = s := by
    rw [addContainer_eq, if_pos hp.hasNode]
  rw [place, hadd]
  split
  · next hsub =>
    cases hdir : Path.parent? container.2 with
    | none => exact linkToParent_of_none hdir
    | some dir =>
      rw [linkToParent_eq hdir]
      exact Store.offer_of_refused (.inr (hp.linked hsub dir hdir))
  · rfl

/-! ## Placing all containers -/

/-- Containers are installed one after another, directories before files. -/
theorem install_eq_foldl (h : Hierarchy) (config : Config) (s : Store) :
    (h.install config s).2 = (h.containers config).foldl (place config) s := by
  rw [install_snd, containers, List.foldl_append]
  have hdirs : h.addDirectories config s =
      (if config.includeSubsystems then h.directories.toList.map (.subsystem, ·) else []).foldl
        (place config) s := by
    unfold addDirectories
    split
    · next hsub =>
      have hplace : ∀ s path, addDirectory s path = place config s (.subsystem, path) := by
        intro s path
        rw [place, if_pos hsub, addDirectory]
      simp only [List.foldl_map, ← hplace]
    · rfl
  rw [hdirs]
  unfold addFiles
  split
  · rw [List.foldl_map]
    rfl
  · rfl

/-- A container that is installed stays so while others are, and those in the list are installed. -/
theorem placed_foldl (hc : s.Coherent) (hp : Placed config s p ∨ p ∈ list.map (·.2)) :
    Placed config (list.foldl (place config) s) p := by
  induction list generalizing s with
  | nil => exact hp.resolve_right List.not_mem_nil
  | cons container list ih =>
    refine ih (coherent_place hc container) ?_
    rw [List.map_cons, List.mem_cons, ← or_assoc] at hp
    refine hp.imp_left fun hp => ?_
    rcases hp with hp | rfl
    · exact hp.place hc container
    · exact placed_place hc container

/-- Installing a hierarchy keeps the indices in step. -/
theorem coherent_install (hc : s.Coherent) (h : Hierarchy) (config : Config) :
    (h.install config s).2.Coherent :=
  Store.Steps.coherent (Store.Steps.install Attributes.rule_true hc h config) hc

/-- After a hierarchy has been installed all its containers are there, with their links. -/
theorem placed_install (hc : s.Coherent) (hm : container ∈ h.containers config) :
    Placed config (h.install config s).2 container.2 := by
  rw [install_eq_foldl]
  exact placed_foldl hc (.inr (List.mem_map_of_mem hm))

/-- A hierarchy whose containers are all there, with their links, is not installed again. -/
theorem install_of_placed (hp : ∀ container ∈ h.containers config, Placed config s container.2) :
    (h.install config s).2 = s := by
  rw [install_eq_foldl]
  refine List.foldlRecOn (motive := (· = s)) (h.containers config) (place config) rfl ?_
  rintro _ rfl container hm
  exact place_of_placed (hp container hm)

/-! ## Looking up containers -/

/-- What the index of containers holds after some files. -/
theorem getElem?_entries {files : List String} :
    (files.foldl (fun m file =>
      match containerOf? config file with
      | some container => m.insert file container
      | none => m) (∅ : ExtTreeMap String String))[p]? =
      if p ∈ files then containerOf? config p else none := by
  -- From the end: a file that comes twice is entered twice, each time with the same container.
  induction files using List.reverseRecOn with
  | nil => simp
  | append_singleton files file ih =>
    rw [List.foldl_append, List.foldl_cons, List.foldl_nil]
    by_cases hp : p = file
    · subst hp
      rw [if_pos (List.mem_append_right _ (List.mem_singleton.2 rfl))]
      cases hcontainer : containerOf? config p with
      | some container => exact ExtTreeMap.getElem?_insert_self
      | none => rw [ih, hcontainer, ite_self]
    · have hmem : p ∈ files ++ [file] ↔ p ∈ files := by simp [hp]
      rw [if_congr hmem rfl rfl, ← ih]
      cases containerOf? config file with
      | some container =>
        rw [ExtTreeMap.getElem?_insert, if_neg (by simpa using Ne.symm hp)]
      | none => rfl

/-- A file of the hierarchy has the container that the settings give it, however its path is
spelled. -/
theorem find?_install (hpath : Path.normalize? path = some p) (hp : p ∈ h.files) :
    (h.install config s).1.find? path = containerOf? config p := by
  rw [Containers.find?, hpath, Option.bind_some]
  exact getElem?_entries.trans (if_pos (ExtTreeSet.mem_toList.2 hp))

theorem find?_eq_none {index : Containers} (hpath : Path.normalize? path = none) :
    index.find? path = none := by
  rw [Containers.find?, hpath, Option.bind_none]

/-- The container of a file of the hierarchy is there afterwards. -/
theorem hasNode_install (hc : s.Coherent) (hp : p ∈ h.files)
    (hcontainer : containerOf? config p = some path) :
    (h.install config s).2.hasNode path = true := by
  unfold containerOf? at hcontainer
  split at hcontainer
  · next hfiles =>
    obtain rfl : p = path := Option.some.inj hcontainer
    have hm : (NodeKind.file, p) ∈ h.containers config := by
      simp [containers, hfiles, hp]
    exact (placed_install hc hm).hasNode
  · split at hcontainer
    · next hsub =>
      have hdir : path ∈ h.directories :=
        parent_mem_directories (ExtTreeSet.mem_toList.2 hp) hcontainer
      have hm : (NodeKind.subsystem, path) ∈ h.containers config := by
        simp [containers, hsub, hdir]
      exact (placed_install hc hm).hasNode
    · cases hcontainer

/-! ## What stays -/

theorem Keeps.refl (s : Store) : Keeps s s := ⟨id, .inl, fun _ _ => rfl⟩

theorem Keeps.trans (h : Keeps s s') (h' : Keeps s' s'') : Keeps s s'' where
  node hn := h'.node (h.node hn)
  node_cases hn := (h'.node_cases hn).elim h.node_cases .inr
  edge key hkey := (h'.edge key hkey).trans (h.edge key hkey)

theorem keeps_addContainer (kind : NodeKind) (s : Store) (path : String) :
    Keeps s (addContainer kind s path) := by
  rw [addContainer_eq]
  split
  · exact .refl s
  · next hno =>
    have hfree : s.nodes[path]? = none := Store.hasNode_eq_false_iff.1 (Bool.eq_false_iff.2 hno)
    refine ⟨fun {id} n hn => ?_, fun {id} n hn => ?_, fun _ _ => rfl⟩
    · refine getElem?_insert_eq_some.2 (.inr ⟨?_, hn⟩)
      rintro rfl
      rw [hfree] at hn
      cases hn
    · rcases getElem?_insert_eq_some.1 hn with ⟨-, rfl⟩ | ⟨-, hn⟩
      · exact .inr rfl
      · exact .inl hn

/-- Linking a container to its directory changes no relation but those from a parent. -/
theorem keeps_linkToParent (hc : s.Coherent) (path : String) : Keeps s (linkToParent s path) := by
  cases hdir : Path.parent? path with
  | none =>
    rw [linkToParent_of_none hdir]
    exact .refl s
  | some dir =>
    rw [linkToParent_eq hdir]
    refine ⟨fun hn => ?_, fun hn => .inl ?_, fun key hkey => ?_⟩
    · rwa [Store.offer_nodes]
    · rwa [Store.offer_nodes] at hn
    · refine Store.getElem?_offer_of_ne hc ?_ fun hr => hkey hr.2.1
      rintro rfl
      exact hkey rfl

/-- Installing a container changes no relation but those from a parent. -/
theorem keeps_place (hc : s.Coherent) (container : NodeKind × String) :
    Keeps s (place config s container) := by
  have hadd : Keeps s (addContainer container.1 s container.2) := keeps_addContainer _ s _
  unfold place
  split
  · exact hadd.trans (keeps_linkToParent (hc.addContainer container.1 container.2) container.2)
  · exact hadd

/-- Installing a hierarchy keeps entities and, except for parents, relations, and brings in no
attributes. -/
theorem keeps_install (hc : s.Coherent) (h : Hierarchy) (config : Config) :
    Keeps s (h.install config s).2 := by
  rw [install_eq_foldl]
  refine (List.foldlRecOn (motive := fun s' => s'.Coherent ∧ Keeps s s') (h.containers config)
    (place config) ⟨hc, .refl s⟩ ?_).2
  rintro s' ⟨hc', hkeeps⟩ container -
  exact ⟨coherent_place hc' container, hkeeps.trans (keeps_place hc' container)⟩

/-! ## The files of a store -/

/-- The paths of a hierarchy are those before and the new one in its normal form, if it has one. -/
theorem mem_files_insert : p ∈ (h.insert path).files ↔
    Path.normalize? path = some p ∨ p ∈ h.files := by
  rw [insert]
  cases hpath : Path.normalize? path with
  | some p' => simp [ExtTreeSet.mem_insert]
  | none => simp

/-- The paths of a hierarchy are the normal forms of those from which it is made. -/
theorem mem_files_ofPaths {paths : List String} :
    p ∈ (ofPaths paths).files ↔ ∃ path ∈ paths, Path.normalize? path = some p := by
  induction paths using List.reverseRecOn with
  | nil => simp [ofPaths]
  | append_singleton paths path ih =>
    rw [ofPaths, List.foldl_append, List.foldl_cons, List.foldl_nil, mem_files_insert, ← ofPaths,
      ih]
    simp only [List.mem_append, List.mem_singleton, or_and_right, exists_or, exists_eq_left]
    exact or_comm

/-- The files of a store are those that its entities name. -/
theorem mem_files_ofStore : p ∈ (ofStore config s).files ↔ ∃ (id : String) (n : Node),
    s.nodes[id]? = some n ∧
      ∃ file ∈ n.attributes.values config.fileAttribute, Path.normalize? file = some p := by
  rw [ofStore, mem_files_ofPaths]
  constructor
  · rintro ⟨file, hfile, hpath⟩
    obtain ⟨n, hn, hfile⟩ := List.mem_flatMap.1 hfile
    obtain ⟨⟨id, _⟩, hentry, rfl⟩ := List.mem_map.1 hn
    exact ⟨id, _, ExtTreeMap.mem_toList_iff_getElem?_eq_some.1 hentry, file, hfile, hpath⟩
  · rintro ⟨id, n, hn, file, hfile, hpath⟩
    have hmem : n ∈ s.nodeList :=
      List.mem_map_of_mem (ExtTreeMap.mem_toList_iff_getElem?_eq_some.2 hn)
    exact ⟨file, List.mem_flatMap.2 ⟨n, hmem, hfile⟩, hpath⟩

/-- A store with the same attributes names the same files. -/
theorem ofStore_of_keeps (h : Keeps s s') : ofStore config s' = ofStore config s := by
  have hfiles : (ofStore config s').files = (ofStore config s).files := by
    refine ExtTreeSet.ext_mem fun p => ?_
    rw [mem_files_ofStore, mem_files_ofStore]
    constructor
    · rintro ⟨id, n, hn, file, hfile, hpath⟩
      rcases h.node_cases hn with hn | hempty
      · exact ⟨id, n, hn, file, hfile, hpath⟩
      · rw [hempty, Attributes.values_empty] at hfile
        exact absurd hfile List.not_mem_nil
    · rintro ⟨id, n, hn, hrest⟩
      exact ⟨id, n, h.node hn, hrest⟩
  cases hs : ofStore config s
  cases hs' : ofStore config s'
  rw [hs, hs'] at hfiles
  exact congrArg _ hfiles

end

end ArchFacts.Hierarchy
