import ArchFacts.Proofs.Hierarchy.Install
import ArchFacts.Proofs.History

/-!
# The store after a hierarchy has been installed

Which containers the settings ask for is told by a relation that does not speak of how they are
added (`Hierarchy.Makes`). A pass over a list of containers adds an entity for each whose id is
free, of the kind under which it comes first (`getElem?_foldl_place_nodes`). Its links change what
stands under the keys of the parents of containers only (`getElem?_foldl_place_of_ne`): a container
whose link is there keeps its parents as they are (`getElem?_foldl_place_of_linked`), and for any
other the link is all that is left (`getElem?_foldl_place`). The main statement is `install_exact`.
-/

namespace ArchFacts.Hierarchy

open Std (ExtTreeMap ExtTreeSet)

/-- The kind of container that the settings make of a path: a directory above a source file if
directories are containers, and else a source file if files are. -/
inductive Makes (h : Hierarchy) (config : Config) (path : String) : NodeKind → Prop
  | directory : config.includeSubsystems = true → (∃ file ∈ h.files, Path.Above path file) →
      Makes h config path .subsystem
  | file : config.includeFiles = true → path ∈ h.files →
      ¬ (config.includeSubsystems = true ∧ ∃ file ∈ h.files, Path.Above path file) →
      Makes h config path .file

/-- Whether the settings link a container to a directory. -/
def Links (h : Hierarchy) (config : Config) (dir path : String) : Prop :=
  config.includeSubsystems = true ∧ (∃ kind, h.Makes config path kind) ∧ Path.Holds dir path

/-- The relation between a directory and what it holds. -/
def link (dir path : String) : Edge :=
  { source := dir, dest := path, kind := .contains, resolved := true }

section
variable {config : Config} {h : Hierarchy} {s : Store} {path dir id : String} {key : EdgeKey}
variable {kind : NodeKind} {container : NodeKind × String} {list : List (NodeKind × String)}

/-! ## Which containers there are -/

theorem find?_of_kind {asked : Bool} {paths : List String} :
    (if asked then paths.map (kind, ·) else []).find? (·.2 = path) =
      if asked = true ∧ path ∈ paths then some (kind, path) else none := by
  cases asked with
  | false => simp
  | true =>
    rw [if_pos rfl]
    induction paths with
    | nil => simp
    | cons p paths ih =>
      rw [List.map_cons, List.find?_cons, ih]
      by_cases hp : p = path
      · simp [hp]
      · simp [hp, Ne.symm hp]

/-- The containers come in an order in which each is added as what the settings make of it. -/
theorem find?_containers_eq_some_iff : (h.containers config).find? (·.2 = path) = some container ↔
    h.Makes config path container.1 ∧ container.2 = path := by
  have hfind : (h.containers config).find? (·.2 = path) =
      if config.includeSubsystems = true ∧ path ∈ h.directories then some (.subsystem, path)
      else if config.includeFiles = true ∧ path ∈ h.files then some (.file, path)
      else none := by
    rw [containers, List.find?_append, find?_of_kind, find?_of_kind]
    simp only [ExtTreeSet.mem_toList]
    split <;> rfl
  obtain ⟨kind, path'⟩ := container
  rw [hfind]
  constructor
  · intro hsome
    split at hsome
    · next hdir =>
      cases hsome
      exact ⟨.directory hdir.1 (mem_directories_iff.1 hdir.2), rfl⟩
    · next hdir =>
      split at hsome
      · next hfile =>
        cases hsome
        rw [mem_directories_iff] at hdir
        exact ⟨.file hfile.1 hfile.2 hdir, rfl⟩
      · cases hsome
  · rintro ⟨hmakes, rfl⟩
    cases hmakes with
    | directory hsub hdir => exact if_pos ⟨hsub, mem_directories_iff.2 hdir⟩
    | file hfiles hfile hdir =>
      rw [← mem_directories_iff] at hdir
      exact (if_neg hdir).trans (if_pos ⟨hfiles, hfile⟩)

/-- The containers that are installed are the paths of which the settings make one. -/
theorem mem_containers_iff :
    path ∈ (h.containers config).map (·.2) ↔ ∃ kind, h.Makes config path kind := by
  constructor
  · intro hmem
    have hsome : ((h.containers config).find? (·.2 = path)).isSome := by
      simpa [List.find?_isSome] using hmem
    obtain ⟨container, hfind⟩ := Option.isSome_iff_exists.1 hsome
    exact ⟨container.1, (find?_containers_eq_some_iff.1 hfind).1⟩
  · rintro ⟨kind, hmakes⟩
    have hfind := find?_containers_eq_some_iff.2 (show _ ∧ (kind, path).2 = path from ⟨hmakes, rfl⟩)
    exact List.mem_map_of_mem (List.mem_of_find?_eq_some hfind)

/-! ## Entities -/

theorem linkToParent_nodes : (linkToParent s path).nodes = s.nodes := by
  cases hdir : Path.parent? path with
  | none => rw [linkToParent_of_none hdir]
  | some dir => rw [linkToParent_eq hdir, Store.offer_nodes]

/-- A container is added if its id is free. -/
theorem getElem?_place_nodes : (place config s container).nodes[id]? = s.nodes[id]?.or
    (if container.2 = id then some { id, name := Path.name id, kind := container.1 }
    else none) := by
  have hlink : (place config s container).nodes =
      (addContainer container.1 s container.2).nodes := by
    unfold place
    split
    · exact linkToParent_nodes
    · rfl
  rw [hlink, addContainer_eq]
  by_cases hid : container.2 = id
  · subst hid
    split
    · next hthere =>
      obtain ⟨n, hn⟩ := Store.hasNode_iff.1 hthere
      rw [hn, Option.some_or]
    · next hno =>
      have hfree : s.nodes[container.2]? = none :=
        Store.hasNode_eq_false_iff.1 (Bool.eq_false_iff.2 hno)
      rw [hfree, Option.none_or, if_pos rfl]
      exact ExtTreeMap.getElem?_insert_self
  · rw [if_neg hid, Option.or_none]
    split
    · rfl
    · exact (ExtTreeMap.getElem?_insert).trans (if_neg (by simpa using hid))

/-- Installing containers keeps the entities that are there, and makes one of every other path, of
the kind with which the path is first listed. -/
theorem getElem?_foldl_place_nodes : (list.foldl (place config) s).nodes[id]? =
    s.nodes[id]?.or ((list.find? (·.2 = id)).map fun container =>
      { id, name := Path.name id, kind := container.1 }) := by
  induction list generalizing s with
  | nil => simp
  | cons container list ih =>
    rw [List.foldl_cons, ih, getElem?_place_nodes, Option.or_assoc, List.find?_cons]
    by_cases hid : container.2 = id <;> simp [hid]

/-- Installing a hierarchy keeps the entities that are there and adds the containers whose ids are
free. -/
theorem getElem?_install_nodes {n : Node} : (h.install config s).2.nodes[id]? = some n ↔
    s.nodes[id]? = some n ∨ s.nodes[id]? = none ∧ ∃ kind last, h.Makes config id kind ∧
      Path.EndsIn id last ∧ n = { id, name := last, kind } := by
  rw [install_eq_foldl, getElem?_foldl_place_nodes, Option.or_eq_some_iff]
  refine or_congr_right (and_congr_right fun _ => ?_)
  rw [Option.map_eq_some_iff]
  constructor
  · rintro ⟨container, hfind, rfl⟩
    exact ⟨container.1, _, (find?_containers_eq_some_iff.1 hfind).1, Path.name_eq_iff.1 rfl, rfl⟩
  · rintro ⟨kind, last, hmakes, hlast, rfl⟩
    exact ⟨(kind, id), find?_containers_eq_some_iff.2 ⟨hmakes, rfl⟩, by
      rw [Path.name_eq_iff.2 hlast]⟩

/-! ## Links -/

/-- The link of a container touches the parents of this container only. -/
theorem getElem?_place_of_ne (hc : s.Coherent) (hkey : config.includeSubsystems = true →
      ∀ dir, Path.parent? container.2 = some dir →
        ¬ (key.kind = .contains ∧ key.dest = container.2)) :
    (place config s container).edges[key]? = s.edges[key]? := by
  unfold place
  split
  · next hsub =>
    cases hdir : Path.parent? container.2 with
    | none => rw [linkToParent_of_none hdir, addContainer_edges]
    | some dir =>
      have hother := hkey hsub dir hdir
      rw [linkToParent_eq hdir, Store.getElem?_offer_of_ne (hc.addContainer _ _) ?_ ?_,
        addContainer_edges]
      · rintro rfl
        exact hother ⟨rfl, rfl⟩
      · exact fun hr => hother ⟨hr.2.1, hr.2.2.symm⟩
  · rw [addContainer_edges]

/-- A container whose link is there keeps its parents. -/
theorem getElem?_place_of_linked (hc : s.Coherent) (hdir : Path.parent? path = some dir)
    (hlinked : ⟨dir, path, .contains⟩ ∈ s.edges) (q : String) :
    (place config s container).edges[EdgeKey.mk q path .contains]? =
      s.edges[EdgeKey.mk q path .contains]? := by
  by_cases hp : container.2 = path
  · subst hp
    have hthere : ⟨dir, container.2, .contains⟩ ∈
        (addContainer container.1 s container.2).edges := by
      rwa [addContainer_edges]
    unfold place
    split
    · rw [linkToParent_eq hdir, Store.offer_of_refused (.inr hthere), addContainer_edges]
    · rw [addContainer_edges]
  · exact getElem?_place_of_ne hc fun _ _ _ h => hp h.2.symm

/-- A container that is linked while its link is not there loses its other parents. -/
theorem getElem?_place_of_not_linked (hc : s.Coherent) (hsub : config.includeSubsystems = true)
    (hdir : Path.parent? container.2 = some dir)
    (hfree : ⟨dir, container.2, .contains⟩ ∉ s.edges) (q : String) :
    (place config s container).edges[EdgeKey.mk q container.2 .contains]? =
      if q = dir then some (link dir container.2) else none := by
  have hno : ¬ ((link dir container.2).isSelfContainment = true ∨
      (link dir container.2).toEdgeKey ∈ (addContainer container.1 s container.2).edges) := by
    rw [addContainer_edges]
    simpa [link, EdgeKey.isSelfContainment, ne_of_parent? hdir] using hfree
  rw [place, if_pos hsub, linkToParent_eq hdir]
  refine (Store.getElem?_offer (hc.addContainer _ _)).trans ((if_neg hno).trans ?_)
  by_cases hq : q = dir
  · rw [if_pos hq, if_pos (by rw [hq]), link]
  · rw [if_neg hq, if_neg (by simp [hq]), if_pos ⟨rfl, rfl, rfl⟩]

/-- Installing containers keeps every relation but those from a parent to one of them. -/
theorem getElem?_foldl_place_of_ne (hc : s.Coherent) (hkey : config.includeSubsystems = true →
      ∀ container ∈ list, ∀ dir, Path.parent? container.2 = some dir →
        ¬ (key.kind = .contains ∧ key.dest = container.2)) :
    (list.foldl (place config) s).edges[key]? = s.edges[key]? := by
  refine (List.foldlRecOn (motive := fun s' => s'.Coherent ∧ s'.edges[key]? = s.edges[key]?) list
    (place config) ⟨hc, rfl⟩ ?_).2
  rintro s' ⟨hc', hs'⟩ container hmem
  exact ⟨coherent_place hc' container,
    (getElem?_place_of_ne hc' fun hsub => hkey hsub container hmem).trans hs'⟩

/-- Installing containers keeps the parents of a path that its directory contains already. -/
theorem getElem?_foldl_place_of_linked (hc : s.Coherent) (hdir : Path.parent? path = some dir)
    (hlinked : ⟨dir, path, .contains⟩ ∈ s.edges) (q : String) :
    (list.foldl (place config) s).edges[EdgeKey.mk q path .contains]? =
      s.edges[EdgeKey.mk q path .contains]? := by
  refine (List.foldlRecOn (motive := fun s' => s'.Coherent ∧ ∀ q,
      s'.edges[EdgeKey.mk q path .contains]? = s.edges[EdgeKey.mk q path .contains]?) list
    (place config) ⟨hc, fun _ => rfl⟩ ?_).2 q
  rintro s' ⟨hc', hs'⟩ container -
  have hlinked' : ⟨dir, path, .contains⟩ ∈ s'.edges := by
    rwa [Store.mem_edges_iff, hs', ← Store.mem_edges_iff]
  exact ⟨coherent_place hc' container,
    fun q => (getElem?_place_of_linked hc' hdir hlinked' q).trans (hs' q)⟩

/-- After containers have been placed, one among them that has a directory above it keeps its
parents if its link was there, and else has no parent but this directory. -/
theorem getElem?_foldl_place (hc : s.Coherent) (hsub : config.includeSubsystems = true)
    (hdir : Path.parent? path = some dir) (hmem : path ∈ list.map (·.2)) (q : String) :
    (list.foldl (place config) s).edges[EdgeKey.mk q path .contains]? =
      if ⟨dir, path, .contains⟩ ∈ s.edges then s.edges[EdgeKey.mk q path .contains]?
      else if q = dir then some (link dir path) else none := by
  induction list generalizing s with
  | nil => cases hmem
  | cons container list ih =>
    rw [List.foldl_cons]
    by_cases hp : container.2 = path
    · subst hp
      rw [getElem?_foldl_place_of_linked (coherent_place hc container) hdir
        ((placed_place hc container).linked hsub dir hdir)]
      split
      · next hlinked => exact getElem?_place_of_linked hc hdir hlinked q
      · next hfree => exact getElem?_place_of_not_linked hc hsub hdir hfree q
    · have hsame : ∀ q, (place config s container).edges[EdgeKey.mk q path .contains]? =
          s.edges[EdgeKey.mk q path .contains]? :=
        fun q => getElem?_place_of_ne hc fun _ _ _ h => hp h.2.symm
      have hmem' : path ∈ list.map (·.2) :=
        (List.mem_cons.1 hmem).resolve_left fun heq => hp heq.symm
      rw [ih (coherent_place hc container) hmem', hsame q]
      exact if_congr (by rw [Store.mem_edges_iff, Store.mem_edges_iff, hsame dir]) rfl rfl

/-! ## Installing a hierarchy -/

theorem Links.parent? (hlinks : h.Links config dir path) : Path.parent? path = some dir :=
  Path.parent?_eq_some_iff.2 hlinks.2.2

/-- A container whose directory contains it keeps its parents, and any other gets its directory as
the only one. -/
theorem getElem?_install_of_links (hc : s.Coherent) (hlinks : h.Links config dir path)
    (q : String) : (h.install config s).2.edges[EdgeKey.mk q path .contains]? =
      if ⟨dir, path, .contains⟩ ∈ s.edges then s.edges[EdgeKey.mk q path .contains]?
      else if q = dir then some (link dir path) else none := by
  rw [install_eq_foldl]
  exact getElem?_foldl_place hc hlinks.1 hlinks.parent? (mem_containers_iff.2 hlinks.2.1) q

/-- Every relation is kept but those from a parent to a container that is linked. -/
theorem getElem?_install_of_not_links (hc : s.Coherent)
    (hkey : key.kind = .contains → ∀ dir, ¬ h.Links config dir key.dest) :
    (h.install config s).2.edges[key]? = s.edges[key]? := by
  rw [install_eq_foldl]
  refine getElem?_foldl_place_of_ne hc fun hsub container hmem dir hdir => ?_
  rintro ⟨hkind, hdest⟩
  rw [← hdest] at hdir
  exact hkey hkind dir ⟨hsub, mem_containers_iff.1 (hdest ▸ List.mem_map_of_mem hmem),
    Path.parent?_eq_some_iff.1 hdir⟩

/-- What is linked has one parent afterwards if it had at most one before. -/
theorem onlyParent_install (hc : s.Coherent) (hsingle : s.SingleParents)
    (hlinks : h.Links config dir path) (q : String) :
    (h.install config s).2.edge? ⟨q, path, .contains⟩ ≠ none ↔ q = dir := by
  rw [Store.edge?, getElem?_install_of_links hc hlinks]
  by_cases hthere : ⟨dir, path, .contains⟩ ∈ s.edges
  · rw [if_pos hthere, Option.ne_none_iff_exists', ← Store.mem_edges_iff]
    constructor
    · intro hq
      exact congrArg EdgeKey.source (hsingle hq hthere rfl rfl rfl)
    · rintro rfl
      exact hthere
  · rw [if_neg hthere]
    by_cases hq : q = dir <;> simp [hq]

/-- Files are the keys of the index. Its value is the file itself if files are containers, and else
the directory of the file if directories are. -/
theorem getElem?_entries_install {file container : String} :
    (h.install config s).1.entries[file]? = some container ↔ file ∈ h.files ∧
      (config.includeFiles = true ∧ container = file ∨ config.includeFiles = false ∧
        config.includeSubsystems = true ∧ Path.Holds container file) := by
  rw [show (h.install config s).1.entries[file]? = _ from getElem?_entries,
    Option.ite_none_right_eq_some, ExtTreeSet.mem_toList]
  refine and_congr_right fun _ => ?_
  rw [← Path.parent?_eq_some_iff, containerOf?]
  cases config.includeFiles <;> cases config.includeSubsystems <;> simp [eq_comm]

/-- **What installing a hierarchy does.** Whatever the store, the paths and the settings, the
entities that are there stay as they are, and the containers whose ids are free are added under
their last segment. If the link of a container to its directory is not there, it takes the place of
all parents of the container, and is resolved; if it is there, the parents stay as they are. No
other relation is touched. So in a store in which nothing has two parents, as after every history
that does not take over a whole store, each linked container has its directory as its only parent.
The index says of each source file the container that the settings give it. To install the hierarchy
once more changes nothing. -/
theorem install_exact (history : List Change) (paths : List String) (config : Config) :
    let s := Store.after history
    let h := ofPaths paths
    let index := (h.install config s).1
    let s' := (h.install config s).2
    (∀ id n, s'.node? id = some n ↔ s.node? id = some n ∨ s.node? id = none ∧
      ∃ kind last, h.Makes config id kind ∧ Path.EndsIn id last ∧
        n = { id, name := last, kind }) ∧
    (∀ dir path, h.Links config dir path → ∀ q, s'.edge? ⟨q, path, .contains⟩ =
      if ⟨dir, path, .contains⟩ ∈ s.edges then s.edge? ⟨q, path, .contains⟩
      else if q = dir then
        some { source := dir, dest := path, kind := .contains, resolved := true }
      else none) ∧
    (∀ key, (key.kind = .contains → ∀ dir, ¬ h.Links config dir key.dest) →
      s'.edge? key = s.edge? key) ∧
    (s.SingleParents → ∀ dir path, h.Links config dir path →
      ∀ q, s'.edge? ⟨q, path, .contains⟩ ≠ none ↔ q = dir) ∧
    ((∀ c ∈ history, c.Follows fun _ => True) → s.SingleParents) ∧
    (∀ file container, index.entries[file]? = some container ↔ file ∈ h.files ∧
      (config.includeFiles = true ∧ container = file ∨ config.includeFiles = false ∧
        config.includeSubsystems = true ∧ Path.Holds container file)) ∧
    h.install config s' = (index, s') := by
  intro s h index s'
  have hc : s.Coherent := Store.coherent_after history
  have hagain : (h.install config s').2 = s' := install_of_placed fun _ hm => placed_install hc hm
  exact ⟨fun _ _ => getElem?_install_nodes, fun _ _ hlinks => getElem?_install_of_links hc hlinks,
    fun _ => getElem?_install_of_not_links hc, fun hsingle _ _ => onlyParent_install hc hsingle,
    fun hplain => Store.singleParents_after hplain, fun _ _ => getElem?_entries_install,
    Prod.ext rfl hagain⟩

/-- Relations that give a file two parents, one of them its directory. -/
def rivalParents : List Edge :=
  [{ source := "a", dest := "b/c", kind := .contains },
    { source := "b", dest := "b/c", kind := .contains }]

/-- The snapshot of these relations. -/
def rivalParentsBytes : ByteArray :=
  ⟨#[0x46, 0x42, 0x53, 0x4E, 1, 0, 2, 1, 0x61, 3, 0x62, 0x2F, 0x63, 0, 0, 0,
    1, 0x62, 3, 0x62, 0x2F, 0x63, 0, 0, 0]⟩

/-- The snapshot is accepted, with both parents. -/
theorem decode_rivalParentsBytes :
    Snapshot.decode rivalParentsBytes = .ok (.ofLists [] rivalParents) := by
  have hbytes : Snapshot.toBytes (.ofLists [] rivalParents) = rivalParentsBytes.data.toList := by
    decide +kernel
  have hencode : Snapshot.encode (.ofLists [] rivalParents) = rivalParentsBytes := by
    rw [Snapshot.encode, hbytes]
  have hsize : (Snapshot.encode (.ofLists [] rivalParents)).size ≤ Snapshot.sizeLimit := by
    rw [hencode]
    decide
  rw [← hencode]
  exact Snapshot.decode_encode (Store.canonical_ofLists [] rivalParents) hsize

/-- A file that has two parents in a snapshot keeps both, if one is its directory. -/
theorem install_rivalParents : ¬ ∀ (history : List Change) (paths : List String) (config : Config)
    (dir path : String), (ofPaths paths).Links config dir path →
      ∀ q, ((ofPaths paths).install config (Store.after history)).2.edge? ⟨q, path, .contains⟩ ≠
        none ↔ q = dir := by
  intro hall
  have hlinks : (ofPaths ["b/c"]).Links {} "b" "b/c" :=
    ⟨rfl, mem_containers_iff.1 (by decide +kernel),
      Path.parent?_eq_some_iff.1 (by decide +kernel)⟩
  have hafter : Store.after [.decode rivalParentsBytes] = .ofLists [] rivalParents := by
    simp only [Store.after, List.foldl_cons, List.foldl_nil, Change.run, decode_rivalParentsBytes,
      Store.granted]
  have hkept : ((ofPaths ["b/c"]).install {} (.ofLists [] rivalParents)).2.edge?
      ⟨"a", "b/c", .contains⟩ ≠ none := by decide +kernel
  have honly := hall [.decode rivalParentsBytes] ["b/c"] {} "b" "b/c" hlinks "a"
  rw [hafter] at honly
  exact absurd (honly.1 hkept) (by decide)

end

end ArchFacts.Hierarchy
