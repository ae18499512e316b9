import ArchFacts.Proofs.Hierarchy.Install
import ArchFacts.Proofs.History
import ArchFacts.Proofs.Store.Added

/-!
# Every entity in the container of its file

To organize a store is to install the hierarchy of the files that its entities name and then to
attach the entities to the containers (`organize`). Three things have to agree on a file: the text
by which an entity names it, the index of containers, and the ids of the containers. They do, since
the index is asked for the normal path of the text, that path is a file of the hierarchy, and its
container has been installed (`attachment?_install`).

To organize a store again does nothing (`organize_organize`). The first time changes no text by
which an entity names a file, so the hierarchy is the same (`ofStore_organize`). Its containers are
still there, since to attach is to add relations of one kind (`install_organize`). And to attach
twice is to attach once (`Store.attach_attach`).

The containers to attach to need not be those of a hierarchy: whichever container a lookup gives for
a file, only the links that it asks for are new (`Store.attach_exact`).
-/

namespace ArchFacts

/-- The relation that puts an entity into a container. -/
def fileLink (container id : String) : Edge :=
  { source := container, dest := id, kind := .fileContains, resolved := true }

/-- Whether an entity belongs in a container: it names exactly one file, and the settings make this
file, or else the directory that holds it, a container other than the entity itself. -/
def Node.BelongsIn (config : Config) (n : Node) (container : String) : Prop :=
  ∃ file path, n.attributes.values config.fileAttribute = [file] ∧
    Path.normalize? file = some path ∧
    (if config.includeFiles then some path
      else if config.includeSubsystems then Path.parent? path
      else none) = some container ∧
    container ≠ n.id

namespace Store

section
variable {s s' : Store} {container? : String → Option String} {fileAttribute : String}
variable {n : Node} {e : Edge} {key : EdgeKey}

/-! ## Attaching to containers -/

/-- An entity is attached to the container of its only file, if the container is another entity of
the store. -/
theorem attachment?_eq_some : s.attachment? container? fileAttribute n = some e ↔
    ∃ file container, n.attributes.values fileAttribute = [file] ∧
      container? file = some container ∧ container ≠ n.id ∧ s.hasNode container = true ∧
      e = fileLink container n.id := by
  unfold attachment?
  constructor
  · intro h
    split at h
    · next file hfile =>
      split at h
      · next container hcontainer =>
        split at h
        · next hlive =>
          rw [Bool.and_eq_true, decide_eq_true_eq] at hlive
          exact ⟨file, container, hfile, hcontainer, hlive.1, hlive.2, (Option.some.inj h).symm⟩
        · cases h
      · cases h
    · cases h
  · rintro ⟨file, container, hfile, hcontainer, hne, hlive, rfl⟩
    simp only [hfile, hcontainer]
    rw [if_pos (by simp [hne, hlive]), fileLink]

theorem kind_of_attachment? (h : s.attachment? container? fileAttribute n = some e) :
    e.kind = .fileContains := by
  obtain ⟨_, _, -, -, -, -, rfl⟩ := attachment?_eq_some.1 h
  rfl

theorem kind_of_mem_attachments
    (h : e ∈ s.nodeList.filterMap (s.attachment? container? fileAttribute)) :
    e.kind = .fileContains := by
  obtain ⟨n, -, hn⟩ := List.mem_filterMap.1 h
  exact kind_of_attachment? hn

/-- A link has nothing but its ends. -/
theorem eq_fileLink_of_mem_attachments
    (h : e ∈ s.nodeList.filterMap (s.attachment? container? fileAttribute)) :
    e = fileLink e.source e.dest := by
  obtain ⟨n, -, hn⟩ := List.mem_filterMap.1 h
  obtain ⟨_, _, -, -, -, -, rfl⟩ := attachment?_eq_some.1 hn
  rfl

/-- The links that a store gives its entities depend on these only. -/
theorem attachments_congr (h : s'.nodes = s.nodes) :
    s'.nodeList.filterMap (s'.attachment? container? fileAttribute) =
      s.nodeList.filterMap (s.attachment? container? fileAttribute) := by
  have hlink : s'.attachment? container? fileAttribute =
      s.attachment? container? fileAttribute := by
    funext n
    simp only [attachment?, hasNode_congr h]
  rw [hlink, nodeList, nodeList, h]

@[simp] theorem attach_nodes : (s.attach container? fileAttribute).2.nodes = s.nodes := by
  rw [attach, addEdges_snd, foldl_offer_nodes]

/-- Attaching changes relations of one kind only. -/
theorem agreeOn_attach (hc : s.Coherent) :
    (s.attach container? fileAttribute).2.AgreeOn (·.kind ≠ .fileContains) s := by
  rw [attach, addEdges_snd]
  refine agreeOn_foldl_offer hc
    (fun e he hkey => absurd (kind_of_mem_attachments he) hkey) ?_
  intro e he key _ hr hfile
  have hcontains : e.kind = .contains := hr.1
  rw [hfile] at hcontains
  cases hcontains

/-- After attaching, the relations of files to what they contain are those before and the
attachments. -/
theorem mem_edges_attach_iff (hc : s.Coherent) (hkind : key.kind = .fileContains) :
    key ∈ (s.attach container? fileAttribute).2.edges ↔ key ∈ s.edges ∨
      ∃ n ∈ s.nodeList, ∃ e, s.attachment? container? fileAttribute n = some e ∧
        e.toEdgeKey = key := by
  rw [attach, addEdges_snd, mem_edges_foldl_offer_iff hc (by simp [hkind])]
  refine or_congr_right ⟨?_, ?_⟩
  · rintro ⟨e, he, hkey⟩
    obtain ⟨n, hmem, hn⟩ := List.mem_filterMap.1 he
    exact ⟨n, hmem, e, hn, hkey⟩
  · rintro ⟨n, hmem, e, hn, hkey⟩
    exact ⟨e, List.mem_filterMap.2 ⟨n, hmem, hn⟩, hkey⟩

/-- To attach twice is to attach once. -/
theorem attach_attach (hc : s.Coherent) (container? : String → Option String)
    (fileAttribute : String) :
    (s.attach container? fileAttribute).2.attach container? fileAttribute =
      (0, (s.attach container? fileAttribute).2) := by
  rw [attach, attachments_congr attach_nodes, addEdges_of_refused]
  intro e he
  obtain ⟨n, hmem, hn⟩ := List.mem_filterMap.1 he
  exact .inr ((mem_edges_attach_iff hc (kind_of_attachment? hn)).2 (.inr ⟨n, hmem, e, hn, rfl⟩))

/-- The links that entities are given by their attributes. -/
theorem mem_attachments_iff (hc : s.Coherent) :
    e ∈ s.nodeList.filterMap (s.attachment? container? fileAttribute) ↔
      ∃ id n file container, s.node? id = some n ∧ n.attributes.values fileAttribute = [file] ∧
        container? file = some container ∧ container ≠ id ∧ s.hasNode container = true ∧
        e = fileLink container id := by
  rw [List.mem_filterMap]
  constructor
  · rintro ⟨n, hmem, he⟩
    obtain ⟨file, container, hrest⟩ := attachment?_eq_some.1 he
    exact ⟨n.id, n, file, container, (mem_nodeList hc).1 hmem, hrest⟩
  · rintro ⟨id, n, file, container, hn, hrest⟩
    obtain rfl := hc.node_id hn
    exact ⟨n, (mem_nodeList hc).2 hn, attachment?_eq_some.2 ⟨file, container, hrest⟩⟩

/-- **What attaching does.** Whatever the store and whichever containers a lookup gives, no entity
and no relation that is there changes. The relations that are new are the links from a container to
an entity that has one value under the attribute, for which the lookup gives the container, provided
that the container is an entity, another one, and is not linked to it yet. They are counted. To
attach once more adds nothing. -/
theorem attach_exact (history : List Change) (container? : String → Option String)
    (fileAttribute : String) :
    let s := after history
    let count := (s.attach container? fileAttribute).1
    let s' := (s.attach container? fileAttribute).2
    s'.nodes = s.nodes ∧
    (∀ key e, s.edge? key = some e → s'.edge? key = some e) ∧
    (∀ e, e ∈ s.added s' ↔ ∃ id n file container, s.node? id = some n ∧
      n.attributes.values fileAttribute = [file] ∧ container? file = some container ∧
      container ≠ id ∧ s.hasNode container = true ∧
      s.edge? ⟨container, id, .fileContains⟩ = none ∧ e = fileLink container id) ∧
    count = (s.added s').length ∧
    s'.attach container? fileAttribute = (0, s') := by
  intro s count s'
  have hc : s.Coherent := coherent_after history
  have hkind : ∀ e ∈ s.nodeList.filterMap (s.attachment? container? fileAttribute),
      e.kind ≠ .contains := by
    intro e he
    simp [kind_of_mem_attachments he]
  have hkey : ∀ e ∈ s.nodeList.filterMap (s.attachment? container? fileAttribute),
      ∀ e' ∈ s.nodeList.filterMap (s.attachment? container? fileAttribute),
        e.toEdgeKey = e'.toEdgeKey → e = e' := by
    intro e he e' he' heq
    calc e
      _ = fileLink e.source e.dest := eq_fileLink_of_mem_attachments he
      _ = fileLink e'.source e'.dest := by rw [heq]
      _ = e' := (eq_fileLink_of_mem_attachments he').symm
  refine ⟨attach_nodes, fun _ _ => edge?_addEdges_of_some hc hkind, fun e => ?_,
    addEdges_fst_eq_length_added hc hkind, attach_attach hc container? fileAttribute⟩
  refine (mem_added_addEdges hc hkind hkey).trans ?_
  rw [mem_attachments_iff hc]
  constructor
  · rintro ⟨⟨id, n, file, container, hn, hvalue, hlook, hne, hlive, rfl⟩, hfree⟩
    exact ⟨id, n, file, container, hn, hvalue, hlook, hne, hlive, hfree, rfl⟩
  · rintro ⟨id, n, file, container, hn, hvalue, hlook, hne, hlive, hfree, rfl⟩
    exact ⟨⟨id, n, file, container, hn, hvalue, hlook, hne, hlive, rfl⟩, hfree⟩

end

end Store

namespace Hierarchy

section
variable {config : Config} {s : Store} {h : Hierarchy} {n : Node} {e : Edge} {key : EdgeKey}
variable {path : String}

/-! ## Organizing a store -/

/-- Installs the hierarchy of the files of a store and attaches the entities to their containers.
The number is that of the entities that are newly attached. -/
def organize (config : Config) (s : Store) : Nat × Store :=
  let installed := (ofStore config s).install config s
  installed.2.attach installed.1.find? config.fileAttribute

/-- An entity whose files are all in the hierarchy is linked to the container it belongs in, which
has been installed. -/
theorem attachment?_install (hc : s.Coherent)
    (hfiles : ∀ file ∈ n.attributes.values config.fileAttribute, ∀ path,
      Path.normalize? file = some path → path ∈ h.files) :
    (h.install config s).2.attachment? (h.install config s).1.find? config.fileAttribute n =
        some e ↔
      ∃ container, n.BelongsIn config container ∧ e = fileLink container n.id := by
  rw [Store.attachment?_eq_some]
  constructor
  · rintro ⟨file, container, hvalues, hcontainer, hne, -, rfl⟩
    cases hpath : Path.normalize? file with
    | none =>
      rw [find?_eq_none hpath] at hcontainer
      cases hcontainer
    | some path =>
      have hmem : path ∈ h.files := hfiles file (by simp [hvalues]) path hpath
      rw [find?_install hpath hmem] at hcontainer
      exact ⟨container, ⟨file, path, hvalues, hpath, hcontainer, hne⟩, rfl⟩
  · rintro ⟨container, ⟨file, path, hvalues, hpath, hcontainer, hne⟩, rfl⟩
    have hmem : path ∈ h.files := hfiles file (by simp [hvalues]) path hpath
    exact ⟨file, container, hvalues, (find?_install hpath hmem).trans hcontainer, hne,
      hasNode_install hc hmem hcontainer, rfl⟩

/-- The entities of a store in which its hierarchy has been installed name files of the
hierarchy. -/
theorem mem_files_of_install (hc : s.Coherent) {id : String}
    (hn : ((ofStore config s).install config s).2.nodes[id]? = some n) :
    ∀ file ∈ n.attributes.values config.fileAttribute, ∀ path,
      Path.normalize? file = some path → path ∈ (ofStore config s).files := by
  intro file hfile path hpath
  rw [← ofStore_of_keeps (keeps_install hc (ofStore config s) config)]
  exact mem_files_ofStore.2 ⟨id, n, hn, file, hfile, hpath⟩

/-- An entity is in a container after a store has been organized exactly if it was there before or
belongs there. -/
theorem mem_edges_organize_iff (hc : s.Coherent) (hkind : key.kind = .fileContains) :
    key ∈ (organize config s).2.edges ↔ key ∈ s.edges ∨
      ∃ n, (organize config s).2.node? key.dest = some n ∧ n.BelongsIn config key.source := by
  have hc₁ := coherent_install hc (ofStore config s) config
  have hkept : key ∈ ((ofStore config s).install config s).2.edges ↔ key ∈ s.edges := by
    rw [Store.mem_edges_iff, Store.mem_edges_iff,
      (keeps_install hc (ofStore config s) config).edge key (by simp [hkind])]
  rw [organize, Store.mem_edges_attach_iff hc₁ hkind, hkept, Store.node?, Store.attach_nodes]
  refine or_congr_right ⟨?_, ?_⟩
  · rintro ⟨n, hmem, e, he, rfl⟩
    have hn := (Store.mem_nodeList hc₁).1 hmem
    obtain ⟨container, hbelongs, rfl⟩ :=
      (attachment?_install hc (mem_files_of_install hc hn)).1 he
    exact ⟨n, hn, hbelongs⟩
  · rintro ⟨n, hn, hbelongs⟩
    obtain ⟨source, _, kind⟩ := key
    obtain rfl : kind = .fileContains := hkind
    obtain rfl := hc₁.node_id hn
    have he := (attachment?_install hc (mem_files_of_install hc hn)).2 ⟨source, hbelongs, rfl⟩
    exact ⟨n, (Store.mem_nodeList hc₁).2 hn, _, he, rfl⟩

/-- The container that an entity belongs in is there after the store has been organized. -/
theorem hasNode_of_belongsIn (hc : s.Coherent) {id container : String}
    (hn : (organize config s).2.node? id = some n) (hbelongs : n.BelongsIn config container) :
    (organize config s).2.hasNode container = true := by
  rw [organize, Store.node?, Store.attach_nodes] at hn
  obtain ⟨file, path, hvalues, hpath, hcontainer, -⟩ := hbelongs
  have hmem := mem_files_of_install hc hn file (by simp [hvalues]) path hpath
  rw [organize, Store.hasNode_congr Store.attach_nodes]
  exact hasNode_install hc hmem hcontainer

/-- Attaching keeps what is installed. -/
theorem Placed.attach (hp : Placed config s path) (hc : s.Coherent)
    (container? : String → Option String) (fileAttribute : String) :
    Placed config (s.attach container? fileAttribute).2 path where
  hasNode := (Store.hasNode_congr Store.attach_nodes).trans hp.hasNode
  linked hsub dir hdir := by
    have hlinked := hp.linked hsub dir hdir
    rw [Store.mem_edges_iff] at hlinked ⊢
    rwa [Store.agreeOn_attach hc _ (by simp)]

/-- To organize a store in which its hierarchy is installed is to attach its entities. -/
theorem organize_of_install (h : ((ofStore config s).install config s).2 = s) :
    organize config s =
      s.attach ((ofStore config s).install config s).1.find? config.fileAttribute := by
  rw [organize, h]

theorem ofStore_organize (hc : s.Coherent) (config : Config) :
    ofStore config (organize config s).2 = ofStore config s := by
  rw [← ofStore_of_keeps (keeps_install hc (ofStore config s) config)]
  simp only [ofStore, Store.nodeList, organize, Store.attach_nodes]

/-- To install the hierarchy of an organized store again changes nothing. -/
theorem install_organize (hc : s.Coherent) (config : Config) :
    ((ofStore config (organize config s).2).install config (organize config s).2).2 =
      (organize config s).2 := by
  rw [ofStore_organize hc]
  exact install_of_placed fun _ hm =>
    (placed_install hc hm).attach (coherent_install hc (ofStore config s) config) _ _

/-- To organize a store again does nothing. -/
theorem organize_organize (hc : s.Coherent) (config : Config) :
    organize config (organize config s).2 = (0, (organize config s).2) := by
  -- The index of containers does not depend on the store into which a hierarchy is installed.
  have hindex : ((ofStore config (organize config s).2).install config (organize config s).2).1 =
      ((ofStore config s).install config s).1 := by
    rw [ofStore_organize hc]
    rfl
  rw [organize_of_install (install_organize hc config), hindex]
  exact Store.attach_attach (coherent_install hc (ofStore config s) config) _ _

/-- After the hierarchy of its files has been installed and attached to, whatever the store and the
settings, an entity that names exactly one file is linked to the container that the settings make of
the file, which is an entity, and no other links between containers and entities are new. To do all
this again adds nothing. -/
theorem organized_after (history : List Change) (config : Config) :
    let s := Store.after history
    let s' := (organize config s).2
    (∀ id n container, s'.node? id = some n → n.BelongsIn config container →
      s'.hasNode container = true ∧ ⟨container, id, .fileContains⟩ ∈ s'.edges) ∧
    (∀ key, key.kind = .fileContains → (key ∈ s'.edges ↔ key ∈ s.edges ∨
      ∃ n, s'.node? key.dest = some n ∧ n.BelongsIn config key.source)) ∧
    ((ofStore config s').install config s').2 = s' ∧
    organize config s' = (0, s') := by
  intro s s'
  have hc : s.Coherent := Store.coherent_after history
  refine ⟨fun id n container hn hbelongs => ?_, fun key => mem_edges_organize_iff hc,
    install_organize hc config, organize_organize hc config⟩
  exact ⟨hasNode_of_belongsIn hc hn hbelongs,
    (mem_edges_organize_iff hc rfl).2 (.inr ⟨n, hn, hbelongs⟩)⟩

/-- Two functions that name one file by different paths, and a third that names two files. -/
def respelled : List Change :=
  [.addNode
    { id := "send", kind := .function,
      attributes := (∅ : Attributes).insert "filename" "./src/net/tcp.c" },
    .addNode
    { id := "receive", kind := .function,
      attributes := (∅ : Attributes).insert "filename" "src/lib/..//net/tcp.c" },
    .addNode
    { id := "listen", kind := .function,
      attributes :=
        ((∅ : Attributes).insert "filename" "src/net/tcp.c").insert "filename" "udp.c" }]

example : (organize {} (Store.after respelled)).1 = 2 ∧
    ((organize {} (Store.after respelled)).2.edgesFrom "src/net/tcp.c" none).map (·.dest) =
      ["receive", "send"] := by
  decide +kernel

end

end Hierarchy

end ArchFacts
