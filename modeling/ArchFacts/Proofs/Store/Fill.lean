import ArchFacts.Proofs.Store.Pass

/-!
# What filling a store leaves in it

A document fills a store in four passes: entities, relations, blocks of attributes, resolution. Each
pass is described by what stands under an id or a key afterwards. Entities with free ids are all
added (`addNodes_spec`), and so are relations with free keys of which no two are parents of one
entity (`addEdges_spec`): none puts another out. A block changes the attributes of its target only
(`getElem?_applyBlocks_nodes`, `getElem?_applyBlocks_edges`), and is in vain if no target of it is
there (`applyBlocks_fst`). Relations that have both ends are all resolved (`resolve_spec`).
-/

namespace ArchFacts

/-- An entity without its attributes. -/
def Node.bare (n : Node) : Node := { n with attributes := ∅ }

/-- A relation without its attributes and before it is resolved. -/
def Edge.bare (e : Edge) : Edge := { e with resolved := false, attributes := ∅ }

/-- Whether two relations are parents of one entity. -/
def EdgeKey.Rivals (k k' : EdgeKey) : Prop :=
  k.kind = .contains ∧ k'.kind = .contains ∧ k.dest = k'.dest

instance (k k' : EdgeKey) : Decidable (k.Rivals k') :=
  inferInstanceAs (Decidable (k.kind = .contains ∧ k'.kind = .contains ∧ k.dest = k'.dest))

theorem EdgeKey.Rivals.symm {k k' : EdgeKey} (h : k.Rivals k') : k'.Rivals k :=
  ⟨h.2.1, h.1, h.2.2.symm⟩

namespace Block

/-- The attributes of the entity with an id after a block. -/
def onNode (b : Block) (id : String) (a : Attributes) : Attributes :=
  if b.target = .entity id then a.merge (b.attributes.erase labelKey) else a

/-- The attributes of the relation with a key after a block. -/
def onEdge (b : Block) (key : EdgeKey) (a : Attributes) : Attributes :=
  if b.target = .pair key.source key.dest then a.merge b.attributes else a

section
variable {blocks : List Block} {id : String} {key : EdgeKey} {a : Attributes}

/-- Blocks merge into the attributes of an entity what they hold for it, labels left out. -/
theorem foldl_onNode_eq : blocks.foldl (fun a b => b.onNode id a) a = (blocks.map fun b =>
    if b.target = .entity id then b.attributes.erase labelKey else ∅).foldl Attributes.merge a := by
  rw [List.foldl_map]
  congr 1
  funext a b
  rw [onNode]
  split
  · rfl
  · rw [Attributes.merge_empty]

/-- Blocks merge into the attributes of a relation what they hold for its ends. -/
theorem foldl_onEdge_eq : blocks.foldl (fun a b => b.onEdge key a) a = (blocks.map fun b =>
    if b.target = .pair key.source key.dest then b.attributes else ∅).foldl Attributes.merge a := by
  rw [List.foldl_map]
  congr 1
  funext a b
  rw [onEdge]
  split
  · rfl
  · rw [Attributes.merge_empty]

/-- Blocks change nothing a second time. -/
theorem foldl_onNode_twice : blocks.foldl (fun a b => b.onNode id a)
    (blocks.foldl (fun a b => b.onNode id a) a) = blocks.foldl (fun a b => b.onNode id a) a := by
  simp only [foldl_onNode_eq, Attributes.foldl_merge_foldl_merge]

theorem foldl_onEdge_twice : blocks.foldl (fun a b => b.onEdge key a)
    (blocks.foldl (fun a b => b.onEdge key a) a) = blocks.foldl (fun a b => b.onEdge key a) a := by
  simp only [foldl_onEdge_eq, Attributes.foldl_merge_foldl_merge]

end

end Block

namespace Store

section
variable {s : Store}

/-! ## Entities -/

/-- An entity with a free id is added and counted. -/
theorem countNode_of_free {c : Tally} {n : Node} (h : s.nodes[n.id]? = none) :
    countNode (c, s) n = ({ c with added := c.added + 1 }, s.register n) := by
  rw [countNode, attempt, addNode, if_neg (by simp [hasNode_eq_false_iff.2 h])]

/-- Entities whose ids are taken are all refused. -/
theorem addNodes_of_hasNode {ns : List Node} (h : ∀ n ∈ ns, s.hasNode n.id = true) :
    s.addNodes ns = ({ refused := ns.length }, s) := by
  induction ns using List.reverseRecOn with
  | nil => rfl
  | append_singleton ns n ih =>
    obtain ⟨hns, hn⟩ := List.forall_mem_append.1 h
    have hstep : s.addNodes (ns ++ [n]) = countNode (s.addNodes ns) n := List.foldl_append
    rw [hstep, ih hns, countNode, attempt, addNode, if_pos (hn n (by simp)), List.length_append,
      List.length_singleton]

/-- Entities with free and distinct ids are all added. -/
theorem addNodes_spec {ns : List Node} (hfree : ∀ n ∈ ns, s.nodes[n.id]? = none)
    (hd : ns.Pairwise (·.id ≠ ·.id)) (c : Tally) :
    (ns.foldl countNode (c, s)).1 = { c with added := c.added + ns.length } ∧
      (ns.foldl countNode (c, s)).2.edges = s.edges ∧
      ∀ {id : String} {n : Node}, (ns.foldl countNode (c, s)).2.nodes[id]? = some n ↔
        s.nodes[id]? = some n ∨ ∃ m ∈ ns, m.id = id ∧ m.takeLabel = n := by
  induction ns generalizing s c with
  | nil => simp
  | cons m ns ih =>
    obtain ⟨hne, hd⟩ := List.pairwise_cons.1 hd
    have hm : s.nodes[m.id]? = none := hfree m (by simp)
    have hget : ∀ {id : String}, (s.register m).nodes[id]? =
        if m.id = id then some m.takeLabel else s.nodes[id]? := by
      intro id
      rw [register, Std.ExtTreeMap.getElem?_insert]
      simp
    have hfree' : ∀ n ∈ ns, (s.register m).nodes[n.id]? = none := by
      intro n hn
      rw [hget, if_neg (hne n hn)]
      exact hfree n (by simp [hn])
    obtain ⟨hcount, hedges, hnodes⟩ := ih hfree' hd { c with added := c.added + 1 }
    rw [List.foldl_cons, countNode_of_free hm]
    refine ⟨by rw [hcount, List.length_cons, Nat.add_right_comm, Nat.add_assoc], hedges, ?_⟩
    intro id n
    rw [hnodes, hget]
    by_cases hid : m.id = id
    · subst hid
      simp [hm]
    · simp [hid]

/-- Adding entities keeps a store coherent. -/
theorem Coherent.addNodes (hc : s.Coherent) (ns : List Node) : (s.addNodes ns).2.Coherent :=
  Steps.coherent (Steps.addNodes (P := fun _ => True) hc fun _ _ => trivial) hc

/-! ## Relations -/

/-- A relation with a free key that contains no entity in itself is added and counted. -/
theorem countEdge_of_free {c : Tally} {e : Edge} (h : s.edges[e.toEdgeKey]? = none)
    (hself : e.isSelfContainment = false) :
    countEdge (c, s) e = ({ c with added := c.added + 1 }, s.registerEdge e) := by
  have hfree : s.edges.contains e.toEdgeKey = false := by
    rw [Std.ExtTreeMap.contains_eq_isSome_getElem?, h]
    rfl
  rw [countEdge, attempt, addEdge, if_neg (by simp [hself]), if_neg (by simp [hfree])]

/-- A relation that is no rival of those in a store puts nothing out. -/
theorem getElem?_registerEdge_of_not_rivals (hc : s.Coherent) {e : Edge}
    (hrival : ∀ k ∈ s.edges, ¬ e.Rivals k) {key : EdgeKey} :
    (s.registerEdge e).edges[key]? = if key = e.toEdgeKey then some e else s.edges[key]? := by
  rw [getElem?_registerEdge hc]
  split
  · rfl
  · split
    · next hr =>
      refine (Option.eq_none_iff_forall_ne_some.2 ?_).symm
      intro e' he'
      exact hrival key (mem_edges_iff.2 ⟨e', he'⟩) ⟨hr.1, hr.2.2, hr.2.1.symm⟩
    · rfl

/-- Relations with free and distinct keys, none of which contains an entity in itself or is a rival
of another, are all added and put nothing out. -/
theorem addEdges_spec {es : List Edge} (hc : s.Coherent)
    (hfree : ∀ e ∈ es, s.edges[e.toEdgeKey]? = none)
    (hself : ∀ e ∈ es, e.isSelfContainment = false)
    (hrival : ∀ e ∈ es, ∀ k ∈ s.edges, ¬ e.Rivals k)
    (hd : es.Pairwise fun e e' => e.toEdgeKey ≠ e'.toEdgeKey ∧ ¬ e'.Rivals e.toEdgeKey)
    (c : Tally) :
    (es.foldl countEdge (c, s)).1 = { c with added := c.added + es.length } ∧
      (es.foldl countEdge (c, s)).2.nodes = s.nodes ∧
      ∀ {key : EdgeKey} {e : Edge}, (es.foldl countEdge (c, s)).2.edges[key]? = some e ↔
        s.edges[key]? = some e ∨ e ∈ es ∧ e.toEdgeKey = key := by
  induction es generalizing s c with
  | nil => simp
  | cons x es ih =>
    obtain ⟨hne, hd⟩ := List.pairwise_cons.1 hd
    have hx : s.edges[x.toEdgeKey]? = none := hfree x (by simp)
    have hget : ∀ {key : EdgeKey}, (s.registerEdge x).edges[key]? =
        if key = x.toEdgeKey then some x else s.edges[key]? :=
      getElem?_registerEdge_of_not_rivals hc (hrival x (by simp))
    have hstep : Step (fun _ => True) s (s.registerEdge x) :=
      .registerEdge (hself x (by simp)) hx trivial
    have hfree' : ∀ e ∈ es, (s.registerEdge x).edges[e.toEdgeKey]? = none := by
      intro e he
      rw [hget, if_neg (hne e he).1.symm]
      exact hfree e (by simp [he])
    have hrival' : ∀ e ∈ es, ∀ k ∈ (s.registerEdge x).edges, ¬ e.Rivals k := by
      intro e he k hk
      obtain ⟨e', hk⟩ := mem_edges_iff.1 hk
      rw [hget] at hk
      split at hk
      · next hkey => rw [hkey]; exact (hne e he).2
      · exact hrival e (by simp [he]) k (mem_edges_iff.2 ⟨e', hk⟩)
    obtain ⟨hcount, hnodes, hedges⟩ := ih (hstep.coherent hc) hfree'
      (fun e he => hself e (by simp [he])) hrival' hd { c with added := c.added + 1 }
    rw [List.foldl_cons, countEdge_of_free hx (hself x (by simp))]
    refine ⟨by rw [hcount, List.length_cons, Nat.add_right_comm, Nat.add_assoc],
      hnodes.trans registerEdge_nodes, ?_⟩
    intro key e
    rw [hedges, hget, List.mem_cons]
    by_cases hkey : key = x.toEdgeKey
    · subst hkey
      rw [if_pos rfl, hx, Option.some.injEq]
      constructor
      · rintro (rfl | ⟨he, hk⟩)
        · exact .inr ⟨.inl rfl, rfl⟩
        · exact .inr ⟨.inr he, hk⟩
      · rintro (h | ⟨rfl | he, hk⟩)
        · cases h
        · exact .inl rfl
        · exact .inr ⟨he, hk⟩
    · rw [if_neg hkey]
      refine or_congr_right (and_congr_left fun hk => ?_)
      exact ⟨.inr, fun h => h.resolve_left fun he => hkey (by rw [← hk, he])⟩

/-- Adding relations keeps a store coherent. -/
theorem Coherent.addEdges (hc : s.Coherent) (es : List Edge) : (s.addEdges es).2.Coherent :=
  Steps.coherent (Steps.addEdges (P := fun _ => True) hc fun _ _ => trivial) hc

/-! ## Attributes -/

theorem getElem?_mergeEdgeAttributes {k key : EdgeKey} {a : Attributes} :
    ((s.mergeEdgeAttributes k a).getD s).edges[key]? =
      if key = k then s.edges[key]?.map fun e => { e with attributes := e.attributes.merge a }
      else s.edges[key]? := by
  cases hk : s.edges[k]? with
  | none =>
    simp only [mergeEdgeAttributes, hk, Option.map_none, Option.getD_none]
    split
    · next h => rw [h, hk]; rfl
    · rfl
  | some e =>
    simp only [mergeEdgeAttributes, hk, Option.map_some, Option.getD_some,
      Std.ExtTreeMap.getElem?_insert, Std.LawfulEqCmp.compare_eq_iff_eq]
    by_cases h : key = k
    · subst h
      simp [hk]
    · simp [h, Ne.symm h]

theorem mergeEdgeAttributes_nodes {k : EdgeKey} {a : Attributes} :
    ((s.mergeEdgeAttributes k a).getD s).nodes = s.nodes := by
  unfold mergeEdgeAttributes
  cases s.edges[k]? <;> rfl

/-- Giving several relations more attributes gives them to the relations with their keys. -/
theorem getElem?_foldl_merge {es : List Edge} {a : Attributes}
    (hd : es.Pairwise (·.toEdgeKey ≠ ·.toEdgeKey)) {key : EdgeKey} :
    (es.foldl (fun s e => (s.mergeEdgeAttributes e.toEdgeKey a).getD s) s).edges[key]? =
      if key ∈ es.map (·.toEdgeKey) then
        s.edges[key]?.map fun e => { e with attributes := e.attributes.merge a }
      else s.edges[key]? := by
  induction es generalizing s with
  | nil => simp
  | cons x es ih =>
    obtain ⟨hne, hd⟩ := List.pairwise_cons.1 hd
    rw [List.foldl_cons, ih hd, getElem?_mergeEdgeAttributes, List.map_cons]
    by_cases hkey : key = x.toEdgeKey
    · subst hkey
      have hnot : x.toEdgeKey ∉ es.map (·.toEdgeKey) := by
        intro hmem
        obtain ⟨e, he, hkey⟩ := List.mem_map.1 hmem
        exact hne e he hkey.symm
      rw [if_neg hnot, if_pos rfl, if_pos List.mem_cons_self]
    · simp only [List.mem_cons, hkey, false_or, if_false]

theorem foldl_merge_nodes {es : List Edge} {a : Attributes} :
    (es.foldl (fun s e => (s.mergeEdgeAttributes e.toEdgeKey a).getD s) s).nodes = s.nodes := by
  induction es generalizing s with
  | nil => rfl
  | cons x es ih => rw [List.foldl_cons, ih, mergeEdgeAttributes_nodes]

/-- What a block for an entity does. -/
theorem applyBlock_entity {b : Block} {id : String} (hb : b.target = .entity id) :
    s.applyBlock b = match s.nodes[id]? with
      | some n => (0, s.setNode id { n with
          attributes := n.attributes.merge (b.attributes.erase labelKey) })
      | none => (1, s) := by
  simp only [applyBlock, hb, mergeNodeAttributes]
  cases s.nodes[id]? <;> rfl

/-- The relations that a block is meant for. -/
theorem mem_targets (hc : s.Coherent) {source dest : String} {key : EdgeKey} :
    key ∈ ((s.edgesFrom source none).filter (·.dest = dest)).map (·.toEdgeKey) ↔
      key ∈ s.edges ∧ key.source = source ∧ key.dest = dest := by
  rw [hc.edgesFrom_eq]
  simp only [List.mem_map, List.mem_filter, mem_edgeList hc, Option.all_none, Bool.and_true,
    decide_eq_true_eq, mem_edges_iff]
  constructor
  · rintro ⟨e, ⟨⟨he, hs⟩, hd⟩, rfl⟩
    exact ⟨⟨e, he⟩, hs, hd⟩
  · rintro ⟨⟨e, he⟩, hs, hd⟩
    obtain rfl := hc.edge_key he
    exact ⟨e, ⟨⟨he, hs⟩, hd⟩, rfl⟩

/-- What a block for relations does. -/
theorem applyBlock_pair {b : Block} {source dest : String} (hb : b.target = .pair source dest) :
    (s.applyBlock b).2 = ((s.edgesFrom source none).filter (·.dest = dest)).foldl
      (fun s e => (s.mergeEdgeAttributes e.toEdgeKey b.attributes).getD s) s := by
  unfold applyBlock
  rw [hb]
  dsimp only
  split
  · next h => rw [h]; rfl
  · rfl

/-- A block changes the attributes of its target, if that is an entity. -/
theorem getElem?_applyBlock_nodes {b : Block} {id : String} :
    (s.applyBlock b).2.nodes[id]? =
      s.nodes[id]?.map fun n => { n with attributes := b.onNode id n.attributes } := by
  unfold Block.onNode
  cases hb : b.target with
  | entity i =>
    rw [applyBlock_entity hb]
    by_cases hid : i = id
    · subst hid
      cases hn : s.nodes[i]? <;> simp [setNode, hn]
    · cases hn : s.nodes[i]? <;> simp [setNode, Std.ExtTreeMap.getElem?_insert, hid]
  | pair source dest =>
    rw [applyBlock_pair hb, foldl_merge_nodes]
    simp

/-- A block changes the attributes of its targets, if these are relations. -/
theorem getElem?_applyBlock_edges (hc : s.Coherent) {b : Block} {key : EdgeKey} :
    (s.applyBlock b).2.edges[key]? =
      s.edges[key]?.map fun e => { e with attributes := b.onEdge key e.attributes } := by
  unfold Block.onEdge
  cases hb : b.target with
  | entity i =>
    rw [applyBlock_entity hb]
    cases s.nodes[i]? <;> simp [setNode]
  | pair source dest =>
    have hd : ((s.edgesFrom source none).filter (·.dest = dest)).Pairwise
        (·.toEdgeKey ≠ ·.toEdgeKey) := by
      rw [hc.edgesFrom_eq]
      exact (hc.pairwise_key_ne.filter _).filter _
    rw [applyBlock_pair hb, getElem?_foldl_merge hd]
    simp only [mem_targets hc]
    by_cases hkey : source = key.source ∧ dest = key.dest
    · obtain ⟨rfl, rfl⟩ := hkey
      cases hk : s.edges[key]? with
      | none => simp
      | some e => simp [mem_edges_iff, hk]
    · rw [if_neg fun h => hkey ⟨h.2.1.symm, h.2.2.symm⟩]
      simp [hkey]

theorem applyBlocks_snd (blocks : List Block) :
    (s.applyBlocks blocks).2 = blocks.foldl (fun s b => (s.applyBlock b).2) s := by
  have key : ∀ (m : Nat) (s : Store),
      (blocks.foldl (fun x b => (x.1 + (x.2.applyBlock b).1, (x.2.applyBlock b).2)) (m, s)).2 =
        blocks.foldl (fun s b => (s.applyBlock b).2) s := by
    induction blocks with
    | nil => exact fun _ _ => rfl
    | cons b blocks ih => exact fun m s => ih (m + (s.applyBlock b).1) (s.applyBlock b).2
  exact key 0 s

/-- Blocks change the attributes of the entities that they are meant for, in order. -/
theorem getElem?_applyBlocks_nodes {blocks : List Block} {id : String} :
    (s.applyBlocks blocks).2.nodes[id]? = s.nodes[id]?.map fun n =>
      { n with attributes := blocks.foldl (fun a b => b.onNode id a) n.attributes } := by
  rw [applyBlocks_snd]
  induction blocks generalizing s with
  | nil => simp
  | cons b blocks ih =>
    rw [List.foldl_cons, ih, getElem?_applyBlock_nodes, Option.map_map]
    rfl

/-- Applying a block keeps a store coherent. -/
theorem Coherent.applyBlock (hc : s.Coherent) (b : Block) : (s.applyBlock b).2.Coherent :=
  Steps.coherent (Steps.applyBlock Attributes.rule_true hc b) hc

/-- Applying blocks keeps a store coherent. -/
theorem Coherent.applyBlocks (hc : s.Coherent) (blocks : List Block) :
    (s.applyBlocks blocks).2.Coherent :=
  Steps.coherent (Steps.applyBlocks Attributes.rule_true hc blocks) hc

/-- Blocks change the attributes of the relations that they are meant for, in order. -/
theorem getElem?_applyBlocks_edges (hc : s.Coherent) {blocks : List Block} {key : EdgeKey} :
    (s.applyBlocks blocks).2.edges[key]? = s.edges[key]?.map fun e =>
      { e with attributes := blocks.foldl (fun a b => b.onEdge key a) e.attributes } := by
  rw [applyBlocks_snd]
  induction blocks generalizing s with
  | nil => simp
  | cons b blocks ih =>
    rw [List.foldl_cons, ih (hc.applyBlock b), getElem?_applyBlock_edges hc, Option.map_map]
    rfl

/-- Whether something that a block is meant for is there. -/
def Meets (s : Store) (b : Block) : Prop :=
  match b.target with
  | .entity id => ∃ n, s.nodes[id]? = some n
  | .pair source dest => ∃ key ∈ s.edges, key.source = source ∧ key.dest = dest

instance (s : Store) (b : Block) : Decidable (s.Meets b) :=
  match hb : b.target with
  | .entity id =>
    decidable_of_iff (s.nodes[id]?.isSome = true)
      (by simp only [Meets, hb, Option.isSome_iff_exists])
  | .pair source dest =>
    decidable_of_iff (∃ key ∈ s.edges.keys, key.source = source ∧ key.dest = dest)
      (by simp only [Meets, hb, Std.ExtTreeMap.mem_keys])

/-- A block is in vain exactly if nothing that it is meant for is there. -/
theorem applyBlock_fst (hc : s.Coherent) (b : Block) :
    (s.applyBlock b).1 = if s.Meets b then 0 else 1 := by
  cases hb : b.target with
  | entity id =>
    rw [applyBlock_entity hb]
    cases hn : s.nodes[id]? <;> simp [Meets, hb, hn]
  | pair source dest =>
    have hnil : (s.edgesFrom source none).filter (·.dest = dest) = [] ↔ ¬ s.Meets b := by
      rw [← List.map_eq_nil_iff (f := Edge.toEdgeKey), List.eq_nil_iff_forall_not_mem]
      simp only [mem_targets hc, Meets, hb, not_exists]
    unfold Store.applyBlock
    rw [hb]
    dsimp only
    split
    · next h => rw [if_neg (hnil.1 h)]
    · next h => rw [if_pos (Classical.not_not.1 fun hmeets => h (hnil.2 hmeets))]

/-- Blocks bring in nothing that a block is meant for, and take nothing of it away. -/
theorem meets_applyBlock (hc : s.Coherent) {b b' : Block} :
    (s.applyBlock b').2.Meets b ↔ s.Meets b := by
  unfold Meets
  split
  · simp only [getElem?_applyBlock_nodes, ← Option.isSome_iff_exists, Option.isSome_map]
  · simp only [Std.ExtTreeMap.mem_iff_isSome_getElem?, getElem?_applyBlock_edges hc,
      Option.isSome_map]

theorem meets_applyBlocks (hc : s.Coherent) {blocks : List Block} {b : Block} :
    (s.applyBlocks blocks).2.Meets b ↔ s.Meets b := by
  rw [applyBlocks_snd]
  induction blocks generalizing s with
  | nil => rfl
  | cons b' blocks ih => rw [List.foldl_cons, ih (hc.applyBlock b'), meets_applyBlock hc]

/-- The blocks in vain are those for which nothing that they are meant for is there. -/
theorem applyBlocks_fst (hc : s.Coherent) (blocks : List Block) :
    (s.applyBlocks blocks).1 = blocks.countP fun b => ¬ s.Meets b := by
  suffices h : ∀ m, (blocks.foldl (fun x b =>
      (x.1 + (x.2.applyBlock b).1, (x.2.applyBlock b).2)) (m, s)).1 =
        m + blocks.countP fun b => ¬ s.Meets b from (h 0).trans (Nat.zero_add _)
  induction blocks generalizing s with
  | nil => exact fun _ => rfl
  | cons b blocks ih =>
    intro m
    rw [List.foldl_cons, ih (hc.applyBlock b), List.countP_cons, applyBlock_fst hc]
    simp only [meets_applyBlock hc]
    by_cases hb : s.Meets b
    · simp [hb]
    · simp [hb]
      omega

/-! ## Resolution -/

/-- A relation that has both ends is settled by resolving it. -/
theorem settle_of_hasEnds {e : Edge} (h : s.hasEnds e.toEdgeKey = true) :
    s.settle e = some { e with resolved := true } := by
  rw [settle_eq_ite, if_pos (.inr h)]

/-- If every relation has both ends, all are resolved and none is dropped. -/
theorem resolve_spec (hc : s.Coherent) (h : ∀ key ∈ s.edges, s.hasEnds key = true) :
    s.resolve.1 = { resolved := s.resolve.2.edges.size, unresolved := 0 } ∧
      ∀ {key : EdgeKey}, s.resolve.2.edges[key]? =
        s.edges[key]?.map fun e => { e with resolved := true } := by
  have hsettle : ∀ {key : EdgeKey} {e}, s.edges[key]? = some e →
      s.settle e = some { e with resolved := true } := by
    intro key e he
    have hkey : e.toEdgeKey = key := hc.edge_key he
    exact settle_of_hasEnds (hkey ▸ h key (mem_edges_iff.2 ⟨e, he⟩))
  refine ⟨?_, ?_⟩
  · have hdangling : (s.edges.toList.filter fun x => (s.settle x.2).isNone).map (·.1) = [] := by
      refine List.eq_nil_iff_forall_not_mem.2 ?_
      intro key hk
      obtain ⟨e, he, hnone⟩ := mem_dangling.1 hk
      rw [hsettle he] at hnone
      cases hnone
    unfold resolve
    simp only [hdangling]
    rfl
  · intro key
    rw [getElem?_resolve]
    cases he : s.edges[key]? with
    | none => rfl
    | some e => exact hsettle he

end

end Store

end ArchFacts
