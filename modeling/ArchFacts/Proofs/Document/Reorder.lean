import ArchFacts.Proofs.Document.Fill
import ArchFacts.Proofs.History

/-!
# The order of lines

A document is built line by line, but what it leaves in a store does not depend on the order of the
lines, as long as blocks for one target keep theirs (`apply_reordered`). Pairs of one relation are
sorted anyhow, so two orders of the same lines declare the same entities in the same order
(`filterMap_nodeOf?_eq`), and state the same relations of each kind in the same order
(`shuffled_stated`). What is left open is how kinds are interleaved, and blocks for different
targets. Relations of different kinds may change places when they are offered to a store
(`countEdge_comm_of_kind`), since a parent puts out parents only, and so may blocks for different
targets when they are applied (`countBlock_comm`).
-/

namespace ArchFacts

/-! ## Lists that differ in the order of keys -/

/-- Whether two lists have the same members, those with one key in the same order. -/
def Shuffled {α κ : Type} [DecidableEq κ] (key : α → κ) (l l' : List α) : Prop :=
  ∀ k, l.filter (key · = k) = l'.filter (key · = k)

namespace Shuffled

section
variable {α κ : Type} [DecidableEq κ] {key : α → κ} {l l' : List α} {a b : α}

/-- Neighbours with different keys may change places. -/
theorem swap (h : key a ≠ key b) : Shuffled key (a :: b :: l) (b :: a :: l) := by
  intro k
  by_cases ha : key a = k
  · have hb : key b ≠ k := fun hb => h (ha.trans hb.symm)
    simp [ha, hb]
  · simp [List.filter_cons, ha]

/-- Lists that differ in the order of keys only have the same members, each as often. -/
theorem perm (h : Shuffled key l l') : l.Perm l' := by
  classical
  refine List.perm_iff_count.2 fun a => ?_
  have hcount : ∀ l : List α, (l.filter (key · = key a)).count a = l.count a :=
    fun _ => List.count_filter (by simp)
  rw [← hcount l, ← hcount l', h]

/-- The first member of one list stands in the other after members with other keys only. -/
theorem exists_append (h : Shuffled key (a :: l) l') :
    ∃ before after, l' = before ++ a :: after ∧ (∀ b ∈ before, key b ≠ key a) ∧
      Shuffled key l (before ++ after) := by
  have ha := h (key a)
  rw [List.filter_cons_of_pos (by simp), eq_comm, List.filter_eq_cons_iff] at ha
  obtain ⟨before, after, rfl, hbefore, -, hafter⟩ := ha
  have hne : ∀ b ∈ before, key b ≠ key a := by simpa using hbefore
  refine ⟨before, after, rfl, hne, fun k => ?_⟩
  by_cases hk : key a = k
  · subst hk
    have hnil : before.filter (key · = key a) = [] := List.filter_eq_nil_iff.2 (by simpa using hne)
    rw [List.filter_append, hnil, hafter, List.nil_append]
  · have hrest := h k
    rwa [List.filter_cons_of_neg (by simpa using hk), List.filter_append,
      List.filter_cons_of_neg (by simpa using hk), ← List.filter_append] at hrest

section
variable {σ : Type} {P : σ → Prop} {step : σ → α → σ} {x : σ}

omit [DecidableEq κ] in
/-- A step may be taken before the steps for members with other keys. -/
theorem step_foldl (hP : ∀ x a, P x → P (step x a))
    (hcomm : ∀ x a b, P x → key a ≠ key b → step (step x a) b = step (step x b) a)
    (hx : P x) (hne : ∀ b ∈ l, key b ≠ key a) :
    step (l.foldl step x) a = l.foldl step (step x a) := by
  induction l generalizing x with
  | nil => rfl
  | cons b l ih =>
    obtain ⟨hb, hne⟩ := List.forall_mem_cons.1 hne
    rw [List.foldl_cons, List.foldl_cons, ih (hP x b hx) hne, hcomm x b a hx hb]

/-- A pass whose steps for members with different keys may change places ends the same over lists
that differ in the order of keys only. -/
theorem foldl_eq (hP : ∀ x a, P x → P (step x a))
    (hcomm : ∀ x a b, P x → key a ≠ key b → step (step x a) b = step (step x b) a)
    (h : Shuffled key l l') (hx : P x) : l.foldl step x = l'.foldl step x := by
  induction l generalizing l' x with
  | nil => rw [h.perm.nil_eq]
  | cons a l ih =>
    obtain ⟨before, after, rfl, hne, hrest⟩ := h.exists_append
    calc (a :: l).foldl step x
      _ = (before ++ after).foldl step (step x a) := ih hrest (hP x a hx)
      _ = after.foldl step (before.foldl step (step x a)) := List.foldl_append
      _ = after.foldl step (step (before.foldl step x) a) := by rw [step_foldl hP hcomm hx hne]
      _ = (before ++ a :: after).foldl step x := by rw [List.foldl_append, List.foldl_cons]

end

end

end Shuffled

namespace Store

section
variable {s : Store} {x : Tally × Store} {e e' : Edge} {b b' : Block}

/-! ## Relations of different kinds -/

/-- Relations of different kinds may be offered in any order, and are counted in any order. -/
theorem countEdge_comm_of_kind (hc : x.2.Coherent) (h : e.kind ≠ e'.kind) :
    countEdge (countEdge x e) e' = countEdge (countEdge x e') e :=
  countEdge_comm hc (fun hkey => h (congrArg EdgeKey.kind hkey))
    fun hr => h (hr.1.trans hr.2.1.symm)

/-! ## Blocks for different targets -/

/-- Blocks for different targets change the attributes of an entity or relation in any order. -/
theorem applyBlock_comm (hc : s.Coherent) (h : b.target ≠ b'.target) :
    ((s.applyBlock b).2.applyBlock b').2 = ((s.applyBlock b').2.applyBlock b).2 := by
  have hnode : ∀ id a, b'.onNode id (b.onNode id a) = b.onNode id (b'.onNode id a) := by
    intro id a
    unfold Block.onNode
    by_cases hb : b.target = .entity id
    · have hb' : b'.target ≠ .entity id := fun hb' => h (hb.trans hb'.symm)
      rw [if_neg hb', if_neg hb']
    · rw [if_neg hb, if_neg hb]
  have hedge : ∀ key a, b'.onEdge key (b.onEdge key a) = b.onEdge key (b'.onEdge key a) := by
    intro key a
    unfold Block.onEdge
    by_cases hb : b.target = .pair key.source key.dest
    · have hb' : b'.target ≠ .pair key.source key.dest := fun hb' => h (hb.trans hb'.symm)
      rw [if_neg hb', if_neg hb']
    · rw [if_neg hb, if_neg hb]
  refine ((hc.applyBlock b).applyBlock b').ext ((hc.applyBlock b').applyBlock b)
    (Std.ExtTreeMap.ext_getElem? fun id => ?_) (Std.ExtTreeMap.ext_getElem? fun key => ?_)
  · simp only [getElem?_applyBlock_nodes, Option.map_map, Function.comp_def, hnode]
  · simp only [getElem?_applyBlock_edges hc, getElem?_applyBlock_edges (hc.applyBlock _),
      Option.map_map, Function.comp_def, hedge]

/-- Applying blocks for different targets and counting those in vain goes in any order. -/
theorem countBlock_comm {x : Nat × Store} (hc : x.2.Coherent) (h : b.target ≠ b'.target) :
    let count := fun (x : Nat × Store) (b : Block) =>
      (x.1 + (x.2.applyBlock b).1, (x.2.applyBlock b).2)
    count (count x b) b' = count (count x b') b := by
  intro count
  refine Prod.ext ?_ (applyBlock_comm hc h)
  simp only [count, applyBlock_fst hc, applyBlock_fst (hc.applyBlock _), meets_applyBlock hc]
  omega

/-- Adding relations ends the same in every order that keeps the order of those of one kind. -/
theorem addEdges_eq_of_shuffled (hc : s.Coherent) {es es' : List Edge}
    (h : Shuffled (·.kind) es es') : s.addEdges es = s.addEdges es' :=
  h.foldl_eq (P := fun x : Tally × Store => x.2.Coherent)
    (fun x e hx => countEdge_snd x e ▸ hx.offer e)
    (fun _ _ _ hx hne => countEdge_comm_of_kind hx hne) hc

/-- Applying blocks ends the same in every order that keeps the order of those for one target. -/
theorem applyBlocks_eq_of_shuffled (hc : s.Coherent) {bs bs' : List Block}
    (h : Shuffled Block.target bs bs') : s.applyBlocks bs = s.applyBlocks bs' :=
  h.foldl_eq (P := fun x : Nat × Store => x.2.Coherent)
    (fun _ b hx => hx.applyBlock b) (fun _ _ _ hx hne => countBlock_comm hx hne) hc

end

end Store

/-! ## Documents -/

namespace Statement

/-- The pair that a line adds, with the name of its relation. -/
def toTuple? : Statement → Option (String × Pair)
  | tuple relation pair _ => some (relation, pair)
  | block _ => none

/-- The block that a line adds. -/
def toBlock? : Statement → Option Block
  | tuple .. => none
  | block b => some b

end Statement

namespace Document

/-- A document with one more line. -/
def add (d : Document) : Statement → Document
  | .tuple relation pair line => d.addTuple relation pair line
  | .block b => d.addBlock b

section
variable {config : Config} {d d' : Document} {s : Store} {t : String × Pair} {id : String}
variable {ss ss' : List Statement}

/-- A document that is built line by line is the document of the lines. -/
theorem foldl_add (ss : List Statement) : ss.foldl add ∅ = ofStatements ss := by
  induction ss using List.reverseRecOn with
  | nil => rfl
  | append_singleton ss s ih =>
    rw [List.foldl_append, ih, List.foldl_cons, List.foldl_nil]
    cases s <;> simp [add, addTuple, addBlock, ofStatements]

theorem mem_tuples_ofStatements_iff :
    t ∈ (ofStatements ss).tuples ↔ t ∈ ss.filterMap Statement.toTuple? := by
  rw [mem_tuples_ofStatements, List.mem_filterMap]
  constructor
  · rintro ⟨line, hmem⟩
    exact ⟨_, hmem, rfl⟩
  · rintro ⟨s, hmem, hs⟩
    cases s with
    | tuple relation pair line =>
      cases hs
      exact ⟨line, hmem⟩
    | block b => cases hs

/-- Tidy relations with the same pairs list those of one relation in the same order. -/
theorem shuffled_tuples (ht : Tidy d.relations) (ht' : Tidy d'.relations)
    (h : ∀ t, t ∈ d.tuples ↔ t ∈ d'.tuples) : Shuffled Prod.fst d.tuples d'.tuples := by
  have hsorted : ∀ {d : Document}, Tidy d.relations → ∀ name,
      (d.tuples.filter (·.1 = name)).Pairwise fun t t' => compare t.2 t'.2 = .lt := by
    intro d ht name
    refine (ht.pairwise_tuples.filter _).imp_of_mem fun hmem hmem' hlt => hlt ?_
    rw [List.mem_filter, decide_eq_true_eq] at hmem hmem'
    exact hmem.2.trans hmem'.2.symm
  intro name
  refine eq_of_pairwise_lt (hsorted ht name) (hsorted ht' name) fun t => ?_
  rw [List.mem_filter, List.mem_filter, h]

/-- Documents whose pairs differ in the order of relations only declare the same entities in the
same order. -/
theorem filterMap_nodeOf?_eq (h : Shuffled Prod.fst d.tuples d'.tuples) :
    d.tuples.filterMap (nodeOf? config) = d'.tuples.filterMap (nodeOf? config) := by
  have hentities : ∀ d : Document, d.tuples.filterMap (nodeOf? config) =
      (d.tuples.filter (·.1 = config.entityRelation)).filterMap (nodeOf? config) := by
    intro d
    rw [List.filterMap_filter]
    refine List.filterMap_congr fun t _ => ?_
    by_cases hname : t.1 = config.entityRelation <;> simp [nodeOf?, hname]
  rw [hentities d, hentities d', h]

/-- Documents whose pairs differ in the order of relations only state relations that differ in the
order of kinds only. -/
theorem shuffled_stated (h : Shuffled Prod.fst d.tuples d'.tuples) :
    Shuffled (fun e : Edge => e.kind) (d.stated config) (d'.stated config) := by
  have hkind : ∀ (d : Document) (kind : EdgeKind), (d.stated config).filter (·.kind = kind) =
      (d.tuples.filter (·.1 = kind.tag)).filterMap (edgeOf? config) := by
    intro d kind
    rw [stated, List.filter_filterMap, List.filterMap_filter]
    refine List.filterMap_congr fun t _ => ?_
    cases he : edgeOf? config t with
    | none => simp
    | some e =>
      obtain ⟨-, rfl, -⟩ := edgeOf?_eq_some.1 he
      by_cases hk : e.kind = kind <;> simp [EdgeKind.tag_inj, hk]
  intro kind
  rw [hkind d, hkind d', h]

/-- Documents whose blocks differ in the order of targets only give every entity the same name. -/
theorem withLabel_eq (h : Shuffled Block.target (d.blocks.map Block.unlined)
    (d'.blocks.map Block.unlined)) : d.withLabel = d'.withLabel := by
  have hlabel : d.label? = d'.label? := by
    funext id
    rw [← label?_unlined, ← label?_unlined (d := d'), label?_eq, label?_eq, valuesFor, valuesFor]
    exact congrArg (fun bs => (bs.flatMap (·.attributes.values labelKey)).head?) (h (.entity id))
  funext n
  rw [withLabel, withLabel, hlabel]

/-- Documents with the same pairs, and with blocks that differ in the order of targets only, do the
same to a store. -/
theorem apply_eq_of_shuffled (hc : s.Coherent) (ht : Tidy d.relations) (ht' : Tidy d'.relations)
    (hk : ∀ t ∈ d.tuples, config.Knows t) (hmem : ∀ t, t ∈ d.tuples ↔ t ∈ d'.tuples)
    (hb : Shuffled Block.target (d.blocks.map Block.unlined) (d'.blocks.map Block.unlined)) :
    ∃ report s', d.apply config s = .ok (report, s') ∧ d'.apply config s = .ok (report, s') := by
  have htuples : Shuffled Prod.fst d.tuples d'.tuples := shuffled_tuples ht ht' hmem
  have hk' : ∀ t ∈ d'.tuples, config.Knows t := fun t ht => hk t ((hmem t).2 ht)
  have hstated : Shuffled (fun e : Edge => e.kind) (d.stated config) (d'.stated config) :=
    shuffled_stated htuples
  have hdeclared : d.declared config = d'.declared config := by
    rw [declared, declared, withLabel_eq hb, filterMap_nodeOf?_eq htuples]
  have hpopulate : d.populate config s = d'.populate config s := by
    rw [populate, populate, hdeclared]
  have hedges : (d.populate config s).addEdges (d.stated config) =
      (d.populate config s).addEdges (d'.stated config) :=
    Store.addEdges_eq_of_shuffled (coherent_populate hc) hstated
  have hlink : d.link config s = d'.link config s := by
    rw [link, link, ← Store.addEdges_snd, ← Store.addEdges_snd, hedges, hpopulate]
  have hblocks : (d.link config s).applyBlocks d.blocks =
      (d.link config s).applyBlocks d'.blocks := by
    rw [← applyBlocks_unlined, Store.applyBlocks_eq_of_shuffled (coherent_link hc) hb,
      applyBlocks_unlined]
  have hreport : d.report config s = d'.report config s := by
    rw [report, report, hblocks, hedges, hlink, hpopulate, hdeclared]
  refine ⟨_, _, apply_eq_ok ht.nonempty hk, ?_⟩
  rw [apply_eq_ok ht'.nonempty hk', hreport, hblocks, hlink]

/-- **The order of lines does not matter.** Two documents are built line by line, of the same pairs
in any two orders, all known to the settings, and of blocks that differ in the order of targets
only. Then both are put into the store after any history, with the same report and with the same
store, indices included. -/
theorem apply_reordered {history : List Change}
    (hk : ∀ t ∈ ss.filterMap Statement.toTuple?, config.Knows t)
    (ht : (ss.filterMap Statement.toTuple?).Perm (ss'.filterMap Statement.toTuple?))
    (hb : Shuffled Block.target ((ss.filterMap Statement.toBlock?).map Block.unlined)
      ((ss'.filterMap Statement.toBlock?).map Block.unlined)) :
    let g := Store.after history
    ∃ report s, (ss.foldl add ∅).apply config g = .ok (report, s) ∧
      (ss'.foldl add ∅).apply config g = .ok (report, s) := by
  intro g
  rw [foldl_add, foldl_add]
  refine apply_eq_of_shuffled (Store.coherent_after history) (tidy_ofStatements ss)
    (tidy_ofStatements ss') ?_ ?_ hb
  · exact fun t hmem => hk t (mem_tuples_ofStatements_iff.1 hmem)
  · exact fun t => by simp only [mem_tuples_ofStatements_iff, ht.mem_iff]

/-- Lines that name three parents of a file, of which one is the file itself, declare its id with
two kinds, and give it two labels. -/
def mixedLines : List Statement :=
  [.tuple "contain" ⟨"a", "f"⟩ 1, .tuple "$INSTANCE" ⟨"f", "function"⟩ 2,
    .tuple "contain" ⟨"f", "f"⟩ 3, .tuple "call" ⟨"f", "b"⟩ 4,
    .block ⟨.entity "f", (∅ : Attributes).insert "label" "F", 5⟩,
    .tuple "contain" ⟨"b", "f"⟩ 6, .tuple "$INSTANCE" ⟨"f", "cFile"⟩ 7,
    .block ⟨.pair "b" "f", (∅ : Attributes).insert "line" "1", 8⟩,
    .block ⟨.entity "f", (∅ : Attributes).insert "label" "G", 9⟩]

/-- The same lines in another order. The labels are given in the same order. -/
def remixedLines : List Statement :=
  [.tuple "$INSTANCE" ⟨"f", "cFile"⟩ 1, .tuple "contain" ⟨"b", "f"⟩ 2,
    .block ⟨.pair "b" "f", (∅ : Attributes).insert "line" "1", 3⟩,
    .tuple "call" ⟨"f", "b"⟩ 4, .tuple "contain" ⟨"f", "f"⟩ 5,
    .block ⟨.entity "f", (∅ : Attributes).insert "label" "F", 6⟩,
    .tuple "contain" ⟨"a", "f"⟩ 7, .tuple "$INSTANCE" ⟨"f", "function"⟩ 8,
    .block ⟨.entity "f", (∅ : Attributes).insert "label" "G", 9⟩]

theorem apply_reordered_mixed :
    let g := Store.after [.addEdge { source := "c", dest := "f", kind := .contains }]
    (∀ t ∈ mixedLines.filterMap Statement.toTuple?, Config.Knows {} t) ∧
    (mixedLines.filterMap Statement.toTuple?).Perm (remixedLines.filterMap Statement.toTuple?) ∧
    Shuffled Block.target ((mixedLines.filterMap Statement.toBlock?).map Block.unlined)
      ((remixedLines.filterMap Statement.toBlock?).map Block.unlined) ∧
    ∃ report s, (mixedLines.foldl add ∅).apply {} g = .ok (report, s) ∧
      (remixedLines.foldl add ∅).apply {} g = .ok (report, s) := by
  have hk : ∀ t ∈ mixedLines.filterMap Statement.toTuple?, Config.Knows {} t := by
    unfold Config.Knows
    decide +kernel
  have ht : (mixedLines.filterMap Statement.toTuple?).Perm
      (remixedLines.filterMap Statement.toTuple?) := by decide +kernel
  have hb : Shuffled Block.target ((mixedLines.filterMap Statement.toBlock?).map Block.unlined)
      ((remixedLines.filterMap Statement.toBlock?).map Block.unlined) :=
    .swap (by simp [Block.unlined])
  exact ⟨hk, ht, hb, apply_reordered hk ht hb⟩

end

end Document

end ArchFacts
