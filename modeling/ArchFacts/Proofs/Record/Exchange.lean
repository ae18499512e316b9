import ArchFacts.Proofs.History
import ArchFacts.Proofs.Record.Replay
import ArchFacts.Proofs.Store.Alike

/-!
# The order of requests

An extractor may ask for a relation before or after it asks for its ends. Two neighbouring requests
that create different things, and no two parents of one entity, are `Exchangeable`: each is answered
as if the other were not there, and the stores they leave in the two orders are alike
(`send_exchanged`). Only an entity and a relation that ends at it leave stores that differ, in
whether the relation is resolved. Alike the stores stay through all later requests
(`foldl_step_alike`), until they are resolved and are equal (`resolve_replay_exchanged`).
-/

namespace ArchFacts

namespace Record

/-- Whether two requests create different things, and no two parents of one entity. -/
def Exchangeable : Record → Record → Prop
  | node id _ _, node id' _ _ => id ≠ id'
  | edge key, edge key' => key ≠ key' ∧ ¬ key.Rivals key'
  | node .., edge _ | edge _, node .. => True
  | attr .., _ | _, attr .. => False

end Record

namespace Store

section
variable {s : Store} {e : Edge} {n : Node}

/-! ## Two requests -/

theorem register_comm (hc : s.Coherent) (n n' : Node) (hne : n.id ≠ n'.id)
    (hfree : s.nodes[n.id]? = none) (hfree' : s.nodes[n'.id]? = none) :
    (s.register n).register n' = (s.register n').register n := by
  have hnode : ∀ {n n' : Node}, n.id ≠ n'.id → s.nodes[n'.id]? = none →
      (s.register n).nodes[n'.id]? = none := by
    intro n n' hne hfree'
    rw [register, Std.ExtTreeMap.getElem?_insert, if_neg (by simpa using hne), hfree']
  have hleft := (hc.register hfree).register (hnode hne hfree')
  have hright := (hc.register hfree').register (hnode hne.symm hfree)
  refine hleft.ext hright (Std.ExtTreeMap.ext_getElem? fun id => ?_) rfl
  simp only [register, Std.ExtTreeMap.getElem?_insert, Std.LawfulEqCmp.compare_eq_iff_eq]
  by_cases hid : n.id = id
  · subst hid
    simp [hne.symm]
  · simp [hid]

/-- An entity may be stored before or after a relation is offered. -/
theorem register_offer (hc : s.Coherent) (hfree : s.nodes[n.id]? = none) :
    (s.offer e).register n = (s.register n).offer e := by
  have hfree' : (s.offer e).nodes[n.id]? = none := by rw [offer_nodes, hfree]
  refine ((hc.offer e).register hfree').ext ((hc.register hfree).offer e) ?_
    (Std.ExtTreeMap.ext_getElem? fun key => ?_)
  · rw [offer_nodes, register, register, offer_nodes]
  · have hedges : (s.register n).edges = s.edges := rfl
    have hedges' : ((s.offer e).register n).edges = (s.offer e).edges := rfl
    rw [hedges', getElem?_offer hc, getElem?_offer (hc.register hfree), hedges]

theorem hasNode_register (s : Store) (n : Node) (id : String) :
    (s.register n).hasNode id = (decide (n.id = id) || s.hasNode id) := by
  have heq : (compare n.id id == .eq) = decide (n.id = id) := by
    rw [Bool.eq_iff_iff, beq_iff_eq, decide_eq_true_eq, Std.LawfulEqCmp.compare_eq_iff_eq]
  rw [hasNode, register, Std.ExtTreeMap.contains_insert, heq, hasNode]

/-- Requests for two entities are answered alike in either order, and leave the same. -/
theorem createNode_comm (hc : s.Coherent) {id id' : String} (hne : id ≠ id') (name name' : String)
    (kind kind' : NodeKind) :
    ((s.createNode id name kind).2.createNode id' name' kind').1 =
        (s.createNode id' name' kind').1 ∧
      ((s.createNode id name kind).2.createNode id' name' kind').2 =
        ((s.createNode id' name' kind').2.createNode id name kind).2 := by
  simp only [createNode_eq]
  cases hid : s.hasNode id <;> cases hid' : s.hasNode id'
  case false.false =>
    simpa [hasNode_register, hid, hid', hne, hne.symm] using
      register_comm hc { id, name, kind } { id := id', name := name', kind := kind' }
        hne (hasNode_eq_false_iff.1 hid) (hasNode_eq_false_iff.1 hid')
  all_goals simp [hasNode_register, hid, hid', hne, hne.symm]

/-- Requests for two relations are answered alike in either order, and leave the same. -/
theorem createEdge_comm (hc : s.Coherent) {key key' : EdgeKey} (hne : key ≠ key')
    (hr : ¬ key.Rivals key') :
    ((s.createEdge key).2.createEdge key').1 = (s.createEdge key').1 ∧
      ((s.createEdge key).2.createEdge key').2 = ((s.createEdge key').2.createEdge key).2 := by
  have hmem : key' ∈ (s.createEdge key).2.edges ↔ key' ∈ s.edges := by
    rw [createEdge_eq]
    exact mem_edges_offer_of_ne hc hne.symm hr
  refine ⟨createEdge_congr hmem, ?_⟩
  simp only [createEdge_eq, hasEnds_congr offer_nodes]
  exact offer_comm hc hne hr

/-- An entity may be requested before or after a relation. The relation is resolved only if the
entity comes first, but in either case it has the ends it has. -/
theorem createNode_createEdge (hc : s.Coherent) (id name : String) (kind : NodeKind)
    (key : EdgeKey) :
    ((s.createNode id name kind).2.createEdge key).1 = (s.createEdge key).1 ∧
      ((s.createEdge key).2.createNode id name kind).1 = (s.createNode id name kind).1 ∧
      ((s.createNode id name kind).2.createEdge key).2.Alike
        ((s.createEdge key).2.createNode id name kind).2 := by
  have hnodes : (s.createEdge key).2.nodes = s.nodes := by rw [createEdge_eq, offer_nodes]
  refine ⟨?_, (createNode_congr hnodes id name kind).1, ?_⟩
  · rw [createEdge_eq, createEdge_eq, (createNode_congr (s := s) rfl id name kind).2.2]
  · simp only [createNode_eq, createEdge_eq, hasNode_congr offer_nodes]
    split
    · exact .refl (hc.offer _)
    · next hid =>
      have hfree : s.nodes[id]? = none := hasNode_eq_false_iff.1 (by simpa using hid)
      rw [register_offer hc hfree]
      refine (Alike.refl (hc.register hfree)).offer ?_
      have hends : s.hasEnds key = true → (s.register { id, name, kind }).hasEnds key = true :=
        (Extends.register s _).hasEnds
      unfold completed
      dsimp only
      rw [Bool.or_self, Bool.or_eq_right_iff_imp.2 hends]

/-- Requests that may be exchanged are answered alike in either order, and leave stores that are
alike. -/
theorem send_exchanged (hc : s.Coherent) {a b : Record} (h : a.Exchangeable b) :
    (b.send sink (a.send sink s).2).1 = (b.send sink s).1 ∧
      (a.send sink (b.send sink s).2).1 = (a.send sink s).1 ∧
      (b.send sink (a.send sink s).2).2.Alike (a.send sink (b.send sink s).2).2 := by
  have hab : (b.send sink (a.send sink s).2).2.Coherent := (hc.send a).send b
  have of_eq : ∀ {t t' : Store}, t.Coherent → t = t' → t.Alike t' := by
    rintro t _ hc rfl
    exact .refl hc
  cases a with
  | attr => exact h.elim
  | node id name? kind =>
    cases b with
    | attr => exact h.elim
    | node id' name'? kind' =>
      obtain ⟨hb, hsame⟩ := createNode_comm hc h (name?.getD id) (name'?.getD id') kind kind'
      obtain ⟨ha, -⟩ := createNode_comm hc (Ne.symm h) (name'?.getD id') (name?.getD id) kind' kind
      exact ⟨hb, ha, of_eq hab hsame⟩
    | edge key => exact createNode_createEdge hc id (name?.getD id) kind key
  | edge key =>
    cases b with
    | attr => exact h.elim
    | node id name? kind =>
      obtain ⟨ha, hb, hsame⟩ := createNode_createEdge hc id (name?.getD id) kind key
      exact ⟨hb, ha, hsame.symm⟩
    | edge key' =>
      obtain ⟨hb, hsame⟩ := createEdge_comm hc h.1 h.2
      obtain ⟨ha, -⟩ := createEdge_comm hc h.1.symm (mt EdgeKey.Rivals.symm h.2)
      exact ⟨hb, ha, of_eq hab hsame⟩

end

end Store

/-! ## Replays -/

theorem ReplayReport.count_comm (report : ReplayReport) (granted granted' : Bool) :
    (report.count granted).count granted' = (report.count granted').count granted := by
  cases granted <;> cases granted' <;> rfl

namespace Record

open Store (after)

section
variable {x x' : ReplayReport × Store} {history : List Change} {before later : List Record}
variable {a b : Record}

/-- The same records are counted alike by stores that are alike, and leave them alike. -/
theorem foldl_step_alike (records : List Record) (hcount : x.1 = x'.1) (h : x.2.Alike x'.2) :
    (records.foldl (step Store.sink) x).1 = (records.foldl (step Store.sink) x').1 ∧
      (records.foldl (step Store.sink) x).2.Alike (records.foldl (step Store.sink) x').2 := by
  induction records generalizing x x' with
  | nil => exact ⟨hcount, h⟩
  | cons r records ih =>
    obtain ⟨hgranted, hnext⟩ := h.send r
    exact ih (by rw [step, step, hcount, hgranted]) hnext

/-- **Requests may come in any order.** Two neighbours in a list of valid records, each for an
entity or a relation, may change places unless they ask for the same id, for the same key, or for
two parents of one entity. Whatever the store is that the records are replayed into, and whatever
comes before and after the two, both lists are replayed with the same counts, and once resolved the
two stores are equal and the same number of relations has been dropped. -/
theorem resolve_replay_exchanged
    (hvalid : ∀ r ∈ before ++ a :: b :: later, r.isValid = true) (hab : a.Exchangeable b) :
    ∃ report s₁ s₂,
      replay Store.sink (after history) (before ++ a :: b :: later) = .ok (report, s₁) ∧
      replay Store.sink (after history) (before ++ b :: a :: later) = .ok (report, s₂) ∧
      s₁.resolve = s₂.resolve := by
  have hvalid' : ∀ r ∈ before ++ b :: a :: later, r.isValid = true := by
    intro r hr
    refine hvalid r ?_
    simp only [List.mem_append, List.mem_cons] at hr ⊢
    tauto
  rw [replay_eq_ok hvalid, replay_eq_ok hvalid', sendAll_eq_foldl, sendAll_eq_foldl,
    List.foldl_append, List.foldl_append]
  have hc := Store.coherent_after history
  have hc' : (before.foldl (step Store.sink) ({}, after history)).2.Coherent :=
    List.foldlRecOn (motive := fun x => x.2.Coherent) before (step Store.sink) hc
      fun _ hx r _ => hx.send r
  generalize before.foldl (step Store.sink) ({}, after history) = x at hc' ⊢
  obtain ⟨hb, ha, hsame⟩ := Store.send_exchanged hc' hab
  have hcount : (step Store.sink (step Store.sink x a) b).1 =
      (step Store.sink (step Store.sink x b) a).1 := by
    simp only [step, hb, ha, ReplayReport.count_comm]
  obtain ⟨hreport, hlater⟩ := foldl_step_alike later hcount hsame
  refine ⟨_, _, (later.foldl (step Store.sink) (step Store.sink (step Store.sink x b) a)).2, rfl,
    ?_, hlater.resolve⟩
  exact congrArg Except.ok (Prod.ext hreport.symm rfl)

/-- A reference to an object that is declared only later, and the parent that a second one puts
out. -/
theorem resolve_replay_exchanged_forward :
    let before : List Record := [.node "f" none .function, .edge ⟨"src", "o", .contains⟩]
    let a : Record := .edge ⟨"f", "o", .references⟩
    let b : Record := .node "o" (some "the o") .object
    let later : List Record := [.attr (.node "o") labelKey "O",
      .attr (.edge ⟨"f", "o", .references⟩) "line" "3", .node "lib" none .subsystem,
      .edge ⟨"lib", "o", .contains⟩, .edge ⟨"f", "o", .references⟩, .edge ⟨"f", "nowhere", .calls⟩]
    (∀ r ∈ before ++ a :: b :: later, r.isValid = true) ∧ a.Exchangeable b ∧
    ∃ report s₁ s₂,
      replay Store.sink (after Store.movedFile) (before ++ a :: b :: later) = .ok (report, s₁) ∧
      replay Store.sink (after Store.movedFile) (before ++ b :: a :: later) = .ok (report, s₂) ∧
      s₁.resolve = s₂.resolve := by
  intro before a b later
  have hvalid : ∀ r ∈ before ++ a :: b :: later, r.isValid = true := by decide +kernel
  have hab : a.Exchangeable b := trivial
  exact ⟨hvalid, hab, resolve_replay_exchanged hvalid hab⟩

end

end Record

end ArchFacts
