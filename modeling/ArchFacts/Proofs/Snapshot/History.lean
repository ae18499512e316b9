import ArchFacts.Proofs.History

/-!
# Snapshots of stores of any history

A step keeps a store canonical whatever attributes it brings in (`Step.canonical`), and the store
that bytes decode to is canonical too. So the store after any history is canonical
(`canonical_after`), although it need not obey all rules on stores: a snapshot may bring in two
parents of an entity, or a key without values. It is written and read back in full
(`decode_encode_after`).
-/

namespace ArchFacts

namespace Store

section
variable {P : Attributes → Prop} {s s' : Store}

/-- The empty store is that of its lists. -/
theorem canonical_empty : (∅ : Store).Canonical := wellFormed_empty.canonical coherent_empty

/-- A step keeps a store canonical. -/
theorem Step.canonical (hP : Attributes.Rule P) (hs : Step P s s') (h : s.Canonical) :
    s'.Canonical where
  coherent := hs.coherent h.coherent
  no_label hn := by
    rcases hs.node_cases hP h.coherent hn with ⟨m, hm, -, hl⟩ | ⟨-, hl⟩
    · exact hl (h.no_label hm)
    · exact hl
  not_selfContainment := hs.not_selfContainment h.coherent h.not_selfContainment

/-- Steps keep a store canonical. -/
theorem Steps.canonical (hP : Attributes.Rule P) (hs : Steps P s s') (h : s.Canonical) :
    s'.Canonical := by
  induction hs with
  | refl => exact h
  | tail _ hstep ih => exact hstep.canonical hP ih

end

end Store

/-- What bytes decode to is canonical. -/
theorem Snapshot.canonical_decode {bytes : ByteArray} {s : Store} (h : decode bytes = .ok s) :
    s.Canonical := by
  obtain ⟨nodes, edges, -, rfl⟩ := decode_eq_ok_iff.1 h
  exact Store.canonical_ofLists nodes edges

/-- A change of a canonical store gives a canonical store. -/
theorem Change.canonical_run {s : Store} (h : s.Canonical) (c : Change) : (c.run s).Canonical := by
  rcases follows_or_replaces c with hc | ⟨nodes, edges, rfl⟩ | ⟨bytes, rfl⟩
  · exact Store.Steps.canonical Attributes.rule_true
      (steps Attributes.rule_true h.coherent hc) h
  · exact Store.canonical_ofLists nodes edges
  · cases hdecode : Snapshot.decode bytes with
    | ok s' => simpa only [run, hdecode, Store.granted] using Snapshot.canonical_decode hdecode
    | error _ => simpa only [run, hdecode, Store.granted] using h

namespace Store

/-- The store after any history is canonical. -/
theorem canonical_after (history : List Change) : (after history).Canonical := by
  induction history using List.reverseRecOn with
  | nil => exact canonical_empty
  | append_singleton history c ih =>
    rw [after_concat]
    exact Change.canonical_run ih c

end Store

namespace Snapshot

open Store (after)

/-- **Every store reads back from its snapshot.** The snapshot of the store after any history is
decoded to this store, indices and the order of values included, whatever follows the snapshot
within the limit of size. So what is decoded is written as the same bytes. -/
theorem decode_encode_after (history : List Change) {tail : ByteArray}
    (hsize : (encode (after history) ++ tail).size ≤ sizeLimit) :
    let s := after history
    decode (encode s ++ tail) = .ok s ∧
      ∀ s', decode (encode s ++ tail) = .ok s' → encode s' = encode s := by
  intro s
  have hdecode : decode (encode s ++ tail) = .ok s :=
    decode_encode_append (Store.canonical_after history) hsize
  refine ⟨hdecode, fun s' hs' => ?_⟩
  obtain rfl : s = s' := Except.ok.inj (hdecode.symm.trans hs')
  rfl

/-- A snapshot with two parents of `c` is decoded, `c` is declared with values in an order that is
not that of texts, and a call is resolved that leads to it. -/
def disorderlyChanged : List Change :=
  [.decode disorderlyBytes, .createNode "c" "the c" .file, .addNodeAttribute "c" "line" "9",
    .addNodeAttribute "c" "line" "10", .addEdge { source := "c", dest := "c", kind := .calls },
    .resolve]

theorem after_disorderlyChanged : after disorderlyChanged =
    disorderlyChanged.tail.foldl Change.run (.ofLists [] disorderly) := by
  have hrun : Change.run ∅ (.decode disorderlyBytes) = .ofLists [] disorderly := by
    rw [Change.run, decode_disorderlyBytes, Store.granted]
  rw [after, disorderlyChanged, List.foldl_cons, hrun, List.tail_cons]

/-- With two bytes after it, the snapshot of the store after these changes is decoded to the
store. -/
theorem decode_encode_after_disorderlyChanged :
    let s := after disorderlyChanged
    (encode s ++ ⟨#[0, 255]⟩).size ≤ sizeLimit ∧ decode (encode s ++ ⟨#[0, 255]⟩) = .ok s ∧
      ∀ s', decode (encode s ++ ⟨#[0, 255]⟩) = .ok s' → encode s' = encode s :=
  have hsize : (encode (after disorderlyChanged) ++ ⟨#[0, 255]⟩).size ≤ sizeLimit := by
    rw [after_disorderlyChanged]
    decide +kernel
  ⟨hsize, decode_encode_after disorderlyChanged hsize⟩

end Snapshot

end ArchFacts
