import ArchFacts.Proofs.Attributes
import Mathlib.Data.List.DropRight

/-!
# Attributes as a history of insertions

What some calls leave under a key can be read off the calls themselves: it is what has been inserted
there since the key was last removed, each value once and where it came first (`Call.history`). One
more call changes the history of a key as it changes the values under it (`history_insert`,
`history_remove`), so the two agree after any calls (`values_after`). A key is there exactly if its
history is not empty, since operations leave no key without values; with this every answer of the
attributes is one about the history (`answers_after`).
-/

namespace ArchFacts.Attributes

/-- A call that changes attributes. -/
inductive Call where
  | insert (key value : String)
  | remove (key : String)
  deriving DecidableEq

namespace Call

/-- The attributes after a call. -/
def run (a : Attributes) : Call → Attributes
  | insert key value => (a.add key value).2
  | remove key => (a.take key).2

/-- The value that a call inserts under a key, if it does so. -/
def inserted? (key : String) : Call → Option String
  | insert k value => if k = key then some value else none
  | remove _ => none

/-- The values that calls insert under a key after they last remove it, each once, in the order in
which they are first inserted. -/
def history (key : String) (calls : List Call) : List String :=
  ((calls.rtakeWhile (· ≠ remove key)).filterMap (inserted? key)).eraseDups

end Call

/-- What some calls leave of attributes that are empty at first. -/
def after (calls : List Call) : Attributes := calls.foldl Call.run ∅

section
variable {calls : List Call} {key : String}

/-! ## One more call -/

/-- An insertion adds its value at the end of the history of its key, unless it is there. -/
theorem history_insert (k value : String) : Call.history key (calls ++ [.insert k value]) =
    if key = k ∧ value ∉ Call.history k calls then Call.history key calls ++ [value]
    else Call.history key calls := by
  have hgoes : decide (Call.insert k value ≠ .remove key) = true := by simp
  rw [Call.history, List.rtakeWhile_concat, if_pos hgoes, List.filterMap_append]
  by_cases hk : key = k
  · subst hk
    have hvalue : [Call.insert key value].filterMap (Call.inserted? key) = [value] := by
      simp [Call.inserted?]
    rw [hvalue, eraseDups_append_singleton]
    simp only [Call.history, List.mem_eraseDups, true_and, ite_not]
  · have hvalue : [Call.insert k value].filterMap (Call.inserted? key) = [] := by
      simp [Call.inserted?, Ne.symm hk]
    rw [hvalue, List.append_nil, if_neg fun h => hk h.1, Call.history]

/-- A removal ends the history of its key. -/
theorem history_remove (k : String) : Call.history key (calls ++ [.remove k]) =
    if key = k then [] else Call.history key calls := by
  rw [Call.history, List.rtakeWhile_concat]
  by_cases hk : key = k
  · simp [hk]
  · have hgoes : decide (Call.remove k ≠ .remove key) = true := by simp [Ne.symm hk]
    have hvalue : [Call.remove k].filterMap (Call.inserted? key) = [] := rfl
    rw [if_pos hgoes, if_neg hk, List.filterMap_append, hvalue, List.append_nil, Call.history]

/-! ## All calls -/

theorem after_concat (c : Call) : after (calls ++ [c]) = c.run (after calls) := by
  rw [after, List.foldl_append]
  rfl

/-- The values under a key are its history. -/
theorem values_after (calls : List Call) (key : String) :
    (after calls).values key = Call.history key calls := by
  induction calls using List.reverseRecOn generalizing key with
  | nil => rw [after, List.foldl_nil, values_empty]; rfl
  | append_singleton calls c ih =>
    rw [after_concat]
    cases c with
    | insert k value => rw [Call.run, add, values_insert, history_insert, ih, ih]
    | remove k => rw [Call.run, take, values_erase, history_remove, ih]

/-- Calls leave no key without values, and no value twice. -/
theorem built_after (calls : List Call) : (after calls).Built := by
  induction calls using List.reverseRecOn with
  | nil => exact .empty
  | append_singleton calls c ih =>
    rw [after_concat]
    cases c with
    | insert k value => exact ih.insert k value
    | remove k => exact ih.erase k

/-- The keys that are there are those with a history. -/
theorem mem_keys_after : key ∈ (after calls).entries.keys ↔ Call.history key calls ≠ [] := by
  rw [Std.ExtTreeMap.mem_keys, Std.ExtTreeMap.mem_iff_isSome_getElem?,
    (built_after calls).proper.getElem?_eq, values_after]
  split <;> simp_all

/-- Every key is listed with its history. -/
theorem toList_after : (after calls).toList =
    (after calls).entries.keys.map fun key => (key, Call.history key calls) := by
  have hentry : ∀ x ∈ (after calls).toList, (x.1, Call.history x.1 calls) = x := by
    rintro ⟨k, values⟩ hx
    rw [← values_after, values_of_getElem? (Std.ExtTreeMap.mem_toList_iff_getElem?_eq_some.1 hx)]
  rw [← Std.ExtTreeMap.map_fst_toList_eq_keys, List.map_map]
  exact (List.map_id _).symm.trans (List.map_congr_left fun x hx => (hentry x hx).symm)

/-- **Attributes are a history of first insertions.** After any calls that insert and remove, what
stands under a key are the distinct values inserted there since the key was last removed, in the
order in which they were first inserted. One more insertion says that the value is new exactly if it
is not among them, a value is contained exactly if it is, and one more removal gives them all. The
keys for which there are any, in increasing order, are those that are listed, each with its values;
they are counted, and there are no attributes exactly if there are none of them. -/
theorem answers_after (calls : List Call) :
    let a := after calls
    (∀ key, a.values key = Call.history key calls) ∧
    (∀ key value, (a.add key value).1 = true ↔ value ∉ Call.history key calls) ∧
    (∀ key value, a.contains key value = true ↔ value ∈ Call.history key calls) ∧
    (∀ key, (a.take key).1 = Call.history key calls) ∧
    ∃ keys : List String, keys.Pairwise (fun k k' => compare k k' = .lt) ∧
      (∀ key, key ∈ keys ↔ Call.history key calls ≠ []) ∧
      a.toList = keys.map (fun key => (key, Call.history key calls)) ∧
      a.size = keys.length ∧
      (a.isEmpty = true ↔ ∀ key, Call.history key calls = []) := by
  intro a
  have hcontains : ∀ key value, a.contains key value = true ↔ value ∈ Call.history key calls := by
    intro key value
    rw [contains, values_after, List.contains_iff_mem]
  refine ⟨values_after calls, fun key value => ?_, hcontains, values_after calls, a.entries.keys,
    Std.ExtTreeMap.ordered_keys, fun key => mem_keys_after, toList_after,
    Std.ExtTreeMap.length_keys.symm, ?_⟩
  · rw [add, Bool.not_eq_true', ← Bool.not_eq_true, hcontains]
  · rw [isEmpty, ← Std.ExtTreeMap.isEmpty_keys, List.isEmpty_iff, List.eq_nil_iff_forall_not_mem]
    simp only [a, mem_keys_after, not_not]

example : Call.history "k" [.insert "k" "v", .remove "k", .insert "k" "b", .insert "j" "a",
    .insert "k" "a", .insert "k" "b"] = ["b", "a"] := by decide

end

end ArchFacts.Attributes
