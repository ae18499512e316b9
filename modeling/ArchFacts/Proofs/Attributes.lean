import ArchFacts.Attributes
import Mathlib.Data.List.Induction

/-!
# What operations on attributes keep

Attributes that start empty and change by `Attributes.insert` and `Attributes.erase` only (`Built`)
have no key without values and no value twice under a key (`Proper`), and every such collection can
be built (`built_iff_proper`). A collection is proper and has given values under every key in one
way only (`Proper.ext`), so equations between collections are proved key by key. What a merge holds
under a key is `addNew` of the two lists (`values_merge`).
-/

namespace ArchFacts

/-- A member at the end of a list stays if it is the first of its kind. -/
theorem eraseDups_append_singleton {α : Type} [DecidableEq α] (l : List α) (a : α) :
    (l ++ [a]).eraseDups = if a ∈ l then l.eraseDups else l.eraseDups ++ [a] := by
  rw [List.eraseDups_append]
  by_cases ha : a ∈ l <;> simp [List.removeAll, List.eraseDups_cons, ha]

namespace Attributes

/-- No key is without values, and no key has a value twice. -/
def Proper (a : Attributes) : Prop :=
  ∀ (key : String) (values : List String), a.entries[key]? = some values →
    values ≠ [] ∧ values.Nodup

/-- Attributes that come from no attributes by adding values and forgetting keys. -/
inductive Built : Attributes → Prop
  | empty : Built ∅
  | insert {a : Attributes} (key value : String) : Built a → Built (a.insert key value)
  | erase {a : Attributes} (key : String) : Built a → Built (a.erase key)

/-- A rule on attributes that no operation breaks. -/
structure Rule (P : Attributes → Prop) : Prop where
  empty : P ∅
  insert : ∀ {a key value}, P a → P (a.insert key value)
  erase : ∀ {a key}, P a → P (a.erase key)

section
variable {P : Attributes → Prop} {a b : Attributes}

/-- What operations build follows every rule. -/
theorem Built.of_rule (hP : Rule P) (h : a.Built) : P a := by
  induction h with
  | empty => exact hP.empty
  | insert _ _ _ ih => exact hP.insert ih
  | erase _ _ ih => exact hP.erase ih

/-- Adding several values under one key breaks no rule. -/
theorem Rule.insertAll (hP : Rule P) {key : String} {values : List String} (h : P a) :
    P (a.insertAll key values) := by
  unfold Attributes.insertAll
  induction values generalizing a with
  | nil => exact h
  | cons v vs ih => exact ih (hP.insert h)

/-- Adding all values of other attributes breaks no rule, whatever these are. -/
theorem Rule.merge (hP : Rule P) (h : P a) : P (a.merge b) := by
  unfold Attributes.merge
  generalize b.toList = entries
  induction entries generalizing a with
  | nil => exact h
  | cons _ _ ih => exact ih (hP.insertAll h)

/-- The rule that allows everything. -/
theorem rule_true : Rule fun _ => True := ⟨trivial, fun _ => trivial, fun _ => trivial⟩

/-! ## Single operations -/

/-- The list stored under a key is what `values` shows. -/
theorem values_of_getElem? {key : String} {vs : List String} (h : a.entries[key]? = some vs) :
    a.values key = vs := by
  simp [values, h]

/-- A value that is there already is not added again. -/
theorem insert_of_mem {key value : String} (h : value ∈ a.values key) :
    a.insert key value = a := by
  rw [insert, if_pos (by simpa [contains] using h)]

/-- A new value is added after the values that are there. -/
theorem entries_insert_of_not_mem {key value : String} (h : value ∉ a.values key) :
    (a.insert key value).entries = a.entries.insert key (a.values key ++ [value]) := by
  rw [insert, if_neg (by simpa [contains] using h)]

/-- Adding a value adds no other key than its own. -/
theorem mem_entries_insert {key value k : String} (h : k ∈ (a.insert key value).entries) :
    k = key ∨ k ∈ a.entries := by
  by_cases hv : value ∈ a.values key
  · rw [insert_of_mem hv] at h
    exact .inr h
  · rw [entries_insert_of_not_mem hv, Std.ExtTreeMap.mem_insert,
      Std.LawfulEqCmp.compare_eq_iff_eq] at h
    exact h.imp_left Eq.symm

/-- Properness is a rule. -/
theorem rule_proper : Rule Proper where
  empty key values h := by simp [show (∅ : Attributes).entries = ∅ from rfl] at h
  insert {a key value} ha k vs h := by
    by_cases hv : value ∈ a.values key
    · rw [insert_of_mem hv] at h
      exact ha k vs h
    rw [entries_insert_of_not_mem hv, Std.ExtTreeMap.getElem?_insert] at h
    split at h
    · cases h
      refine ⟨by simp, ?_⟩
      cases hk : a.entries[key]? with
      | none => simp [values, hk]
      | some old =>
        have hold : a.values key = old := values_of_getElem? hk
        rw [hold] at hv ⊢
        exact List.nodup_append.2 ⟨(ha key old hk).2, by simp, by
          rintro x hx y hy rfl
          exact hv (List.mem_singleton.1 hy ▸ hx)⟩
    · exact ha k vs h
  erase {a key} ha k vs h := by
    simp only [erase, Std.ExtTreeMap.getElem?_erase] at h
    split at h
    · cases h
    · exact ha k vs h

/-- Attributes that operations build are proper. -/
theorem Built.proper (h : a.Built) : a.Proper := h.of_rule rule_proper

/-- A key is absent from proper attributes exactly if it has no values. -/
theorem Proper.getElem?_eq (h : a.Proper) (key : String) :
    a.entries[key]? = if a.values key = [] then none else some (a.values key) := by
  cases hk : a.entries[key]? with
  | none => simp [values, hk]
  | some vs => simp [values_of_getElem? hk, (h key vs hk).1]

/-- A key without values is absent from proper attributes. -/
theorem Proper.not_mem_of_values_eq_nil (h : a.Proper) {key : String} (hk : a.values key = []) :
    key ∉ a.entries := by
  rw [Std.ExtTreeMap.mem_iff_isSome_getElem?, h.getElem?_eq, if_pos hk]
  simp

/-- A key that is absent has no values. -/
theorem values_eq_nil_of_not_mem {key : String} (h : key ∉ a.entries) : a.values key = [] := by
  rw [values, Std.ExtTreeMap.getElem?_eq_none h]
  rfl

/-- Proper attributes with the same values under every key are equal. -/
theorem Proper.ext (ha : a.Proper) (hb : b.Proper) (h : ∀ key, a.values key = b.values key) :
    a = b := by
  have : a.entries = b.entries := by
    apply Std.ExtTreeMap.ext_getElem?
    intro key
    rw [ha.getElem?_eq, hb.getElem?_eq, h]
  cases a; cases b; cases this; rfl

/-! ## Merging -/

/-- The values `xs` and then those of `vs` that are new, each once. -/
def addNew (xs vs : List String) : List String :=
  vs.foldl (fun xs v => if v ∈ xs then xs else xs ++ [v]) xs

@[simp] theorem addNew_nil (xs : List String) : addNew xs [] = xs := rfl

/-- Values that do not repeat and are all new are added as they stand. -/
theorem addNew_of_nodup {xs vs : List String} (h : (xs ++ vs).Nodup) :
    addNew xs vs = xs ++ vs := by
  induction vs generalizing xs with
  | nil => simp
  | cons v vs ih =>
    have hv : v ∉ xs := fun hx => (List.nodup_append.1 h).2.2 v hx v (by simp) rfl
    have : addNew (xs ++ [v]) vs = xs ++ [v] ++ vs := ih (by simpa using h)
    simpa [addNew, hv] using this

theorem values_insertAll (a : Attributes) (key : String) (vs : List String) (k : String) :
    (a.insertAll key vs).values k = if k = key then addNew (a.values k) vs else a.values k := by
  unfold insertAll
  induction vs generalizing a with
  | nil => simp
  | cons v vs ih =>
    rw [List.foldl_cons, ih, values_insert]
    by_cases hk : k = key
    · subst hk
      by_cases hv : v ∈ a.values k <;> simp [addNew, hv]
    · simp [hk]

/-- Adding the entries of a list, in which every key stands once, touches the values of a key by
its own entry only. -/
theorem values_foldl_insertAll {entries : List (String × List String)}
    (hd : entries.Pairwise fun x y => x.1 ≠ y.1) (a : Attributes) (k : String) :
    (entries.foldl (fun a (key, vs) => a.insertAll key vs) a).values k =
      addNew (a.values k) ((entries.find? (·.1 = k)).elim [] (·.2)) := by
  induction entries generalizing a with
  | nil => simp
  | cons e es ih =>
    obtain ⟨key, vs⟩ := e
    obtain ⟨hne, hd⟩ := List.pairwise_cons.1 hd
    rw [List.foldl_cons, ih hd, values_insertAll]
    by_cases hk : k = key
    · subst hk
      have : es.find? (fun x => decide (x.1 = k)) = none :=
        List.find?_eq_none.2 fun x hx => by simpa using (hne x hx).symm
      simp [this]
    · simp [hk, Ne.symm hk]

/-- A merge adds to every key the values that the other side has under it and that are new. -/
theorem values_merge (a b : Attributes) (k : String) :
    (a.merge b).values k = addNew (a.values k) (b.values k) := by
  have hd : b.toList.Pairwise fun x y => x.1 ≠ y.1 :=
    b.entries.distinct_keys_toList.imp fun h he => h (by simp [he])
  rw [merge, values_foldl_insertAll hd]
  congr 1
  cases h : b.entries[k]? with
  | none =>
    have : b.toList.find? (fun x => decide (x.1 = k)) = none :=
      List.find?_eq_none.2 fun x hx => by
        have := Std.ExtTreeMap.mem_toList_iff_getElem?_eq_some.1 (show (x.1, x.2) ∈ _ from hx)
        simp only [decide_eq_true_eq]
        rintro rfl
        rw [h] at this
        cases this
    simp [values, h, this]
  | some vs =>
    have hmem : (k, vs) ∈ b.toList := Std.ExtTreeMap.mem_toList_iff_getElem?_eq_some.2 h
    cases hf : b.toList.find? (fun x => decide (x.1 = k)) with
    | none => exact absurd (List.find?_eq_none.1 hf _ hmem) (by simp)
    | some x =>
      have hx : (x.1, x.2) ∈ b.toList := List.mem_of_find?_eq_some hf
      have hxk : x.1 = k := by simpa using List.find?_some hf
      have := Std.ExtTreeMap.mem_toList_iff_getElem?_eq_some.1 hx
      rw [hxk, h] at this
      cases this
      simp [values, h]

@[simp] theorem toList_empty : (∅ : Attributes).toList = [] :=
  Std.ExtTreeMap.toList_eq_nil_iff.2 rfl

@[simp] theorem merge_empty (a : Attributes) : a.merge ∅ = a := by simp [merge]

/-- Adding proper attributes to none gives them back, values in their order. -/
theorem empty_merge (h : a.Proper) : (∅ : Attributes).merge a = a := by
  refine Proper.ext (rule_proper.merge rule_proper.empty) h ?_
  intro key
  rw [values_merge, values_empty]
  cases hk : a.entries[key]? with
  | none => simp [values, hk]
  | some vs =>
    have : addNew [] vs = [] ++ vs := addNew_of_nodup (h key vs hk).2
    rw [values_of_getElem? hk, this, List.nil_append]

/-- Operations build exactly the proper attributes. -/
theorem built_iff_proper : a.Built ↔ a.Proper :=
  ⟨Built.proper, fun h => empty_merge h ▸ Rule.merge ⟨.empty, .insert _ _, .erase _⟩ .empty⟩

/-- Forgetting a key that is absent changes nothing. -/
theorem erase_of_not_mem {key : String} (h : key ∉ a.entries) : a.erase key = a := by
  have herase : a.entries.erase key = a.entries := by
    apply Std.ExtTreeMap.ext_getElem?
    intro k
    rw [Std.ExtTreeMap.getElem?_erase]
    split
    · next hk => rw [← Std.LawfulEqCmp.eq_of_compare hk, Std.ExtTreeMap.getElem?_eq_none h]
    · rfl
  exact congrArg Attributes.mk herase

/-- Forgetting a key without values changes no proper attributes. -/
theorem erase_of_values_eq_nil (h : a.Proper) {key : String} (hk : a.values key = []) :
    a.erase key = a :=
  erase_of_not_mem (h.not_mem_of_values_eq_nil hk)

@[simp] theorem erase_empty (key : String) : (∅ : Attributes).erase key = ∅ :=
  erase_of_values_eq_nil rule_proper.empty (values_empty key)

theorem mem_entries_insertAll {key k : String} {vs : List String}
    (h : k ∈ (a.insertAll key vs).entries) : k = key ∨ k ∈ a.entries := by
  unfold insertAll at h
  induction vs generalizing a with
  | nil => exact .inr h
  | cons v vs ih =>
    rcases ih h with hk | hk
    · exact .inl hk
    · exact mem_entries_insert hk

/-- A merge adds no other keys than those of the other side. -/
theorem mem_entries_merge {k : String} (h : k ∈ (a.merge b).entries) :
    k ∈ a.entries ∨ k ∈ b.entries := by
  have hkeys : ∀ x ∈ b.toList, x.1 ∈ b.entries := fun x hx =>
    Std.ExtTreeMap.mem_iff_isSome_getElem?.2 (by
      rw [Std.ExtTreeMap.mem_toList_iff_getElem?_eq_some.1 (show (x.1, x.2) ∈ _ from hx)]
      rfl)
  unfold merge at h
  generalize b.toList = entries at h hkeys
  induction entries generalizing a with
  | nil => exact .inl h
  | cons x entries ih =>
    rcases ih h fun y hy => hkeys y (by simp [hy]) with hk | hk
    · rcases mem_entries_insertAll hk with rfl | hk
      · exact .inr (hkeys x (by simp))
      · exact .inl hk
    · exact .inr hk

/-- Adding values that are all there changes nothing. -/
theorem insertAll_of_subset {key : String} {vs : List String} (h : ∀ v ∈ vs, v ∈ a.values key) :
    a.insertAll key vs = a := by
  refine List.foldlRecOn (motive := (· = a)) vs _ rfl ?_
  rintro _ rfl v hv
  exact insert_of_mem (h v hv)

/-- A merge of values that are all there changes nothing. -/
theorem merge_of_subset (h : ∀ key, ∀ v ∈ b.values key, v ∈ a.values key) : a.merge b = a := by
  refine List.foldlRecOn (motive := (· = a)) b.toList _ rfl ?_
  rintro _ rfl ⟨key, vs⟩ hx
  refine insertAll_of_subset fun v hv => h key v ?_
  rwa [values_of_getElem? (Std.ExtTreeMap.mem_toList_iff_getElem?_eq_some.1 hx)]

theorem mem_addNew {xs vs : List String} {v : String} : v ∈ addNew xs vs ↔ v ∈ xs ∨ v ∈ vs := by
  induction vs generalizing xs with
  | nil => simp
  | cons w vs ih =>
    change v ∈ addNew (if w ∈ xs then xs else xs ++ [w]) vs ↔ _
    rw [ih]
    by_cases hw : w ∈ xs
    · rw [if_pos hw, List.mem_cons, ← or_assoc]
      exact or_congr_left ⟨.inl, fun h => h.elim id (· ▸ hw)⟩
    · rw [if_neg hw, List.mem_append, List.mem_singleton, List.mem_cons, or_assoc]

/-- Added to nothing, each value stands where it comes first. -/
theorem addNew_nil_left (vs : List String) : addNew [] vs = vs.eraseDups := by
  induction vs using List.reverseRecOn with
  | nil => rfl
  | append_singleton vs v ih =>
    have hstep : addNew [] (vs ++ [v]) =
        if v ∈ addNew [] vs then addNew [] vs else addNew [] vs ++ [v] := List.foldl_append
    simp only [hstep, ih, eraseDups_append_singleton, List.mem_eraseDups]

/-! ## Merging several collections -/

section
variable {as : List Attributes}

/-- Merging several collections adds to every key what they have under it, one after the other. -/
theorem values_foldl_merge {key : String} : (as.foldl merge a).values key =
    addNew (a.values key) (as.flatMap (·.values key)) := by
  induction as generalizing a with
  | nil => rfl
  | cons b as ih =>
    rw [List.foldl_cons, ih, values_merge, List.flatMap_cons, addNew, addNew, addNew,
      List.foldl_append]

/-- Merging loses no value, and brings in those of every collection that is merged. -/
theorem mem_values_foldl_merge {key v : String} : v ∈ (as.foldl merge a).values key ↔
    v ∈ a.values key ∨ ∃ b ∈ as, v ∈ b.values key := by
  induction as generalizing a with
  | nil => simp
  | cons b as ih =>
    rw [List.foldl_cons, ih, values_merge, mem_addNew, or_assoc]
    simp only [List.mem_cons, exists_eq_or_imp]

/-- Merging collections whose values are all there changes nothing. -/
theorem foldl_merge_of_subset (h : ∀ b ∈ as, ∀ key, ∀ v ∈ b.values key, v ∈ a.values key) :
    as.foldl merge a = a := by
  refine List.foldlRecOn (motive := (· = a)) as merge rfl ?_
  rintro _ rfl b hb
  exact merge_of_subset (h b hb)

/-- Merging one collection several times gives it back. -/
theorem foldl_merge_of_forall_eq (h : a.Proper) (hne : as ≠ []) (hall : ∀ b ∈ as, b = a) :
    as.foldl merge ∅ = a := by
  obtain ⟨b, as, rfl⟩ := List.exists_cons_of_ne_nil hne
  obtain ⟨rfl, hrest⟩ := List.forall_mem_cons.1 hall
  rw [List.foldl_cons, empty_merge h]
  exact foldl_merge_of_subset fun c hc _ _ hv => hrest c hc ▸ hv

/-- To merge some collections once more changes nothing. -/
theorem foldl_merge_foldl_merge : as.foldl merge (as.foldl merge a) = as.foldl merge a :=
  foldl_merge_of_subset fun b hb _ _ hv => mem_values_foldl_merge.2 (.inr ⟨b, hb, hv⟩)

end

/-- Attributes without keys are no attributes. -/
theorem eq_empty_of_isEmpty (h : a.isEmpty = true) : a = ∅ := by
  cases a
  simp only [isEmpty, Std.ExtTreeMap.isEmpty_iff] at h
  subst h; rfl

end

end Attributes

end ArchFacts
