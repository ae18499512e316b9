import ArchFacts.Store.Index
import Mathlib.Data.List.Basic

/-!
# Indices as relations

An index is seen through `Index.find`: which items stand under which text. Two indices that keep no
empty set (`Tight`) and show the same items are equal (`Tight.ext`), and the items under a text are
listed in increasing order (`find_eq`). Before that come facts on maps in which every value stands
under its own key, as entities and relations do, and on maps that are filled value by value.
-/

namespace ArchFacts

/-- No member of a list in increasing order of what `f` gives stands twice in it. -/
theorem nodup_of_pairwise_lt {α κ : Type} [Ord κ] [Std.TransOrd κ] {f : α → κ} {l : List α}
    (hl : l.Pairwise fun a b => compare (f a) (f b) = .lt) : l.Nodup :=
  hl.imp fun hlt heq => by simp [heq, Std.ReflCmp.compare_self] at hlt

/-- Two lists with the same members, both in increasing order of what `f` gives, are equal. -/
theorem eq_of_pairwise_lt {α κ : Type} [Ord κ] [Std.TransOrd κ] {f : α → κ} {l l' : List α}
    (hl : l.Pairwise fun a b => compare (f a) (f b) = .lt)
    (hl' : l'.Pairwise fun a b => compare (f a) (f b) = .lt) (h : ∀ x, x ∈ l ↔ x ∈ l') :
    l = l' := by
  have antisymm : ∀ a b, a ∈ l → b ∈ l' → compare (f a) (f b) = .lt →
      compare (f b) (f a) = .lt → a = b :=
    fun _ _ _ _ hab hba => absurd hba (Std.OrientedCmp.not_lt_of_lt hab)
  exact List.Perm.eq_of_pairwise antisymm hl hl'
    ((List.perm_ext_iff_of_nodup (nodup_of_pairwise_lt hl) (nodup_of_pairwise_lt hl')).2 h)

/-- In a list in increasing order the greatest member is the last. -/
theorem getLast?_eq_some_iff {α : Type} [Ord α] [Std.TransOrd α] [Std.LawfulEqOrd α] {l : List α}
    {a : α} (hl : l.Pairwise fun a b => compare a b = .lt) :
    l.getLast? = some a ↔ a ∈ l ∧ ∀ b ∈ l, (compare b a).isLE := by
  have hmax : ∀ {a b}, l.getLast? = some a → b ∈ l → (compare b a).isLE := by
    intro a b hlast hb
    rw [← List.dropLast_append_getLast? a hlast] at hl hb
    rcases List.mem_append.1 hb with hb | hb
    · have hlt : compare b a = .lt :=
        (List.pairwise_append.1 hl).2.2 b hb a (List.mem_singleton.2 rfl)
      rw [hlt]
      rfl
    · rw [List.mem_singleton.1 hb]
      exact Std.ReflCmp.isLE_rfl
  refine ⟨fun hlast => ⟨List.mem_of_getLast? hlast, fun b => hmax hlast⟩, fun ⟨ha, hle⟩ => ?_⟩
  obtain ⟨b, hlast⟩ : ∃ b, l.getLast? = some b := by
    rw [← Option.isSome_iff_exists, List.getLast?_isSome]
    exact List.ne_nil_of_mem ha
  have heq : compare a b = .eq :=
    Std.OrientedCmp.isLE_antisymm (hmax hlast ha) (hle b (List.mem_of_getLast? hlast))
  rw [hlast, Std.LawfulEqOrd.eq_of_compare heq]

section
variable {α κ : Type} [Ord κ] [Std.TransOrd κ]
variable {m : Std.ExtTreeMap κ α} {k k' : κ} {a b : α}

/-- What stands in a map from which a key has been taken stood there before. -/
theorem getElem?_of_erase (h : (m.erase k)[k']? = some b) : m[k']? = some b := by
  rw [Std.ExtTreeMap.getElem?_erase] at h
  split at h
  · cases h
  · exact h

variable [Std.LawfulEqOrd κ]

/-- What stands in a map into which a value has been put. -/
theorem getElem?_insert_eq_some :
    (m.insert k a)[k']? = some b ↔ k = k' ∧ a = b ∨ k ≠ k' ∧ m[k']? = some b := by
  rw [Std.ExtTreeMap.getElem?_insert]
  by_cases hk : k = k' <;> simp [hk]

/-- The values of a map in which each stands under its own key. -/
theorem mem_values_iff {f : α → κ} (h : ∀ {k : κ} {a}, m[k]? = some a → f a = k) :
    a ∈ m.toList.map (·.2) ↔ m[f a]? = some a := by
  rw [List.mem_map]
  constructor
  · rintro ⟨⟨k, _⟩, hm, rfl⟩
    have := Std.ExtTreeMap.mem_toList_iff_getElem?_eq_some.1 hm
    rwa [h this]
  · intro ha
    exact ⟨(f a, a), Std.ExtTreeMap.mem_toList_iff_getElem?_eq_some.2 ha, rfl⟩

/-- The values of a map in which each stands under its own key are listed by their keys. -/
theorem pairwise_values {f : α → κ} (h : ∀ {k : κ} {a}, m[k]? = some a → f a = k) :
    (m.toList.map (·.2)).Pairwise fun a b => compare (f a) (f b) = .lt := by
  have hkey : ∀ x ∈ m.toList, f x.2 = x.1 := by
    intro x hx
    exact h (Std.ExtTreeMap.mem_toList_iff_getElem?_eq_some.1 (show (x.1, x.2) ∈ _ from hx))
  refine List.pairwise_map.2 (m.ordered_keys_toList.imp_of_mem ?_)
  intro x y hx hy hlt
  rwa [hkey x hx, hkey y hy]

/-- What stands in a map into which values have been put one after the other: the last value that
was put under the key, or else what stood there before. -/
theorem getElem?_foldl_insert [DecidableEq κ] {β : Type} {f : β → κ} {g : β → α} {l : List β} :
    (l.foldl (fun m b => m.insert (f b) (g b)) m)[k]? =
      ((l.reverse.find? fun b => f b = k).map g).or m[k]? := by
  induction l generalizing m with
  | nil => rfl
  | cons b l ih =>
    rw [List.foldl_cons, ih, List.reverse_cons, List.find?_append, Std.ExtTreeMap.getElem?_insert]
    cases l.reverse.find? fun b => f b = k with
    | some c => rfl
    | none => by_cases hk : f b = k <;> simp [hk]

/-- Putting the entries of a map into no map gives the map back. -/
theorem foldl_insert_toList : m.toList.foldl (fun m x => m.insert x.1 x.2) ∅ = m := by
  classical
  have hentry : ∀ x ∈ m.toList.reverse, m[x.1]? = some x.2 := fun x hx =>
    Std.ExtTreeMap.mem_toList_iff_getElem?_eq_some.1 (List.mem_reverse.1 hx)
  apply Std.ExtTreeMap.ext_getElem?
  intro k
  rw [getElem?_foldl_insert, Std.ExtTreeMap.getElem?_empty, Option.or_none]
  cases hfind : m.toList.reverse.find? fun x => x.1 = k with
  | none =>
    refine Eq.symm (Option.eq_none_iff_forall_ne_some.2 fun a ha => ?_)
    have hmem := Std.ExtTreeMap.mem_toList_iff_getElem?_eq_some.2 ha
    simpa using List.find?_eq_none.1 hfind _ (List.mem_reverse.2 hmem)
  | some x =>
    have hk : x.1 = k := by simpa using List.find?_some hfind
    rw [← hk, hentry x (List.mem_of_find?_eq_some hfind)]
    rfl

/-- Putting the values of a map in which each stands under its own key into no map gives the map
back. -/
theorem foldl_insert_values {f : α → κ} {g : α → α}
    (h : ∀ {k : κ} {a}, m[k]? = some a → f a = k ∧ g a = a) :
    (m.toList.map (·.2)).foldl (fun m a => m.insert (f a) (g a)) ∅ = m := by
  rw [List.foldl_map]
  refine Eq.trans ?_ (foldl_insert_toList (m := m))
  refine List.foldl_ext _ _ _ fun acc x hx => ?_
  have hentry : (x.1, x.2) ∈ m.toList := hx
  obtain ⟨hf, hg⟩ := h (Std.ExtTreeMap.mem_toList_iff_getElem?_eq_some.1 hentry)
  rw [hf, hg]

end

namespace Index

section
variable {α : Type} [Ord α]

/-- No empty set is kept. -/
def Tight (ix : Index α) : Prop :=
  ∀ (text : String) (set : Std.ExtTreeSet α), ix.sets[text]? = some set → set ≠ ∅

theorem tight_empty : (∅ : Index α).Tight := fun text set h => by
  simp [show (∅ : Index α).sets = ∅ from rfl] at h

variable [Std.TransOrd α] {ix : Index α} {text : String} {item : α}

/-- Putting an item in leaves no empty set. -/
theorem Tight.insert (h : ix.Tight) : (ix.insert text item).Tight := by
  intro t set hs
  simp only [Index.insert, Std.ExtTreeMap.getElem?_alter] at hs
  split at hs
  · cases hs
    exact Std.ExtTreeSet.insert_ne_empty
  · exact h t set hs

/-- Taking an item away leaves no empty set. -/
theorem Tight.erase (h : ix.Tight) : (ix.erase text item).Tight := by
  intro t set hs
  simp only [Index.erase, Std.ExtTreeMap.getElem?_alter] at hs
  split at hs
  · split at hs
    · cases hs
    · split at hs
      · cases hs
      · next he =>
        cases hs
        exact fun hc => he (by simp [hc])
  · exact h t set hs

theorem Tight.foldl_insert {β : Type} {f : β → String} {g : β → α} {l : List β} (h : ix.Tight) :
    (l.foldl (fun ix b => ix.insert (f b) (g b)) ix).Tight := by
  induction l generalizing ix with
  | nil => exact h
  | cons _ _ ih => exact ih h.insert

theorem Tight.foldl_erase {f : α → String} {l : List α} (h : ix.Tight) :
    (l.foldl (fun ix a => ix.erase (f a) a) ix).Tight := by
  induction l generalizing ix with
  | nil => exact h
  | cons _ _ ih => exact ih h.erase

/-- The items under a text are the one increasing list with these items. -/
theorem find_eq {l : List α} (hl : l.Pairwise fun a b => compare a b = .lt)
    (h : ∀ x, x ∈ ix.find text ↔ x ∈ l) : ix.find text = l := by
  have hf : (ix.find text).Pairwise fun a b => compare a b = .lt := Std.ExtTreeSet.ordered_toList
  exact eq_of_pairwise_lt (f := id) hf hl h

end

section
variable {α : Type} [Ord α] [Std.TransOrd α] [Std.LawfulEqOrd α]
variable {ix ix' : Index α} {text t : String} {item x : α}

theorem mem_find : x ∈ ix.find t ↔ x ∈ ix.sets[t]?.getD ∅ := Std.ExtTreeSet.mem_toList

@[simp] theorem not_mem_find_empty : x ∉ (∅ : Index α).find t := by
  simp [mem_find, show (∅ : Index α).sets = ∅ from rfl]

/-- What stands in an index into which an item has been put. -/
theorem mem_find_insert :
    x ∈ (ix.insert text item).find t ↔ (t = text ∧ x = item) ∨ x ∈ ix.find t := by
  rw [mem_find, mem_find, insert]
  by_cases ht : text = t
  · subst ht
    simp [Std.ExtTreeSet.mem_insert, @eq_comm α x]
  · simp [Std.ExtTreeMap.getElem?_alter, ht, Ne.symm ht]

/-- What stands in an index from which an item has been taken. -/
theorem mem_find_erase :
    x ∈ (ix.erase text item).find t ↔ x ∈ ix.find t ∧ ¬ (t = text ∧ x = item) := by
  rw [mem_find, mem_find, erase]
  by_cases ht : text = t
  · subst ht
    simp only [Std.ExtTreeMap.getElem?_alter_self, true_and]
    cases hs : ix.sets[text]? with
    | none => simp
    | some set =>
      have herase : x ∈ set.erase item ↔ x ∈ set ∧ ¬ x = item := by
        rw [Std.ExtTreeSet.mem_erase]
        simp [and_comm, @eq_comm α x]
      by_cases he : (set.erase item).isEmpty
      · have : x ∉ set.erase item := by
          rw [Std.ExtTreeSet.isEmpty_iff.1 he]
          exact Std.ExtTreeSet.not_mem_empty
        rw [herase] at this
        simpa [he] using this
      · simpa [he] using herase
  · simp [Std.ExtTreeMap.getElem?_alter, ht, Ne.symm ht]

/-- A tight index keeps nothing under a text under which it shows no item. -/
theorem Tight.getElem?_eq_none (h : ix.Tight) (hnone : ∀ x, x ∉ ix.find t) :
    ix.sets[t]? = none := by
  refine Option.eq_none_iff_forall_ne_some.2 fun set hset => h t set hset ?_
  refine Std.ExtTreeSet.eq_empty_iff_forall_not_mem.2 fun x hx => hnone x ?_
  rwa [mem_find, hset]

/-- Tight indices that show the same items are equal. -/
theorem Tight.ext (h : ix.Tight) (h' : ix'.Tight) (hx : ∀ t x, x ∈ ix.find t ↔ x ∈ ix'.find t) :
    ix = ix' := by
  have key : ∀ {a b : Index α}, a.Tight → (∀ t x, x ∈ a.find t ↔ x ∈ b.find t) →
      ∀ {t : String} {set}, a.sets[t]? = some set → b.sets[t]? = some set := by
    intro a b ha hab t set hs
    have hset : set = b.sets[t]?.getD ∅ := by
      apply Std.ExtTreeSet.ext_mem
      intro x
      have := hab t x
      rwa [mem_find, mem_find, hs] at this
    cases hb : b.sets[t]? with
    | some set' => rw [hb] at hset; rw [hset]; rfl
    | none => rw [hb] at hset; exact absurd hset (ha t set hs)
  have : ix.sets = ix'.sets := by
    apply Std.ExtTreeMap.ext_getElem?
    intro t
    cases hs : ix.sets[t]? with
    | some set => rw [key h hx hs]
    | none =>
      cases hs' : ix'.sets[t]? with
      | none => rfl
      | some set => rw [key h' (fun t x => (hx t x).symm) hs'] at hs; cases hs
  cases ix; cases ix'; cases this; rfl

/-! ## Many items -/

/-- What stands in an index into which many items have been put. -/
theorem mem_find_foldl_insert {β : Type} {f : β → String} {g : β → α} {l : List β} :
    x ∈ (l.foldl (fun ix b => ix.insert (f b) (g b)) ix).find t ↔
      x ∈ ix.find t ∨ ∃ b ∈ l, f b = t ∧ g b = x := by
  induction l generalizing ix with
  | nil => simp
  | cons b l ih =>
    rw [List.foldl_cons, ih, mem_find_insert]
    constructor
    · rintro ((⟨rfl, rfl⟩ | h) | ⟨c, hc, h⟩)
      · exact .inr ⟨b, by simp, rfl, rfl⟩
      · exact .inl h
      · exact .inr ⟨c, by simp [hc], h⟩
    · rintro (h | ⟨c, hc, h⟩)
      · exact .inl (.inr h)
      · rcases List.mem_cons.1 hc with rfl | hc
        · exact .inl (.inl ⟨h.1.symm, h.2.symm⟩)
        · exact .inr ⟨c, hc, h⟩

/-- What stands in an index from which many items have been taken. -/
theorem mem_find_foldl_erase {f : α → String} {l : List α} :
    x ∈ (l.foldl (fun ix a => ix.erase (f a) a) ix).find t ↔
      x ∈ ix.find t ∧ ¬ (x ∈ l ∧ f x = t) := by
  induction l generalizing ix with
  | nil => simp
  | cons a l ih =>
    rw [List.foldl_cons, ih, mem_find_erase, List.mem_cons]
    constructor
    · rintro ⟨⟨h, hne⟩, hl⟩
      refine ⟨h, ?_⟩
      rintro ⟨rfl | hx, ht⟩
      · exact hne ⟨ht.symm, rfl⟩
      · exact hl ⟨hx, ht⟩
    · rintro ⟨h, hne⟩
      refine ⟨⟨h, ?_⟩, fun hl => hne ⟨.inr hl.1, hl.2⟩⟩
      rintro ⟨rfl, rfl⟩
      exact hne ⟨.inl rfl, rfl⟩

end

end Index

end ArchFacts
