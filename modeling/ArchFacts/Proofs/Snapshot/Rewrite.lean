import ArchFacts.Proofs.Snapshot.History
import Mathlib.Data.List.Flatten
import Mathlib.Data.List.Perm.Subperm

/-!
# Snapshots written anew

Bytes that are decoded need not be what is written of the store they decode to: numbers may be
padded, and what is listed may be repeated, in disorder, or left out by the store. But the reader of
a part never takes fewer bytes than are written of what it reads (`Shrinks`), and a store holds
nothing that is not listed, once each, with labels that have become names
(`nodeList_ofLists_subperm`, `edgeList_ofLists_subperm`). So what is written of the store is no
longer than the bytes it was decoded from. It is within the limit of size, therefore, and it is
decoded to the same store (`decode_encode_of_decode`).
-/

namespace ArchFacts

/-! ## What is listed and what is held -/

theorem Attributes.nodup_toList {a : Attributes} : a.toList.Nodup :=
  nodup_of_pairwise_lt a.entries.ordered_keys_toList

/-- Attributes that are made of a list hold entries of the list, each once. -/
theorem Attributes.toList_ofLists_subperm (entries : List (String × List String)) :
    (ofLists entries).toList.Subperm entries := by
  refine nodup_toList.subperm fun x hx => ?_
  have hget : (ofLists entries).entries[x.1]? = some x.2 :=
    Std.ExtTreeMap.mem_toList_iff_getElem?_eq_some.1 hx
  rw [ofLists, getElem?_foldl_insert, Std.ExtTreeMap.getElem?_empty, Option.or_none] at hget
  obtain ⟨y, hy, hvalues⟩ := Option.map_eq_some_iff.1 hget
  have hkey : y.1 = x.1 := by simpa using List.find?_some hy
  have hxy : y = x := Prod.ext hkey hvalues
  exact hxy ▸ List.mem_reverse.1 (List.mem_of_find?_eq_some hy)

/-- An entry of some attributes, and what these hold without it, are entries of them. -/
theorem Attributes.cons_erase_subperm {a : Attributes} {key : String} {values : List String}
    (h : a.entries[key]? = some values) :
    ((key, values) :: (a.erase key).toList).Subperm a.toList := by
  have hrest : ∀ {x}, x ∈ (a.erase key).toList → key ≠ x.1 ∧ x ∈ a.toList := by
    intro x hx
    have hget : (a.erase key).entries[x.1]? = some x.2 :=
      Std.ExtTreeMap.mem_toList_iff_getElem?_eq_some.1 hx
    simp only [erase, Std.ExtTreeMap.getElem?_erase, Std.LawfulEqCmp.compare_eq_iff_eq] at hget
    split at hget
    · cases hget
    · next hne => exact ⟨hne, Std.ExtTreeMap.mem_toList_iff_getElem?_eq_some.2 hget⟩
  have hnodup : ((key, values) :: (a.erase key).toList).Nodup :=
    List.nodup_cons.2 ⟨fun hmem => (hrest hmem).1 rfl, nodup_toList⟩
  refine hnodup.subperm fun x hx => ?_
  rcases List.mem_cons.1 hx with rfl | hx
  · exact Std.ExtTreeMap.mem_toList_iff_getElem?_eq_some.2 h
  · exact (hrest hx).2

namespace Store

section
variable (nodes : List Node) (edges : List Edge)

/-- The store of some lists holds entities of them, each once, their labels turned into names. -/
theorem nodeList_ofLists_subperm :
    (ofLists nodes edges).nodeList.Subperm (nodes.map Node.takeLabel) := by
  have hc : (ofLists nodes edges).Coherent := coherent_ofLists nodes edges
  have hnodup : (ofLists nodes edges).nodeList.Nodup := nodup_of_pairwise_lt hc.pairwise_nodeList
  refine hnodup.subperm fun n hn => ?_
  rw [mem_nodeList hc, getElem?_nodes_ofLists] at hn
  obtain ⟨m, hm, rfl⟩ := Option.map_eq_some_iff.1 hn
  exact List.mem_map_of_mem (List.mem_reverse.1 (List.mem_of_find?_eq_some hm))

/-- The store of some lists holds relations of them, each once. -/
theorem edgeList_ofLists_subperm : (ofLists nodes edges).edgeList.Subperm edges := by
  have hc : (ofLists nodes edges).Coherent := coherent_ofLists nodes edges
  have hnodup : (ofLists nodes edges).edgeList.Nodup := nodup_of_pairwise_lt hc.pairwise_edgeList
  refine hnodup.subperm fun e he => ?_
  rw [mem_edgeList hc, getElem?_edges_ofLists] at he
  split at he
  · cases he
  · exact List.mem_reverse.1 (List.mem_of_find?_eq_some he)

end

end Store

namespace Snapshot

/-! ## The lengths of what is written -/

/-- A number below 128 takes one byte. -/
theorem length_putNumber_of_lt {n : Nat} (h : n < 128) : (putNumber n).length = 1 := by
  rw [putNumber, if_pos h, List.length_singleton]

/-- Any other number takes one byte more than its 128th part. -/
theorem length_putNumber_of_ge {n : Nat} (h : 128 ≤ n) :
    (putNumber n).length = (putNumber (n / 128)).length + 1 := by
  rw [putNumber, if_neg (Nat.not_lt.2 h), List.length_cons]

/-- A smaller number takes no more bytes. -/
theorem length_putNumber_le {m n : Nat} (h : m ≤ n) :
    (putNumber m).length ≤ (putNumber n).length := by
  induction n using Nat.strongRecOn generalizing m with
  | ind n ih =>
    rcases Nat.lt_or_ge m 128 with hm | hm
    · rw [length_putNumber_of_lt hm]
      exact List.length_pos_iff.2 (putNumber_ne_nil n)
    · rw [length_putNumber_of_ge hm, length_putNumber_of_ge (hm.trans h)]
      exact Nat.succ_le_succ (ih (n / 128) (by omega) (Nat.div_le_div_right h))

section
variable {α : Type} (put : α → List UInt8) {items items' : List α} {a : α}

/-- Items that are among others take no more bytes. -/
theorem length_flatMap_le_of_subperm (h : items.Subperm items') :
    (items.flatMap put).length ≤ (items'.flatMap put).length := by
  obtain ⟨l, hperm, hsub⟩ := h
  rw [← (hperm.flatMap_right put).length_eq]
  exact (hsub.flatMap put).length_le

/-- A list of items that are among others takes no more bytes. -/
theorem length_putList_le_of_subperm (h : items.Subperm items') :
    (putList put items).length ≤ (putList put items').length := by
  have hcount := length_putNumber_le h.length_le
  have hitems := length_flatMap_le_of_subperm put h
  simp only [putList, List.length_append]
  omega

/-- A list without one of its items takes fewer bytes by that item at least. -/
theorem length_put_add_length_putList_le (h : (a :: items).Subperm items') :
    (put a).length + (putList put items).length ≤ (putList put items').length := by
  have hcount := length_putNumber_le (Nat.le_of_succ_le h.length_le)
  have hitems := length_flatMap_le_of_subperm put h
  simp only [putList, List.flatMap_cons, List.length_append] at hitems ⊢
  omega

/-- A list of items that take no more bytes each takes no more bytes. -/
theorem length_putList_map_le {f : α → α} (h : ∀ a, (put (f a)).length ≤ (put a).length)
    (items : List α) : (putList put (items.map f)).length ≤ (putList put items).length := by
  have hitems : ((items.map f).flatMap put).length ≤ (items.flatMap put).length := by
    induction items with
    | nil => exact Nat.le_refl 0
    | cons a items ih =>
      simp only [List.map_cons, List.flatMap_cons, List.length_append]
      exact Nat.add_le_add (h a) ih
  simp only [putList, List.length_append, List.length_map]
  omega

end

/-- An entity takes no more bytes when its label becomes its name. -/
theorem length_putNode_takeLabel_le (n : Node) :
    (putNode n.takeLabel).length ≤ (putNode n).length := by
  cases hlabel : n.attributes.entries[labelKey]? with
  | none =>
    have habsent : labelKey ∉ n.attributes.entries := by
      simp [Std.ExtTreeMap.mem_iff_isSome_getElem?, hlabel]
    rw [Node.takeLabel_eq habsent]
  | some values =>
    have htaken : n.takeLabel =
        { n with name := values.head?.getD n.name, attributes := n.attributes.erase labelKey } := by
      rw [Node.takeLabel, Attributes.take, Attributes.values_of_getElem? hlabel]
    have hattributes : (putEntry (labelKey, values)).length +
        (putAttributes (n.attributes.erase labelKey)).length ≤
          (putAttributes n.attributes).length :=
      length_put_add_length_putList_le putEntry (Attributes.cons_erase_subperm hlabel)
    have hname : (putText (values.head?.getD n.name)).length ≤
        (putText n.name).length + (putEntry (labelKey, values)).length := by
      cases values with
      | nil => exact Nat.le_add_right _ _
      | cons v vs =>
        rw [putEntry, putList, List.flatMap_cons]
        simp only [List.head?_cons, Option.getD_some, List.length_append]
        omega
    rw [htaken]
    simp only [putNode, List.length_append]
    omega

/-! ## The readers of parts -/

/-- Whether a reader never takes fewer bytes than are written of what it reads. -/
def Shrinks {α : Type} (put : α → List UInt8) (get : Get α) : Prop :=
  ∀ ⦃bytes a rest⦄, get bytes = .ok (a, rest) → (put a).length + rest.length ≤ bytes.length

/-- What is written of a number is no longer than what a reader takes for it. -/
theorem shrinks_numberFrom (lastByte : UInt8) (n : Nat) :
    Shrinks putNumber (getNumberFrom lastByte n) := by
  induction n with
  | zero =>
    intro bytes a rest h
    cases h
  | succ n ih =>
    intro bytes a rest h
    cases bytes with
    | nil => cases h
    | cons b bytes =>
      rw [getNumberFrom] at h
      split at h
      · next hlast =>
        split at h
        · cases h
        · cases h
          rw [length_putNumber_of_lt (UInt8.lt_iff_toNat_lt.1 hlast), List.length_cons]
          omega
      · split at h
        · next high rest' hhigh =>
          cases h
          have hle := ih hhigh
          have hb : b.toNat - 128 < 128 := by have := b.toNat_lt; omega
          rw [List.length_cons]
          rcases Nat.eq_zero_or_pos high with rfl | hpos
          · rw [length_putNumber_of_lt (by omega)]
            omega
          · have hdiv : (b.toNat - 128 + 128 * high) / 128 = high := by omega
            rw [length_putNumber_of_ge (by omega), hdiv]
            omega
        · cases h

theorem shrinks_number (w : Width) : Shrinks putNumber (getNumber w) := shrinks_numberFrom _ _

/-- Bytes that are taken are as many as asked for, and they and the rest are all there were. -/
theorem eq_append_of_getBytes {n : Nat} {bytes taken rest : List UInt8}
    (h : getBytes n bytes = .ok (taken, rest)) : taken.length = n ∧ bytes = taken ++ rest := by
  simp only [getBytes, List.splitAt_eq] at h
  split at h
  · next hlength =>
    cases h
    exact ⟨hlength, (List.take_append_drop n bytes).symm⟩
  · cases h

theorem shrinks_text : Shrinks putText getText := by
  intro bytes s rest h
  obtain ⟨⟨n, rest₁⟩, hn, h⟩ := bind_eq_ok_iff.1 h
  obtain ⟨⟨taken, rest₂⟩, htaken, h⟩ := bind_eq_ok_iff.1 h
  dsimp only at h
  split at h
  · next s' hs =>
    cases h
    have hnumber := shrinks_number count hn
    obtain ⟨rfl, rfl⟩ := eq_append_of_getBytes htaken
    have hbytes : s.toByteArray.data.toList = taken := by rw [toByteArray_of_fromUTF8? hs]
    rw [List.length_append] at hnumber
    rw [putText, hbytes, List.length_append]
    omega
  · cases h

theorem shrinks_bool : Shrinks putBool getBool := by
  intro bytes b rest h
  cases bytes with
  | nil => cases h
  | cons x bytes =>
    have hrest : rest = bytes := by
      rw [getBool] at h
      split at h
      · cases h
        rfl
      · split at h
        · cases h
          rfl
        · cases h
    rw [hrest, putBool, List.length_singleton, List.length_cons, Nat.add_comm]

/-- A choice is written as the number that was read. -/
theorem shrinks_choice {α : Type} [DecidableEq α] (choices : List α) :
    Shrinks (putChoice choices) (getChoice choices) := by
  intro bytes a rest h
  obtain ⟨⟨n, rest₁⟩, hn, h⟩ := bind_eq_ok_iff.1 h
  have hnumber := shrinks_number choice hn
  dsimp only at h
  split at h
  · next a' ha =>
    cases h
    have hfirst : choices.idxOf a ≤ n := by
      obtain ⟨hlt, hget⟩ := List.getElem?_eq_some_iff.1 ha
      by_contra hn
      have hother := List.not_of_lt_findIdx (Nat.lt_of_not_le hn)
      simp [hget] at hother
    have hchoice := length_putNumber_le hfirst
    rw [putChoice]
    omega
  · cases h

section
variable {α : Type} {put : α → List UInt8} {get : Get α}

/-- Items that are read in a row are written in no more bytes. -/
theorem Shrinks.many (hget : Shrinks put get) {n : Nat} {before items : List α}
    {bytes rest : List UInt8} (h : getMany get before n bytes = .ok (items, rest)) :
    ∃ l, items = before.reverse ++ l ∧ l.length = n ∧
      (l.flatMap put).length + rest.length ≤ bytes.length := by
  induction n generalizing before bytes with
  | zero =>
    cases h
    exact ⟨[], by simp⟩
  | succ n ih =>
    rw [getMany] at h
    split at h
    · next a rest' ha =>
      obtain ⟨l, rfl, hlength, hle⟩ := ih h
      have hitem := hget ha
      refine ⟨a :: l, by simp, by rw [List.length_cons, hlength], ?_⟩
      rw [List.flatMap_cons, List.length_append]
      omega
    · cases h

/-- A list never takes more bytes if its members never do. -/
theorem Shrinks.list (hget : Shrinks put get) : Shrinks (putList put) (getList get) := by
  intro bytes items rest h
  obtain ⟨⟨n, rest'⟩, hn, h⟩ := bind_eq_ok_iff.1 h
  obtain ⟨l, rfl, rfl, hle⟩ := hget.many h
  have hnumber := shrinks_number count hn
  rw [putList, List.length_append]
  omega

end

theorem shrinks_entry : Shrinks putEntry getEntry := by
  intro bytes entry rest h
  obtain ⟨⟨key, rest₁⟩, hkey, h⟩ := bind_eq_ok_iff.1 h
  obtain ⟨⟨values, rest₂⟩, hvalues, h⟩ := bind_eq_ok_iff.1 h
  cases h
  have hkey := shrinks_text hkey
  have hvalues := shrinks_text.list hvalues
  simp only [putEntry, List.length_append]
  omega

/-- Attributes never take more bytes: keys that stand twice are put together, and values stay as
they are. -/
theorem shrinks_attributes : Shrinks putAttributes getAttributes := by
  intro bytes a rest h
  obtain ⟨⟨entries, rest'⟩, hentries, h⟩ := bind_eq_ok_iff.1 h
  cases h
  have hlist := shrinks_entry.list hentries
  have hheld := length_putList_le_of_subperm putEntry
    (Attributes.toList_ofLists_subperm entries)
  rw [putAttributes]
  omega

theorem shrinks_node : Shrinks putNode getNode := by
  intro bytes n rest h
  obtain ⟨⟨id, rest₁⟩, hid, h⟩ := bind_eq_ok_iff.1 h
  obtain ⟨⟨name, rest₂⟩, hname, h⟩ := bind_eq_ok_iff.1 h
  obtain ⟨⟨kind, rest₃⟩, hkind, h⟩ := bind_eq_ok_iff.1 h
  obtain ⟨⟨attributes, rest₄⟩, hattributes, h⟩ := bind_eq_ok_iff.1 h
  cases h
  have hid := shrinks_text hid
  have hname := shrinks_text hname
  have hkind := shrinks_choice _ hkind
  have hattributes := shrinks_attributes hattributes
  simp only [putNode, List.length_append]
  omega

theorem shrinks_edge : Shrinks putEdge getEdge := by
  intro bytes e rest h
  obtain ⟨⟨source, rest₁⟩, hsource, h⟩ := bind_eq_ok_iff.1 h
  obtain ⟨⟨dest, rest₂⟩, hdest, h⟩ := bind_eq_ok_iff.1 h
  obtain ⟨⟨kind, rest₃⟩, hkind, h⟩ := bind_eq_ok_iff.1 h
  obtain ⟨⟨resolved, rest₄⟩, hresolved, h⟩ := bind_eq_ok_iff.1 h
  obtain ⟨⟨attributes, rest₅⟩, hattributes, h⟩ := bind_eq_ok_iff.1 h
  cases h
  have hsource := shrinks_text hsource
  have hdest := shrinks_text hdest
  have hkind := shrinks_choice _ hkind
  have hresolved := shrinks_bool hresolved
  have hattributes := shrinks_attributes hattributes
  simp only [putEdge, List.length_append]
  omega

/-- A store never takes more bytes: of entities that share an id, and of relations that share a key,
one is written. -/
theorem shrinks_store : Shrinks putStore getStore := by
  intro bytes s rest h
  obtain ⟨⟨nodes, rest₁⟩, hnodes, h⟩ := bind_eq_ok_iff.1 h
  obtain ⟨⟨edges, rest₂⟩, hedges, h⟩ := bind_eq_ok_iff.1 h
  cases h
  have hnodes := shrinks_node.list hnodes
  have hedges := shrinks_edge.list hedges
  have hlabels := length_putList_map_le putNode length_putNode_takeLabel_le nodes
  have hheldNodes := length_putList_le_of_subperm putNode
    (Store.nodeList_ofLists_subperm nodes edges)
  have hheldEdges := length_putList_le_of_subperm putEdge
    (Store.edgeList_ofLists_subperm nodes edges)
  rw [putStore, List.length_append]
  omega

/-! ## Snapshots -/

section
variable {bytes : ByteArray} {s : Store}

/-- What is written of a store is no longer than the bytes that the store was decoded from. -/
theorem size_encode_le_of_decode (h : decode bytes = .ok s) : (encode s).size ≤ bytes.size := by
  have hbytes : ofBytes bytes.data.toList = .ok s := by
    rw [decode, mapError_eq_ok_iff] at h
    split at h
    · cases h
    · exact h
  obtain ⟨payload, rest, hpayload, hstore⟩ := ofBytes_eq_ok_iff.1 hbytes
  have hlength := congrArg List.length hpayload
  have hle := shrinks_store hstore
  have hsize : (encode s).size = (Header.current.toBytes ++ putStore s).length := by
    simp [encode, toBytes, ← ByteArray.size_data]
  rw [Array.length_toList, ByteArray.size_data, List.length_append] at hlength
  rw [hsize, List.length_append, hlength]
  omega

/-- **What is decoded is written in a form that lasts.** What is written of the store that some
bytes decode to is no longer than these bytes, however their numbers are padded and whatever they
list twice, in disorder or in vain, and it is decoded to the same store, indices included. -/
theorem decode_encode_of_decode (h : decode bytes = .ok s) :
    (encode s).size ≤ bytes.size ∧ decode (encode s) = .ok s := by
  have hle : (encode s).size ≤ bytes.size := size_encode_le_of_decode h
  have hlimit : bytes.size ≤ sizeLimit := by
    obtain ⟨_, _, hlists, -⟩ := decode_eq_ok_iff.1 h
    exact hlists.1
  exact ⟨hle, decode_encode (canonical_decode h) (hle.trans hlimit)⟩

/-- A padded number, an entity that is listed twice, a label, a key without values, a
self-containment, and two bytes at the end. -/
def repetitiveBytes : ByteArray :=
  ⟨#[0x46, 0x42, 0x53, 0x4E, 1, 0x83, 0x80, 0, 1, 0x62, 1, 0x62, 3, 0,
    1, 0x61, 1, 0x61, 0, 2, 5, 0x6C, 0x61, 0x62, 0x65, 0x6C, 1, 1, 0x41, 1, 0x6B, 0,
    1, 0x62, 1, 0x42, 3, 0, 2, 1, 0x61, 1, 0x61, 0, 0, 0, 1, 0x62, 1, 0x61, 2, 1, 0, 0xFF, 0]⟩

example : (decode repetitiveBytes).toOption.map toBytes =
    some [0x46, 0x42, 0x53, 0x4E, 1, 2, 1, 0x61, 1, 0x41, 0, 1, 1, 0x6B, 0, 1, 0x62, 1, 0x42, 3, 0,
      1, 1, 0x62, 1, 0x61, 2, 1, 0] := by
  decide +kernel

theorem decode_encode_of_decode_repetitive :
    ∃ s, decode repetitiveBytes = .ok s ∧
      (encode s).size ≤ repetitiveBytes.size ∧ decode (encode s) = .ok s := by
  have hdecoded : (decode repetitiveBytes).isOk = true := by decide +kernel
  obtain ⟨s, hs⟩ := exists_of_isOk hdecoded
  exact ⟨s, hs, decode_encode_of_decode hs⟩

end

end Snapshot

end ArchFacts
