import ArchFacts.Proofs.Except
import ArchFacts.Proofs.Store.Index
import ArchFacts.Snapshot.Codec
import Mathlib.Tactic.Ring

/-!
# The parts of a snapshot read back

What a `put` function writes, the `get` function of the same name reads, whatever follows
(`Restores`). For numbers this needs that the number has the width that is read
(`getNumberFrom_putNumber`), and for texts and lists that they are not longer than a number of 64
bits can say. A part that has less than 2⁶⁴ bytes holds no longer texts and lists, since an item of
a list takes a byte at least; so the length of the whole is the only condition
(`restores_node`, `restores_edge`, `restores_list`).
-/

namespace ArchFacts.Snapshot

/-- Whether a part is read back from what is written of it, whatever follows. -/
def Restores {α : Type} (put : α → List UInt8) (get : Get α) (a : α) : Prop :=
  ∀ rest, get (put a ++ rest) = .ok (a, rest)

/-! ## Numbers -/

theorem toNat_toUInt8 {n : Nat} (h : n < 256) : n.toUInt8.toNat = n := by
  simp
  omega

/-- A number is read back if it is less than what so many bytes can hold, of which the last is
bounded. -/
theorem getNumberFrom_putNumber {lastByte : UInt8} (hl : lastByte.toNat < 128) {bytes n : Nat}
    (hn : n < 128 ^ bytes * (lastByte.toNat + 1)) (rest : List UInt8) :
    getNumberFrom lastByte (bytes + 1) (putNumber n ++ rest) = .ok (n, rest) := by
  induction bytes generalizing n with
  | zero =>
    have hsmall : n < 128 := by omega
    have hb : n.toUInt8.toNat = n := toNat_toUInt8 (by omega)
    have hlt : n.toUInt8 < 128 := by rw [UInt8.lt_iff_toNat_lt, hb]; exact hsmall
    have hlast : ¬ lastByte < n.toUInt8 := by rw [UInt8.lt_iff_toNat_lt, hb]; omega
    rw [putNumber, if_pos hsmall, List.singleton_append, getNumberFrom, if_pos hlt]
    simp [hlast, hb]
  | succ bytes ih =>
    rw [putNumber]
    split
    · next hsmall =>
      have hb : n.toUInt8.toNat = n := toNat_toUInt8 (by omega)
      have hlt : n.toUInt8 < 128 := by rw [UInt8.lt_iff_toNat_lt, hb]; exact hsmall
      rw [List.singleton_append, getNumberFrom, if_pos hlt, hb]
      rfl
    · next hlarge =>
      have hb : (n % 128 + 128).toUInt8.toNat = n % 128 + 128 := toNat_toUInt8 (by omega)
      have hge : ¬ (n % 128 + 128).toUInt8 < 128 := by
        rw [UInt8.lt_iff_toNat_lt, hb]
        exact Nat.not_lt.2 (Nat.le_add_left _ _)
      have hhigh : n / 128 < 128 ^ bytes * (lastByte.toNat + 1) := by
        rw [Nat.div_lt_iff_lt_mul (by omega)]
        calc n < 128 ^ (bytes + 1) * (lastByte.toNat + 1) := hn
          _ = 128 ^ bytes * (lastByte.toNat + 1) * 128 := by ring
      rw [List.cons_append, getNumberFrom, if_neg hge, ih hhigh, hb]
      have hvalue : n % 128 + 128 - 128 + 128 * (n / 128) = n := by omega
      exact congrArg (fun m => Except.ok (m, rest)) hvalue

/-- A number of 64 bits is read back. -/
theorem getNumber_putNumber {n : Nat} (hn : n < 2 ^ 64) (rest : List UInt8) :
    getNumber count (putNumber n ++ rest) = .ok (n, rest) := by
  have hcount : n < 128 ^ 9 * (count.lastByte.toNat + 1) := by simpa [count] using hn
  exact getNumberFrom_putNumber (by decide) hcount rest

/-- A number takes at least one byte. -/
theorem putNumber_ne_nil (n : Nat) : putNumber n ≠ [] := by
  rw [putNumber]
  split <;> exact List.cons_ne_nil _ _

/-! ## Texts, truth values and kinds -/

theorem fromUTF8?_toByteArray (s : String) : String.fromUTF8? s.toByteArray = some s := by
  rw [String.fromUTF8?, dif_pos s.isValidUTF8]
  rfl

/-- A text that is read from bytes is written in these bytes. -/
theorem toByteArray_of_fromUTF8? {bytes : ByteArray} {s : String}
    (h : String.fromUTF8? bytes = some s) : s.toByteArray = bytes := by
  rw [String.fromUTF8?] at h
  split at h
  · cases h
    rfl
  · cases h

/-- A text is read back if its length fits the reader of lengths. -/
theorem restores_text {s : String} (h : (putText s).length < 2 ^ 64) :
    Restores putText getText s := by
  intro rest
  rw [putText, List.length_append] at h
  have hbytes : getBytes s.toByteArray.data.toList.length (s.toByteArray.data.toList ++ rest) =
      .ok (s.toByteArray.data.toList, rest) := by
    simp [getBytes, List.splitAt_eq]
  have hlength : s.toByteArray.data.toList.length < 2 ^ 64 := by omega
  have htext : String.fromUTF8? ⟨s.toByteArray.data⟩ = some s := fromUTF8?_toByteArray s
  simp only [getText, putText, List.append_assoc, getNumber_putNumber hlength, ok_bind, hbytes,
    Array.toArray_toList, htext]
  rfl

theorem restores_bool (b : Bool) : Restores putBool getBool b := by
  intro rest
  cases b <;> rfl

/-- One of some choices is read back, if there are not too many for one byte. -/
theorem restores_choice {α : Type} [DecidableEq α] {choices : List α} {a : α} (ha : a ∈ choices)
    (hc : choices.length ≤ 128) : Restores (putChoice choices) (getChoice choices) a := by
  intro rest
  have hidx : choices.idxOf a < choices.length := List.idxOf_lt_length_of_mem ha
  have hnumber : getNumber choice (putNumber (choices.idxOf a) ++ rest) =
      .ok (choices.idxOf a, rest) := by
    refine getNumberFrom_putNumber (by decide) ?_ rest
    have hwidth : 128 ^ 4 * (choice.lastByte.toNat + 1) = 2 ^ 32 := by simp [choice]
    rw [hwidth]
    omega
  rw [getChoice, putChoice, hnumber, ok_bind]
  simp only [List.getElem?_eq_getElem hidx, List.getElem_idxOf]
  rfl

/-! ## Lists -/

section
variable {α : Type} {put : α → List UInt8} {get : Get α} {items : List α}

/-- Items that are read back one by one are read back in a row. -/
theorem getMany_flatMap (h : ∀ a ∈ items, Restores put get a) (before : List α)
    (rest : List UInt8) :
    getMany get before items.length (items.flatMap put ++ rest) =
      .ok (before.reverse ++ items, rest) := by
  induction items generalizing before with
  | nil => simp [getMany]
  | cons a items ih =>
    rw [List.flatMap_cons, List.append_assoc, List.length_cons, getMany, h a (by simp)]
    simp [ih fun b hb => h b (by simp [hb])]

/-- Each item takes no more bytes than all of them. -/
theorem length_put_le {a : α} (ha : a ∈ items) :
    (put a).length ≤ (items.flatMap put).length := by
  obtain ⟨before, after, rfl⟩ := List.append_of_mem ha
  simp only [List.flatMap_append, List.flatMap_cons, List.length_append]
  omega

/-- There are no more items than bytes, if each takes a byte. -/
theorem length_le_length_flatMap (hput : ∀ a, put a ≠ []) :
    items.length ≤ (items.flatMap put).length := by
  induction items with
  | nil => simp
  | cons a items ih =>
    have ha := List.length_pos_iff.2 (hput a)
    rw [List.flatMap_cons, List.length_append, List.length_cons]
    omega

/-- A list is read back if items of its size are. -/
theorem restores_list (hput : ∀ a, put a ≠ [])
    (hitem : ∀ a, (put a).length < 2 ^ 64 → Restores put get a)
    (h : (putList put items).length < 2 ^ 64) : Restores (putList put) (getList get) items := by
  intro rest
  rw [putList, List.length_append] at h
  have hcount : items.length ≤ (items.flatMap put).length := length_le_length_flatMap hput
  have hlength : items.length < 2 ^ 64 := by omega
  have hitems : ∀ a ∈ items, Restores put get a := by
    intro a ha
    have hle : (put a).length ≤ (items.flatMap put).length := length_put_le ha
    exact hitem a (by omega)
  simp only [getList, putList, List.append_assoc, getNumber_putNumber hlength, ok_bind,
    getMany_flatMap hitems]
  rfl

end

/-! ## Attributes, entities and relations -/

theorem putText_ne_nil (s : String) : putText s ≠ [] :=
  List.append_ne_nil_of_left_ne_nil (putNumber_ne_nil _) _

/-- A key is read back with its values. -/
theorem restores_entry {entry : String × List String} (h : (putEntry entry).length < 2 ^ 64) :
    Restores putEntry getEntry entry := by
  intro rest
  rw [putEntry, List.length_append] at h
  have hkey : Restores putText getText entry.1 := restores_text (by omega)
  have hvalues : Restores (putList putText) (getList getText) entry.2 :=
    restores_list putText_ne_nil (fun _ => restores_text) (by omega)
  simp only [getEntry, putEntry, List.append_assoc, hkey _, hvalues _, ok_bind]
  rfl

/-- Attributes are those of their own lists. -/
theorem ofLists_toList (a : Attributes) : Attributes.ofLists a.toList = a :=
  congrArg Attributes.mk foldl_insert_toList

/-- Attributes are read back: their keys are in order, so the reader puts them together again. -/
theorem restores_attributes {a : Attributes} (h : (putAttributes a).length < 2 ^ 64) :
    Restores putAttributes getAttributes a := by
  intro rest
  have hentry : ∀ entry, putEntry entry ≠ [] := fun entry =>
    List.append_ne_nil_of_left_ne_nil (putText_ne_nil _) _
  have hentries : Restores (putList putEntry) (getList getEntry) a.toList :=
    restores_list hentry (fun _ => restores_entry) h
  simp only [getAttributes, putAttributes, hentries _, ok_bind, ofLists_toList]
  rfl

/-- An entity is read back with its attributes. -/
theorem restores_node {n : Node} (h : (putNode n).length < 2 ^ 64) :
    Restores putNode getNode n := by
  intro rest
  simp only [putNode, List.length_append] at h
  have hid : Restores putText getText n.id := restores_text (by omega)
  have hname : Restores putText getText n.name := restores_text (by omega)
  have hkind : Restores (putChoice NodeKind.all) (getChoice NodeKind.all) n.kind :=
    restores_choice (by cases n.kind <;> decide) (by decide)
  have hattributes : Restores putAttributes getAttributes n.attributes :=
    restores_attributes (by omega)
  simp only [getNode, putNode, List.append_assoc, hid _, hname _, hkind _, hattributes _, ok_bind]
  rfl

/-- A relation is read back with its attributes and whether it is resolved. -/
theorem restores_edge {e : Edge} (h : (putEdge e).length < 2 ^ 64) :
    Restores putEdge getEdge e := by
  intro rest
  simp only [putEdge, List.length_append] at h
  have hsource : Restores putText getText e.source := restores_text (by omega)
  have hdest : Restores putText getText e.dest := restores_text (by omega)
  have hkind : Restores (putChoice EdgeKind.all) (getChoice EdgeKind.all) e.kind :=
    restores_choice (by cases e.kind <;> decide) (by decide)
  have hresolved : Restores putBool getBool e.resolved := restores_bool _
  have hattributes : Restores putAttributes getAttributes e.attributes :=
    restores_attributes (by omega)
  simp only [getEdge, putEdge, List.append_assoc, hsource _, hdest _, hkind _, hresolved _,
    hattributes _, ok_bind]
  rfl

end ArchFacts.Snapshot
