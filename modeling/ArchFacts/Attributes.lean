import Std.Data.ExtTreeMap

/-!
# Attributes

An entity or a relation carries attributes: each key has a list of values, in the order in which
they were first added and without repetition. Keys are listed in increasing order. Since the
entries are an extensional map, two collections of attributes are equal as soon as every key has the
same values and the same keys are present.
-/

namespace ArchFacts

/-- Lists of values under keys. -/
structure Attributes where
  entries : Std.ExtTreeMap String (List String) := ∅
  deriving DecidableEq

namespace Attributes

instance : EmptyCollection Attributes := ⟨{}⟩
instance : Inhabited Attributes := ⟨∅⟩

/-- The values under a key, in the order in which they were added; none for an absent key. -/
def values (a : Attributes) (key : String) : List String := a.entries[key]?.getD []

/-- Whether a value is present under a key. -/
def contains (a : Attributes) (key value : String) : Bool := (a.values key).contains value

/-- Adds a value under a key, after the values that are there. A value that is already there is not
added again. -/
def insert (a : Attributes) (key value : String) : Attributes :=
  if a.contains key value then a else ⟨a.entries.insert key (a.values key ++ [value])⟩

/-- Adds a value under a key, and says whether it is new there. -/
def add (a : Attributes) (key value : String) : Bool × Attributes :=
  (!a.contains key value, a.insert key value)

/-- Adds several values under one key, in order. -/
def insertAll (a : Attributes) (key : String) (values : List String) : Attributes :=
  values.foldl (fun a value => a.insert key value) a

/-- Forgets a key with all its values. -/
def erase (a : Attributes) (key : String) : Attributes := ⟨a.entries.erase key⟩

/-- Takes a key out with all its values. -/
def take (a : Attributes) (key : String) : List String × Attributes := (a.values key, a.erase key)

/-- The keys in increasing order, each with its values. -/
def toList (a : Attributes) : List (String × List String) := a.entries.toList

/-- The number of keys. -/
def size (a : Attributes) : Nat := a.entries.size

/-- Whether there are no keys. -/
def isEmpty (a : Attributes) : Bool := a.entries.isEmpty

/-- The attributes with the given lists under the given keys, taken as they are. Of two lists under
one key the later counts. -/
def ofLists (entries : List (String × List String)) : Attributes :=
  ⟨entries.foldl (fun m (key, values) => m.insert key values) ∅⟩

/-- Adds every value of `b` to `a`, keys in increasing order and values in their order. -/
def merge (a b : Attributes) : Attributes :=
  b.toList.foldl (fun a (key, values) => a.insertAll key values) a

@[simp] theorem values_empty (key : String) : (∅ : Attributes).values key = [] := by
  simp [values, show (∅ : Attributes).entries = ∅ from rfl]

theorem values_insert (a : Attributes) (key value k : String) :
    (a.insert key value).values k =
      if k = key ∧ value ∉ a.values key then a.values k ++ [value] else a.values k := by
  by_cases h : value ∈ a.values key
  · simp [insert, contains, h]
  · have hc : a.contains key value = false := by simpa [contains] using h
    by_cases hk : k = key
    · subst hk
      rw [insert, hc, if_neg Bool.false_ne_true, if_pos ⟨rfl, h⟩]
      simp [values]
    · rw [insert, hc, if_neg Bool.false_ne_true, if_neg fun h' => hk h'.1]
      simp [values, Std.ExtTreeMap.getElem?_insert, Ne.symm hk]

theorem values_erase (a : Attributes) (key k : String) :
    (a.erase key).values k = if k = key then [] else a.values k := by
  by_cases hk : k = key
  · subst hk; simp [erase, values]
  · simp [erase, values, Std.ExtTreeMap.getElem?_erase, hk, Ne.symm hk]

end Attributes

end ArchFacts
