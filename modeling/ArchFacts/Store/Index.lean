import Std.Data.ExtTreeMap
import Std.Data.ExtTreeSet

/-!
# Indices

An index keeps, under each of some texts, a set of items. No set is kept when it is empty, so that
two indices with the same items are equal.
-/

namespace ArchFacts

/-- Sets of items under texts. -/
structure Index (α : Type) [Ord α] where
  sets : Std.ExtTreeMap String (Std.ExtTreeSet α) := ∅

namespace Index

variable {α : Type} [Ord α] [Std.TransOrd α]

instance [Std.LawfulEqOrd α] [DecidableEq α] : DecidableEq (Index α)
  | ⟨a⟩, ⟨b⟩ => decidable_of_iff (a = b) (by simp)

instance : EmptyCollection (Index α) := ⟨{}⟩
instance : Inhabited (Index α) := ⟨∅⟩

/-- The items under a text, in increasing order. -/
def find (ix : Index α) (text : String) : List α := (ix.sets[text]?.getD ∅).toList

/-- Puts an item under a text. -/
def insert (ix : Index α) (text : String) (item : α) : Index α :=
  ⟨ix.sets.alter text fun set? => some ((set?.getD ∅).insert item)⟩

/-- Takes an item away from a text, and with the last item the text. -/
def erase (ix : Index α) (text : String) (item : α) : Index α :=
  ⟨ix.sets.alter text fun
    | none => none
    | some set => if (set.erase item).isEmpty then none else some (set.erase item)⟩

end Index

end ArchFacts
