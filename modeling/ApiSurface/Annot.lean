import ApiSurface.Text.Basic
import ApiSurface.Sorted.Set

/-!
# Annotations

An annotation is a name with a list of named values. Annotations are ordered by name and then
by their values, pair by pair, so that a set of them has one written order.
-/

namespace ApiSurface

open Std

/-- An annotation of a class or member. -/
structure Annot where
  /-- The name of the annotation type. -/
  name : Text
  /-- The named values in the order in which they are declared. -/
  members : List (Text × Text) := []
  deriving DecidableEq

namespace Annot

/-- The first value of a member. -/
def value? (a : Annot) (member : Text) : Option Text :=
  (a.members.find? (·.1 = member)).map (·.2)

/-- The order of pairs: by the first part, then by the second. -/
def comparePair : Text × Text → Text × Text → Ordering :=
  compareLex (compareOn (·.1)) (compareOn (·.2))

instance : LawfulEqCmp comparePair where
  compare_self := by simp [comparePair, compareLex, compareOn, ReflCmp.compare_self]
  eq_of_compare {a b} h := by
    simp only [comparePair, compareLex_eq_eq, compareOn] at h
    exact Prod.ext (LawfulEqOrd.eq_of_compare h.1) (LawfulEqOrd.eq_of_compare h.2)

instance : TransCmp comparePair := inferInstanceAs (TransCmp (compareLex _ _))

/-- The order of the lists of named values. -/
def compareMembers (a b : Annot) : Ordering := List.compareLex comparePair a.members b.members

instance : TransCmp compareMembers where
  eq_swap := (inferInstance : OrientedCmp (List.compareLex comparePair)).eq_swap
  isLE_trans := (inferInstance : TransCmp (List.compareLex comparePair)).isLE_trans

/-- Annotations are ordered by name, then by the list of named values. -/
instance : Ord Annot := ⟨compareLex (compareOn (·.name)) compareMembers⟩

instance : TransOrd Annot := inferInstanceAs (TransCmp (compareLex _ _))

instance : LawfulEqOrd Annot where
  eq_of_compare {a b} h := by
    obtain ⟨hname, hmembers⟩ := compareLex_eq_eq.1 h
    obtain ⟨name, members⟩ := a
    obtain ⟨name', members'⟩ := b
    obtain rfl : name = name' := LawfulEqOrd.eq_of_compare hname
    obtain rfl : members = members' := LawfulEqCmp.eq_of_compare hmembers
    rfl

end Annot

end ApiSurface
