import ApiSurface.ClassDef
import ApiSurface.Sorted.Map

/-!
# Snapshots

A snapshot holds the classes captured from one source, each under its qualified name.
-/

namespace ApiSurface

/-- The classes of one source by qualified name. -/
abbrev Snapshot := SortedMap Text ClassDef

namespace Snapshot

/-- The snapshot with one class more, in place of an earlier class of that name. -/
def add (s : Snapshot) (c : ClassDef) : Snapshot := s.insert c.name c

/-- The snapshot of a list of classes; of several with one name the last counts. -/
def ofClasses (l : List ClassDef) : Snapshot := l.foldl add ∅

/-- The packages of all classes, without the default package. -/
def packages (s : Snapshot) : SortedSet Text :=
  .ofList ((s.keys.map packageOf).filter (· ≠ []))

/-- Every class is listed under its own name. -/
def Named (s : Snapshot) : Prop := ∀ e ∈ s.entries, e.1 = e.2.name

instance (s : Snapshot) : Decidable s.Named :=
  inferInstanceAs (Decidable (∀ e ∈ s.entries, e.1 = e.2.name))

end Snapshot

end ApiSurface
