import ApiSurface.Grouping
import ApiSurface.Merge.Conflict
import ApiSurface.Merge.Hierarchy

/-!
# Merged supertypes

The definitions of a class may name different superclasses. The class keeps the one that extends
all others, as far as one participant knows them all and can tell. Its direct interfaces are
those of all definitions.
-/

namespace ApiSurface

namespace ClassDef

/-- The superclasses of several definitions, the first reference to each. -/
def superclasses (defs : List ClassDef) : List Member :=
  distinctBy (·.name) (defs.filterMap (·.superclass))

/-- The candidate that extends every other one, where a participant has a class for each
candidate. -/
def mostDerivedIn? (candidates : List Member) (participant : Snapshot) : Option Member :=
  if candidates.all fun c => participant.contains c.name then
    let h := Hierarchy.ofSnapshot participant
    candidates.find? fun c => candidates.all fun other =>
      other.name = c.name || h.isSubclass c.name other.name
  else none

/-- The superclass that all definitions can share: the only one that they name, or else the one
that extends all others in the first participant that can tell. -/
def resolveSuperclass (participants : List Snapshot) (name : Text) (defs : List ClassDef) :
    Except Conflict (Option Member) :=
  match superclasses defs with
  | [] => .ok none
  | [only] => .ok (some only)
  | candidates =>
    match participants.findSome? (mostDerivedIn? candidates) with
    | some c => .ok (some c)
    | none => .error (.unrelatedSuperclasses name (candidates.map (·.name)))

/-- The direct interfaces of several definitions, the first reference to each. -/
def unionDirectInterfaces (defs : List ClassDef) : List Member :=
  distinctBy (·.name) (defs.flatMap (·.directInterfaces))

end ClassDef

end ApiSurface
