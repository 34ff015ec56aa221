import ApiSurface.Erasure.Unresolved
import ApiSurface.Merge.Definitions
import ApiSurface.Merge.Nested

/-!
# Merged snapshots

The snapshots of several participants become one. Each class is merged on its own, against the
snapshots of the participants and never against the result; after that nested classes and the
names of packages are looked at in the result as a whole.
-/

namespace ApiSurface

/-- What a merge gives. -/
structure Report where
  /-- The merged classes. -/
  snapshot : Snapshot
  /-- The conflicts: those of the classes in the order of their names, then those of packages. -/
  conflicts : List Conflict
  /-- The placeholders that erasure could not resolve. -/
  unresolved : Unresolved
  deriving DecidableEq

/-- A merge with conflicts has failed, even though its snapshot holds all that could be merged. -/
def Report.isFailed (r : Report) : Bool := !r.conflicts.isEmpty

namespace Merge

/-- The names of the classes that some participant defines. -/
def classNames (participants : List Snapshot) : List Text :=
  (SortedSet.ofList (participants.flatMap (·.keys))).toList

/-- The merged classes with the names under which the participants have them. -/
def mergedClasses (settings : Settings) (participants : List Snapshot) :
    Logged Finding (List (Text × ClassDef)) :=
  (·.filterMap id) <$> Logged.traverse
    (fun name => (·.map (name, ·)) <$> mergeClass settings participants name)
    (classNames participants)

/-- The participants that define each of the merged classes. -/
def origins (participants : List Snapshot) (names : List Text) : Origins :=
  .ofList (names.map fun name => (name, definers participants name))

/-- The packages that have the name of a class. -/
def packageCollisions (s : Snapshot) : List Conflict :=
  (s.packages.toList.filter s.contains).map .packageCollision

end Merge

open Merge in
/-- The merge of the snapshots of several participants. -/
def merge (settings : Settings) (participants : List Snapshot) : Report :=
  let classes := mergedClasses settings participants
  let snapshot := Snapshot.ofClasses (classes.value.map (·.2))
  { snapshot := snapshot.registerNested (origins participants (classes.value.map (·.1)))
    conflicts := Finding.conflicts classes.log ++ packageCollisions snapshot
    unresolved := .ofList (Finding.placeholders classes.log) }

end ApiSurface
