import ApiSurface.Merge.Body
import ApiSurface.Merge.Superclass

/-!
# Merged definitions of a class

All definitions of one class become one class, unless they disagree on what kind of class it is,
on `static`, or on its superclass. A class that only one participant defines is left as it is.
-/

namespace ApiSurface

namespace ClassDef

/-- The first conflict that leaves a class without merged definition; else the modifiers and the
superclass of the merged class. -/
def agree (participants : List Snapshot) (first : ClassDef) (rest : List ClassDef) :
    Except Conflict (Modifiers × Option Member) :=
  match [ClassTrait.interface, .abstract].find? fun shared =>
      rest.any fun c => c.header.has shared.modifier ≠ first.header.has shared.modifier with
  | some shared => .error (.classKind first.name shared)
  | none =>
    match Modifiers.merge .header ((first :: rest).map (·.header.modifiers)) with
    | none => .error (.staticModifier (.ofClass first.name))
    | some mods => (resolveSuperclass participants first.name (first :: rest)).map (mods, ·)

/-- The kinds and signatures of the constructors, methods and fields. -/
def signatures (c : ClassDef) : List (Kind × Text) :=
  c.ownMembers.map fun m => (m.kind, m.signature)

/-- The erased signatures that come up more than once, and the placeholders that were not
resolved in finding out. -/
def erasureCollisions (policy : UnboundPolicy) (c : ClassDef) : Logged Text (List Conflict) :=
  (fun erased => (repeats [] erased.signatures).map fun k => .erasureCollision c.name k.2)
    <$> c.fullErasure policy

/-- Reports the erased signatures that come up more than once. -/
def reportCollisions (policy : UnboundPolicy) (c : ClassDef) : Logged Finding Unit := do
  let collisions ← (c.erasureCollisions policy).mapLog .unresolved
  ⟨(), collisions.map .conflict⟩

/-- The class that two or more definitions become. -/
def mergeDefinitions (settings : Settings) (participants : List Snapshot) (first : ClassDef)
    (rest : List ClassDef) : Logged Finding (Option ClassDef) :=
  match agree participants first rest with
  | .error c => ⟨none, [.conflict c]⟩
  | .ok (mods, superclass) => do
    let prepared := rest.map (dropUntracked settings.merge)
    let body ← mergeMixed settings.merge settings.unboundPolicy
      (first.dropUntracked settings.merge) prepared
    let merged := { body with
      header := body.header.withModifiers mods
      superclass
      interfaces := unionDirectInterfaces (first :: rest) }
    reportCollisions settings.unboundPolicy merged
    return some merged

/-- The class that the definitions of one name become. -/
def mergeAll (settings : Settings) (participants : List Snapshot) :
    List ClassDef → Logged Finding (Option ClassDef)
  | [] => pure none
  | [only] => pure (some only)
  | first :: rest => mergeDefinitions settings participants first rest

end ClassDef

/-- The definitions of one name, in the order of the participants. -/
def definitions (participants : List Snapshot) (name : Text) : List ClassDef :=
  participants.filterMap (·.get? name)

/-- The merged class of one name. -/
def mergeClass (settings : Settings) (participants : List Snapshot) (name : Text) :
    Logged Finding (Option ClassDef) :=
  ClassDef.mergeAll settings participants (definitions participants name)

/-- The participants that define a class, by their places in the list. -/
def definers (participants : List Snapshot) (name : Text) : List Nat :=
  (List.range participants.length).filter fun i =>
    (participants[i]?.map (·.contains name)).getD false

end ApiSurface
