import ApiSurface.Grouping
import ApiSurface.ClassDef
import ApiSurface.Merge.Conflict
import ApiSurface.Merge.Modifiers
import ApiSurface.Settings.Basic

/-!
# Merged members

Members of several definitions of a class that have one key become one member. They have to
agree on their type, on `static`, as fields on their constant and as callables on their
exceptions; where they do not, the conflict is reported and none of them is left. Where only
their generics declarations differ, the member is left without one.
-/

namespace ApiSurface

namespace Member

/-- The member with other modifiers; unchanged where its kind does not allow them. -/
def withModifiers (m : Member) (mods : Modifiers) : Member := (m.setModifiers? mods).toOption.getD m

/-- The annotations of all members of a list. -/
def allAnnots (ms : List Member) : SortedSet Annot := .ofList (ms.flatMap (·.annots.toList))

/-- The one generics declaration on which all members that have one agree. -/
def mergeTypeParams (first : Member) (rest : List Member) : Logged Conflict (Option Text) :=
  match (first :: rest).filterMap (·.typeParams) with
  | [] => pure none
  | p :: ps =>
    match ps.find? (· ≠ p) with
    | none => pure (some p)
    | some q => ⟨none, [.genericsMismatch first.key p q]⟩

/-- The disagreement of members on their type, on the constant of a field or on `static`, the
first that there is; else their merged modifiers. -/
def agree (settings : MergeSettings) (first : Member) (rest : List Member) :
    Except Conflict Modifiers :=
  match rest.find? (·.typeName ≠ first.typeName) with
  | some other => .error (.typeMismatch first.key first.typeName other.typeName)
  | none =>
    match if first.kind = .field ∧ settings.trackConstantValues
      then rest.find? (·.constant ≠ first.constant) else none with
    | some other => .error (.constantMismatch first.key first.constant other.constant)
    | none =>
      match Modifiers.merge first.kind ((first :: rest).map (·.modifiers)) with
      | some mods => .ok mods
      | none => .error (.staticModifier (.ofMember first.key))

/-- The exceptions that merged members declare, if they agree on them. Without regard to
exceptions callables declare none. -/
def agreeThrows (settings : MergeSettings) (first : Member) (rest : List Member) :
    Except Conflict Text :=
  if first.kind.isCallable then
    if settings.binaryCompatibility then .ok []
    else match rest.find? (·.throws ≠ first.throws) with
      | some other => .error (.throwsMismatch first.key first.throws other.throws)
      | none => .ok first.throws
  else .ok first.throws

/-- The member that several members of one key become. -/
def mergeGroup (settings : MergeSettings) (first : Member) (rest : List Member) :
    Logged Conflict (Option Member) :=
  match agree settings first rest with
  | .error c => ⟨none, [c]⟩
  | .ok mods => do
    let typeParams ← mergeTypeParams first rest
    match agreeThrows settings first rest with
    | .error c => ⟨none, [c]⟩
    | .ok throws =>
      return some
        { first.withModifiers mods with typeParams, throws, annots := allAnnots (first :: rest) }

/-- What becomes of the members of one key: a member whose key no other has is left as it is. -/
def mergeOrKeep (settings : MergeSettings) : Member × List Member → Logged Conflict (Option Member)
  | (only, []) => pure (some only)
  | (first, rest) => mergeGroup settings first rest

/-- Members of several definitions, those of one key merged. -/
def mergeAll (settings : MergeSettings) (ms : List Member) : Logged Conflict (List Member) :=
  (·.filterMap id) <$> Logged.traverse (mergeOrKeep settings) (groupsBy key ms)

/-- The first member of each key. -/
def unionByKey (ms : List Member) : List Member := distinctBy key ms

end Member

end ApiSurface
