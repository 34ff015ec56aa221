import ApiSurface.Logged
import ApiSurface.Member
import ApiSurface.Text.Quoted

/-!
# Conflicts

A conflict is something that the participants of a merge disagree about. The merge goes on
without the class or member at fault; a class is kept where only its erased signatures or the
name of a package collide.
-/

namespace ApiSurface

/-- A property of a class that all its definitions have to share. -/
inductive ClassTrait where
  /-- The class is an interface. -/
  | interface
  /-- The class is abstract. -/
  | abstract
  deriving DecidableEq

/-- The modifier that tells whether a class has the property. -/
def ClassTrait.modifier : ClassTrait → Modifier
  | interface => .interface
  | abstract => .abstract

/-- The words for the property. -/
def ClassTrait.words : ClassTrait → Text
  | interface => "an interface".toList
  | abstract => "abstract".toList

/-- What participants can disagree about as a whole: a class or one of its members. -/
inductive Subject where
  /-- A class. -/
  | ofClass (name : Text)
  /-- A member of a class. -/
  | ofMember (key : MemberKey)
  deriving DecidableEq

/-- The words for a class or member. -/
def Subject.text : Subject → Text
  | ofClass name => name
  | ofMember key => key.text

/-- A disagreement between participants. -/
inductive Conflict where
  /-- Some definitions of a class have a property and others do not. -/
  | classKind (className : Text) (shared : ClassTrait)
  /-- A class or member is static in some participants only. -/
  | staticModifier (subject : Subject)
  /-- None of the superclasses of a class extends all others. -/
  | unrelatedSuperclasses (className : Text) (candidates : List Text)
  /-- Fields have different types, or methods different return types. -/
  | typeMismatch (member : MemberKey) (expected found : Text)
  /-- Generics declarations differ. -/
  | genericsMismatch (member : MemberKey) (expected found : Text)
  /-- Declared exceptions differ. -/
  | throwsMismatch (member : MemberKey) (expected found : Text)
  /-- Constants differ. -/
  | constantMismatch (member : MemberKey) (expected found : Option Text)
  /-- Two members of a class have one signature once types are erased. -/
  | erasureCollision (className signature : Text)
  /-- A package has the name of a class. -/
  | packageCollision (package : Text)
  deriving DecidableEq

namespace Conflict

/-- The member that is left out because of the conflict. -/
def dropped? : Conflict → Option MemberKey
  | staticModifier (.ofMember key) => some key
  | typeMismatch key _ _ | throwsMismatch key _ _ | constantMismatch key _ _ => some key
  | _ => none

/-- The message for two values that differ. -/
def mismatch (member : MemberKey) (what : String) (expected found : Text) : Text :=
  member.text ++ ": ".toList ++ what.toList ++ " ".toList ++ expected ++ " conflicts with ".toList
    ++ found

/-- A text between backquotes. -/
def inBackquotes (t : Text) : Text := '\x60' :: t ++ ['\x60']

/-- The message for a conflict. -/
def message : Conflict → Text
  | classKind name shared =>
    name ++ ": participants disagree on whether it is ".toList ++ shared.words
  | staticModifier subject => subject.text ++ ": static in some participants only".toList
  | unrelatedSuperclasses name candidates =>
    name ++ ": superclasses ".toList ++ ", ".toList.intercalate candidates
      ++ " are not related".toList
  | typeMismatch member expected found =>
    mismatch member "type" (inBackquotes expected) (inBackquotes found)
  | genericsMismatch member expected found =>
    mismatch member "generics declaration" (inBackquotes expected) (inBackquotes found)
  | throwsMismatch member expected found =>
    mismatch member "throws" (inBackquotes expected) (inBackquotes found)
  | constantMismatch member expected found =>
    mismatch member "constant value" (Text.quoteOption expected) (Text.quoteOption found)
  | erasureCollision name signature =>
    name ++ ": ".toList ++ inBackquotes signature ++ " is declared twice after erasure".toList
  | packageCollision package =>
    "package ".toList ++ package ++ " has the same name as a class".toList

end Conflict

/-- What a merge has to report. -/
inductive Finding where
  /-- A conflict. -/
  | conflict (c : Conflict)
  /-- A placeholder that erasure could not resolve. -/
  | unresolved (placeholder : Text)
  deriving DecidableEq

namespace Finding

/-- The conflicts among findings. -/
def conflicts (l : List Finding) : List Conflict :=
  l.filterMap fun
    | conflict c => some c
    | unresolved _ => none

/-- The unresolved placeholders among findings. -/
def placeholders (l : List Finding) : List Text :=
  l.filterMap fun
    | conflict _ => none
    | unresolved p => some p

@[simp] theorem conflicts_nil : conflicts [] = [] := rfl

@[simp] theorem conflicts_append (l m : List Finding) :
    conflicts (l ++ m) = conflicts l ++ conflicts m := List.filterMap_append

theorem conflicts_flatMap {α : Type _} (f : α → List Finding) (l : List α) :
    conflicts (l.flatMap f) = l.flatMap fun a => conflicts (f a) := List.filterMap_flatMap

@[simp] theorem conflicts_map_conflict (l : List Conflict) : conflicts (l.map conflict) = l := by
  rw [conflicts, List.filterMap_map]
  exact List.filterMap_some

@[simp] theorem conflicts_map_unresolved (l : List Text) : conflicts (l.map unresolved) = [] := by
  rw [conflicts, List.filterMap_map]
  exact List.filterMap_eq_nil_iff.2 fun _ _ => rfl

@[simp] theorem placeholders_append (l m : List Finding) :
    placeholders (l ++ m) = placeholders l ++ placeholders m := List.filterMap_append

end Finding

end ApiSurface
