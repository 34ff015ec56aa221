import ApiSurface.Line.Annot
import ApiSurface.Snapshot

/-!
# Writing signature text

Each entity is one line, its annotations are the lines after it, and a class is the group of
lines of its header, its references and members and its hidden names.
-/

namespace ApiSurface

open Text

namespace Member

/-- The words of a member's line after the tag; empty ones are left out of the line. -/
def words (m : Member) : List Text :=
  let params := m.typeParams.getD []
  match m.kind with
  | .header => [m.modifiers.text, params, m.name]
  | .superclass | .interface | .permitted =>
    [if m.direct then ['@'] else [], m.name ++ params]
  | .constructor | .method =>
    [m.modifiers.text, params, m.typeName, m.qualifiedName ++ '(' :: m.args ++ [')']]
      ++ if m.throws = [] then [] else ["throws".toList, m.throws]
  | .field =>
    [m.modifiers.text, m.typeName, m.qualifiedName,
      match m.constant with
      | none => []
      | some [] => ['=']
      | some value => '=' :: ' ' :: value]
  | .inner => [m.modifiers.text, m.qualifiedName]

/-- The line of a member, without its annotations. -/
def line (m : Member) : Text := [' '].intercalate (m.kind.tag :: m.words.filter (· ≠ []))

/-- The line of a member and the lines of its annotations. -/
def lines (m : Member) : List Text := m.line :: m.annots.toList.map Annot.line

end Member

namespace ClassDef

/-- The start of the line with the hidden fields. -/
def hiddenFieldsTag : Text := "hiddenfields".toList

/-- The start of the line with the hidden nested types. -/
def hiddenClassesTag : Text := "hiddenclasses".toList

/-- The line with hidden names, if there are any. -/
def hiddenLine (tag : Text) (names : SortedSet Text) : List Text :=
  let joined := [','].intercalate names.toList
  if joined = [] then [] else [tag ++ ' ' :: joined]

/-- The members in the order in which they are written. -/
def written (c : ClassDef) : List Member :=
  c.header :: c.superclass.toList ++ c.interfaces ++ c.permitted ++ c.ownMembers ++ c.nested
    ++ c.inherited

/-- The lines of a class. -/
def lines (c : ClassDef) : List Text :=
  c.written.flatMap Member.lines ++ hiddenLine hiddenFieldsTag c.hiddenFields
    ++ hiddenLine hiddenClassesTag c.hiddenClasses

/-- The lines of a class, each with its line end. -/
def text (c : ClassDef) : Text := c.lines.flatMap (· ++ ['\n'])

end ClassDef

/-- The text of a snapshot: its classes in the order of their names, with an empty line between
any two. -/
def Snapshot.text (s : Snapshot) : Text := ['\n'].intercalate (s.values.map ClassDef.text)

end ApiSurface
