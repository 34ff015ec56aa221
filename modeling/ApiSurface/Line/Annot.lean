import ApiSurface.Line.Error

/-!
# Annotation lines

An annotation line is the word `annotation:`, the name of the annotation type and, in
parentheses, a list of named values. Commas separate the values, except inside brackets and
inside quoted strings.
-/

namespace ApiSurface

open Text

namespace Annot

/-- The start of an annotation line. -/
def lineTag : Text := "annotation:".toList

/-- The name with the list of named values, if there are any. -/
def text (a : Annot) : Text :=
  if a.members = [] then a.name
  else a.name ++ '(' :: ", ".toList.intercalate (a.members.map fun m => m.1 ++ '=' :: m.2) ++ [')']

/-- The line of an annotation. -/
def line (a : Annot) : Text := lineTag ++ a.text

/-! ### Items between commas -/

/-- Where in a list of values a character stands. -/
inductive Place where
  /-- Outside strings, within so many open brackets. -/
  | plain (depth : Nat)
  /-- In a string, within so many open brackets. -/
  | quoted (depth : Nat)
  /-- In a string behind a backslash, within so many open brackets. -/
  | escaped (depth : Nat)
  deriving DecidableEq

/-- The place after a character. A closing bracket too many changes nothing. -/
def Place.next : Place → Char → Place
  | plain d, c =>
    if c = '"' then quoted d
    else if c ∈ ['(', '[', '{', '<'] then plain (d + 1)
    else if c ∈ [')', ']', '}', '>'] then plain (d - 1)
    else plain d
  | quoted d, c => if c = '\\' then escaped d else if c = '"' then plain d else quoted d
  | escaped d, _ => quoted d

/-- The pieces of a text between the commas that stand outside brackets and strings. -/
def splitItems (p : Place) : Text → List Text
  | [] => [[]]
  | c :: r =>
    if p = .plain 0 ∧ c = ',' then [] :: splitItems p r
    else consHead c (splitItems (p.next c) r)

/-- The pieces joined by commas are the text. -/
theorem intercalate_splitItems (p : Place) (t : Text) : [','].intercalate (splitItems p t) = t := by
  have hne : ∀ (p : Place) (t : Text), splitItems p t ≠ [] := fun p t => by
    cases t with
    | nil => simp [splitItems]
    | cons c r => unfold splitItems; split <;> simp
  induction t generalizing p with
  | nil => rfl
  | cons c r ih =>
    unfold splitItems
    split
    next h => rw [intercalate_nil_cons _ (hne _ _), ih, h.2]; rfl
    next => rw [intercalate_consHead _ _ (hne _ _), ih]

/-! ### Reading -/

/-- A named value: the trimmed texts before and after the first equals sign. -/
def readMember? (item : Text) : Option (Text × Text) :=
  (cutFirst? '=' item).map fun p => (trim p.1, trim p.2)

/-- The name and the list of values in the parentheses after it. -/
def cutBody? (body : Text) : Option (Text × Text) :=
  match cutFirst? '(' body with
  | some (name, rest) => (dropEnd? ')' rest).map fun inner => (trim name, inner)
  | none => some (body, [])

/-- The annotation of a line, if the line is well-formed. Blank items are passed over. -/
def ofLine? (line : Text) : Option Annot := do
  let body ← after? lineTag (trim line)
  let (name, inner) ← cutBody? (trim body)
  if name = [] ∨ ' ' ∈ name then none
  else
    let items := (splitItems (.plain 0) inner).filter fun item => trim item ≠ []
    return ⟨name, ← items.mapM readMember?⟩

end Annot

/-- The annotation that a line declares. -/
def parseAnnot (line : Text) : Except ParseError Annot :=
  match Annot.ofLine? line with
  | some a => .ok a
  | none => .error (.malformedAnnot line)

end ApiSurface
