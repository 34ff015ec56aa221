import ApiSurface.Line.Entity
import ApiSurface.Line.Printer

/-!
# Class groups and snapshot text

A group of lines describes one class: its first entity line is the class line, annotation lines
belong to the entity line before them, and lines of hidden names may stand anywhere. A text
holds any number of groups, each of which starts at a class line. Empty lines and lines that
start with a number sign say nothing.
-/

namespace ApiSurface

open Text

namespace Line

/-- Whether a line says nothing: it is empty or a comment. -/
def isIgnored (line : Text) : Bool := line.isEmpty || line.head? == some '#'

/-- The names on a line of hidden names, after its tag. -/
def hiddenNames (rest : Text) : List Text :=
  ((split (· == ',') rest).map trim).filter (· ≠ [])

/-! ### One group -/

/-- What the lines of a group have said so far. -/
structure Group where
  /-- The annotations in front of the class line. -/
  leading : List Annot := []
  /-- The entities with their annotations, the latest first and the class itself last. -/
  entities : List Member := []
  /-- The names of hidden fields. -/
  hiddenFields : List Text := []
  /-- The names of hidden nested types. -/
  hiddenClasses : List Text := []

namespace Group

/-- The member with one annotation more. -/
def annotate (a : Annot) (m : Member) : Member := { m with annots := m.annots.insert a }

/-- An annotation goes to the latest entity. -/
def addAnnot (g : Group) (a : Annot) : Group :=
  match g.entities with
  | [] => { g with leading := g.leading ++ [a] }
  | m :: ms => { g with entities := annotate a m :: ms }

/-- An entity: first the class itself, which takes over the leading annotations, then anything
but a class. -/
def addEntity (g : Group) (m : Member) (line : Text) : Except ParseError Group :=
  match g.entities with
  | [] =>
    if m.kind = .header then
      .ok { g with entities := [g.leading.foldr annotate m] }
    else .error (.missingClassHeader line)
  | ms =>
    if m.kind = .header then .error (.unexpectedClassHeader line)
    else .ok { g with entities := m :: ms }

/-- The group after one more line. -/
def addLine (g : Group) (raw : Text) : Except ParseError Group :=
  let line := entityText raw
  if isIgnored line then .ok g
  else if (after? Annot.lineTag line).isSome then (parseAnnot line).map g.addAnnot
  else match after? ClassDef.hiddenFieldsTag line with
    | some rest => .ok { g with hiddenFields := g.hiddenFields ++ hiddenNames rest }
    | none =>
      match after? ClassDef.hiddenClassesTag line with
      | some rest => .ok { g with hiddenClasses := g.hiddenClasses ++ hiddenNames rest }
      | none => do g.addEntity (← parseMember line) line

/-- The members of a kind that belong to the class itself. -/
def own (kind : Kind) (name : Text) (ms : List Member) : List Member :=
  ms.filter fun m => m.kind = kind ∧ m.declaring = name

/-- The class with a given header and given members, each in its place. Of several superclasses
the last counts. -/
def toClass (header : Member) (ms : List Member) : ClassDef where
  header := header
  superclass := (ms.filter (·.kind = .superclass)).getLast?
  interfaces := ms.filter (·.kind = .interface)
  constructors := own .constructor header.name ms
  methods := own .method header.name ms
  fields := own .field header.name ms
  nested := own .inner header.name ms
  permitted := ms.filter (·.kind = .permitted)
  inherited := ms.filter fun m =>
    m.kind ∈ [.constructor, .method, .field, .inner] ∧ m.declaring ≠ header.name

/-- The class that the group describes. -/
def finish (g : Group) : Except ParseError ClassDef :=
  match g.entities.reverse with
  | [] => .error (.missingClassHeader ((g.leading.head?.map Annot.line).getD []))
  | header :: ms =>
    .ok { toClass header ms with
      hiddenFields := .ofList g.hiddenFields
      hiddenClasses := .ofList g.hiddenClasses }

end Group

/-! ### Groups of a text -/

/-- Whether a group of lines starts with a class line. -/
def startsGroup : List Text → Bool
  | [] => false
  | line :: _ => (cutTag line).1 = Kind.header.tag

/-- Lines in groups, each of which starts at a class line; lines before the first class line are
a group of their own. -/
def groups : List Text → List (List Text)
  | [] => []
  | line :: rest =>
    match groups rest with
    | [] => [[line]]
    | g :: gs => if startsGroup g then [line] :: g :: gs else (line :: g) :: gs

/-- The lines of a text that say something. -/
def entityLines (text : Text) : List Text :=
  ((Text.lines text).map entityText).filter fun line => !isIgnored line

theorem flatten_groups (lines : List Text) : (groups lines).flatten = lines := by
  induction lines with
  | nil => rfl
  | cons line rest ih =>
    unfold groups
    split
    next h => simp_all
    next h => split <;> simp_all

end Line

/-- The class that a group of lines describes. -/
def parseClass (lines : List Text) : Except ParseError ClassDef := do
  (← lines.foldlM Line.Group.addLine {}).finish

/-- The classes that a text describes. Of several with one name the last counts. -/
def parseSnapshot (text : Text) : Except ParseError Snapshot :=
  (Line.groups (Line.entityLines text)).foldlM
    (fun s lines => (parseClass lines).map (Snapshot.add s)) ∅

end ApiSurface
