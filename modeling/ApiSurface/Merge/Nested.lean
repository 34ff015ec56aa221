import ApiSurface.Snapshot

/-!
# Nested classes of a merged snapshot

Every nested class gets a reference from the class around it. If a superclass of that class
already provides a nested class of the same simple name, the nested class is a duplicate and is
removed, unless the two come from participants that have nothing in common.

Main statement: `inheritedTwin?` ends on every snapshot, also where superclass links run in a
circle, because no superclass name is followed twice.
-/

namespace ApiSurface

/-- For each class of a merged snapshot the participants that define it. -/
abbrev Origins := SortedMap Text (List Nat)

namespace Origins

/-- The participants that define a class. -/
def of (origins : Origins) (name : Text) : List Nat := (origins.get? name).getD []

/-- Whether a participant defines both classes. -/
def share (origins : Origins) (a b : Text) : Bool := (origins.of a).any (· ∈ origins.of b)

end Origins

namespace Snapshot

/-! ### The search for a twin -/

/-- The names of a snapshot that are not in a list. -/
def unvisited (s : Snapshot) (visited : List Text) : List Text := s.keys.filter (· ∉ visited)

theorem length_unvisited_cons_lt {s : Snapshot} {visited : List Text} {name : Text}
    (hs : name ∈ s.keys) (hv : name ∉ visited) :
    (s.unvisited (name :: visited)).length < (s.unvisited visited).length := by
  have hsub : s.unvisited (name :: visited) = (s.unvisited visited).filter (· ≠ name) := by
    simp only [unvisited, List.filter_filter]
    refine List.filter_congr fun x _ => ?_
    simp [not_or]
  have hmem : name ∈ s.unvisited visited := List.mem_filter.2 ⟨hs, by simpa using hv⟩
  rw [hsub]
  refine Nat.lt_of_le_of_ne (List.length_filter_le ..) fun heq => ?_
  simpa using List.length_filter_eq_length_iff.1 heq name hmem

/-- The class with a given simple name that is nested in the nearest superclass that has one. Names
in `visited` are not followed again. -/
def twinFrom? (s : Snapshot) (simple : Text) (visited : List Text) (c : ClassDef) :
    Option ClassDef :=
  match c.superclass with
  | none => none
  | some super =>
    if _hv : super.name ∈ visited then none
    else
      match s.get? (super.name ++ '$' :: simple) with
      | some twin => some twin
      | none =>
        match _hs : s.get? super.name with
        | none => none
        | some next => twinFrom? s simple (super.name :: visited) next
termination_by (s.unvisited visited).length
decreasing_by exact length_unvisited_cons_lt (SortedMap.mem_keys_iff.2 (by simp [_hs])) _hv

/-- The class with a given simple name that is nested in the nearest superclass that has one. -/
def inheritedTwin? (s : Snapshot) (outer : ClassDef) (simple : Text) : Option ClassDef :=
  s.twinFrom? simple [] outer

/-! ### References -/

/-- The reference to a nested class, with the modifiers of the class. -/
def innerReference (outer : Text) (c : ClassDef) : Member :=
  let m : Member := { kind := .inner, declaring := outer, name := c.simpleName }
  (m.setModifiers? (c.header.modifiers.inter Kind.inner.allowed)).toOption.getD m

/-- What becomes of a class when nested classes are reconciled. -/
inductive Fate where
  /-- Nothing: the class is not nested, or it is listed, or the class around it is missing. -/
  | settled
  /-- The class around it gets a reference to it. -/
  | unlisted (outer : Text)
  /-- It is removed. -/
  | duplicate
  deriving DecidableEq

/-- Whether a class lists a nested class of a given name. -/
def lists (outer : ClassDef) (name : Text) : Bool := outer.nested.any (·.qualifiedName = name)

/-- What becomes of a class of a snapshot. -/
def fate (s : Snapshot) (origins : Origins) (c : ClassDef) : Fate :=
  match c.enclosing? with
  | none => .settled
  | some outerName =>
    match s.get? outerName with
    | none => .settled
    | some outer =>
      if lists outer c.name then .settled
      else match s.inheritedTwin? outer c.simpleName with
        | some twin => if origins.share c.name twin.name then .duplicate else .unlisted outerName
        | none => .unlisted outerName

/-- The snapshot with a reference to a class, if the class is to get one. -/
def addReference (s : Snapshot) (c : ClassDef) : Fate → Snapshot
  | .unlisted outer =>
    s.modify outer fun o => { o with nested := o.nested ++ [innerReference outer c] }
  | .settled | .duplicate => s

/-- The snapshot with a reference to every nested class and without duplicates. -/
def registerNested (s : Snapshot) (origins : Origins) : Snapshot :=
  let referred := s.values.foldl (fun t c => t.addReference c (s.fate origins c)) s
  ((s.values.filter fun c => s.fate origins c = .duplicate).map (·.name)).foldl SortedMap.erase
    referred

end Snapshot

end ApiSurface
