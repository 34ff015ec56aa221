import ApiSurface.Member

/-!
# Class definitions

The signature of one class: its header, the types it refers to, the members it declares and
those that its lines attribute to another type. `ClassDef.mapMembers` and
`ClassDef.mapDeclared` change the members in place.
-/

namespace ApiSurface

/-! ### Names of types -/

/-- The name after the last dot or dollar sign. -/
def simpleNameOf (name : Text) : Text :=
  ((Text.cutLast? (fun c => c == '.' || c == '$') name).map (·.2)).getD name

/-- The package of the outermost class around a type; empty for the default package. -/
def packageOf (name : Text) : Text :=
  let outer := ((Text.cutFirst? '$' name).map (·.1)).getD name
  ((Text.cutLast? (· == '.') outer).map (·.1)).getD []

/-- The signature of one class or interface. -/
structure ClassDef where
  /-- The class itself, with its modifiers, generics declaration and annotations. -/
  header : Member
  /-- The superclass. -/
  superclass : Option Member := none
  /-- The interfaces in the order in which they are listed. -/
  interfaces : List Member := []
  /-- The declared constructors. -/
  constructors : List Member := []
  /-- The declared methods. -/
  methods : List Member := []
  /-- The declared fields. -/
  fields : List Member := []
  /-- The references to nested types. -/
  nested : List Member := []
  /-- The permitted subtypes of a sealed type. -/
  permitted : List Member := []
  /-- The members that are declared by another type. -/
  inherited : List Member := []
  /-- Names of fields that are hidden on purpose. -/
  hiddenFields : SortedSet Text := ∅
  /-- Names of nested types that are hidden on purpose. -/
  hiddenClasses : SortedSet Text := ∅
  deriving DecidableEq

namespace ClassDef

/-- A class without members. -/
def ofName (name : Text) : ClassDef := { header := .typeRef .header name }

/-- A class with a given header, which has to be of that kind. -/
def ofHeader? (m : Member) : Except ModelError ClassDef :=
  if m.kind = .header then .ok { header := m } else .error (.notAClass m.kind m.qualifiedName)

/-- The qualified name. -/
def name (c : ClassDef) : Text := c.header.name

/-- The generics declaration. -/
def typeParams (c : ClassDef) : Option Text := c.header.typeParams

/-- Whether the class has a generics declaration. -/
def isGeneric (c : ClassDef) : Bool := c.typeParams.isSome

/-- The class around a nested one. -/
def enclosing? (c : ClassDef) : Option Text :=
  if c.header.declaring = [] then none else some c.header.declaring

/-- The name after the last dot or dollar sign. -/
def simpleName (c : ClassDef) : Text := simpleNameOf c.name

/-- The package. -/
def package (c : ClassDef) : Text := packageOf c.name

/-- The members of one kind. -/
def declared (c : ClassDef) : Kind → List Member
  | .header => []
  | .superclass => c.superclass.toList
  | .interface => c.interfaces
  | .constructor => c.constructors
  | .method => c.methods
  | .field => c.fields
  | .inner => c.nested
  | .permitted => c.permitted

/-- Constructors, methods and fields. -/
def ownMembers (c : ClassDef) : List Member := c.constructors ++ c.methods ++ c.fields

theorem mem_ownMembers_iff {c : ClassDef} {m : Member} :
    m ∈ c.ownMembers ↔ ∃ k ∈ Kind.own, m ∈ c.declared k := by
  simp [ownMembers, Kind.own, declared]

/-- Whether the class has a generics declaration, or one of the constructors, methods and fields
that it declares itself has one. -/
def isGeneralized (c : ClassDef) : Bool :=
  c.isGeneric || c.ownMembers.any fun m => m.declaring = c.name && m.typeParams.isSome

/-- The members that the class declares and the subtypes it permits. -/
def declaredMembers (c : ClassDef) : List Member := c.ownMembers ++ c.nested ++ c.permitted

/-- Every member in one list. -/
def members (c : ClassDef) : List Member :=
  c.superclass.toList ++ c.interfaces ++ c.declaredMembers ++ c.inherited

/-- The interfaces that the class itself declares. -/
def directInterfaces (c : ClassDef) : List Member := c.interfaces.filter (·.direct)

/-! ### Mapping members -/

/-- The class with `f` applied to constructors, methods, fields, nested and permitted types. -/
def mapDeclared (f : Member → Member) (c : ClassDef) : ClassDef :=
  { c with
    constructors := c.constructors.map f
    methods := c.methods.map f
    fields := c.fields.map f
    nested := c.nested.map f
    permitted := c.permitted.map f }

/-- The class with `f` applied to every member. -/
def mapMembers (f : Member → Member) (c : ClassDef) : ClassDef :=
  { c.mapDeclared f with
    superclass := c.superclass.map f
    interfaces := c.interfaces.map f
    inherited := c.inherited.map f }

@[simp] theorem header_mapDeclared (f : Member → Member) (c : ClassDef) :
    (c.mapDeclared f).header = c.header := rfl

@[simp] theorem header_mapMembers (f : Member → Member) (c : ClassDef) :
    (c.mapMembers f).header = c.header := rfl

@[simp] theorem declaredMembers_mapDeclared (f : Member → Member) (c : ClassDef) :
    (c.mapDeclared f).declaredMembers = c.declaredMembers.map f := by
  simp [declaredMembers, ownMembers, mapDeclared]

@[simp] theorem members_mapMembers (f : Member → Member) (c : ClassDef) :
    (c.mapMembers f).members = c.members.map f := by
  cases h : c.superclass <;>
    simp [members, declaredMembers, ownMembers, mapMembers, mapDeclared, h]

end ClassDef

end ApiSurface
