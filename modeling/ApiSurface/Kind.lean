import ApiSurface.Modifier

/-!
# Kinds of entities

A signature is made of entities of eight kinds. The kind decides the tag that a line starts
with, the character between the declaring type and the name, and the modifiers an entity may
carry.
-/

namespace ApiSurface

/-- The kind of a signature entity. -/
inductive Kind where
  /-- The class itself. -/
  | header
  /-- A reference to the superclass. -/
  | superclass
  /-- A reference to a superinterface. -/
  | interface
  /-- A constructor. -/
  | constructor
  /-- A method. -/
  | method
  /-- A field. -/
  | field
  /-- A reference to a nested type. -/
  | inner
  /-- A reference to a permitted subtype of a sealed type. -/
  | permitted
  deriving DecidableEq, Repr

namespace Kind

/-- Every kind. -/
def all : List Kind :=
  [header, superclass, interface, constructor, method, field, inner, permitted]

theorem mem_all (k : Kind) : k ∈ all := by cases k <;> decide

instance (p : Kind → Prop) [DecidablePred p] : Decidable (∀ k, p k) :=
  decidable_of_iff (∀ k ∈ all, p k) ⟨fun h k => h k (mem_all k), fun h k _ => h k⟩

/-- The kinds of members that a class declares itself and that are merged one by one. -/
def own : List Kind := [constructor, method, field]

theorem mem_own_iff {k : Kind} : k ∈ own ↔ k = constructor ∨ k = method ∨ k = field := by
  simp [own]

/-- The word that starts a line of this kind. -/
def tag : Kind → Text
  | header => "class".toList
  | superclass => "superclass".toList
  | interface => "interface".toList
  | constructor => "constructor".toList
  | method => "method".toList
  | field => "field".toList
  | inner => "inner".toList
  | permitted => "permittedsubclass".toList

/-- The kind with a given tag. -/
def ofTag? (t : Text) : Option Kind := all.find? (·.tag = t)

theorem ofTag?_tag (k : Kind) : ofTag? k.tag = some k := by cases k <;> decide

theorem ofTag?_eq_some_iff {t : Text} {k : Kind} : ofTag? t = some k ↔ t = k.tag := by
  constructor
  · intro h
    simpa [eq_comm] using List.find?_some h
  · rintro rfl
    exact ofTag?_tag k

/-- The character between the declaring type and the name. -/
def delimiter : Kind → Char
  | field | method | constructor => '.'
  | header | superclass | interface | inner | permitted => '$'

/-- Whether the name of an entity of this kind is the qualified name of a type. -/
def isTypeRef : Kind → Bool
  | header | superclass | interface | permitted => true
  | constructor | method | field | inner => false

/-- Whether an entity of this kind has a list of arguments. -/
def isCallable : Kind → Bool
  | method | constructor => true
  | header | superclass | interface | field | inner | permitted => false

theorem isCallable_iff {k : Kind} : k.isCallable = true ↔ k = constructor ∨ k = method := by
  cases k <;> decide

/-- The modifiers that an entity of this kind may carry. -/
def allowed : Kind → Modifiers
  | header | inner =>
    .ofList [.pub, .prot, .priv, .abstract, .static, .final, .strictfp, .interface, .annot, .enum]
  | field => .ofList [.pub, .prot, .priv, .static, .final, .transient, .volatile, .enum]
  | method =>
    .ofList [.pub, .prot, .priv, .abstract, .static, .final, .synchronized, .native, .strictfp]
  | constructor => .visibility
  | superclass | interface | permitted => .none

/-- A kind that allows `interface` allows `abstract` too. -/
theorem has_abstract_of_has_interface {k : Kind} (h : k.allowed.has .interface = true) :
    k.allowed.has .abstract = true := by
  revert h
  cases k <;> decide

end Kind

end ApiSurface
