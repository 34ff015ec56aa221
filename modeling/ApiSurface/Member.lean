import ApiSurface.Annot
import ApiSurface.Kind
import ApiSurface.Text.Blank

/-!
# Members

A member is one entity of a class signature: the header of the class, a reference to another
type, or a constructor, method or field. Its kind, its declaring type and its name stay fixed;
its modifiers are set through `Member.setModifiers?`, which keeps them within the kind's mask.

Main statements: `Member.setModifiers?_eq_ok_iff` says when modifiers are accepted and what
becomes of the member, `Member.valid_of_setModifiers?` that the result is valid.
-/

namespace ApiSurface

/-- A violation of the rules that the model itself keeps. -/
inductive ModelError where
  /-- Modifiers outside the mask of the kind were to be set; `rejected` are those outside. -/
  | modifierNotAllowed (kind : Kind) (name : Text) (rejected : Modifiers)
  /-- A class was to be made of a member that is no class header. -/
  | notAClass (kind : Kind) (name : Text)
  deriving DecidableEq

/-- The message for a violation. -/
def ModelError.message : ModelError → Text
  | modifierNotAllowed kind name rejected =>
    "modifiers `".toList ++ rejected.text ++ "` are not allowed on ".toList ++ kind.tag
      ++ " `".toList ++ name ++ "`".toList
  | notAClass kind name =>
    "expected a class header, got ".toList ++ kind.tag ++ " `".toList ++ name ++ "`".toList

/-- What makes two members of different sources the same member: neither modifiers nor
exceptions nor annotations count. -/
structure MemberKey where
  /-- The kind of the member. -/
  kind : Kind
  /-- The declaring type. -/
  declaring : Text
  /-- The name. -/
  name : Text
  /-- The list of arguments. -/
  args : Text
  deriving DecidableEq

/-- The key as a text: the tag, the qualified name and, for callables, the arguments. -/
def MemberKey.text (k : MemberKey) : Text :=
  k.kind.tag ++ ' ' ::
    ((if k.declaring = [] ∨ k.kind.isTypeRef then [] else k.declaring ++ [k.kind.delimiter])
      ++ k.name ++ if k.kind.isCallable then '(' :: k.args ++ [')'] else [])

/-- One entity of a class signature. -/
structure Member where
  /-- What the entity is. -/
  kind : Kind
  /-- The declared modifiers. -/
  modifiers : Modifiers := .none
  /-- The declaring type; for a reference to a nested type the enclosing class. -/
  declaring : Text := []
  /-- The simple name, or the qualified name of a type that is referred to. -/
  name : Text
  /-- The type of a field or the return type of a method. -/
  typeName : Text := []
  /-- The argument types with commas between them, without parentheses. -/
  args : Text := []
  /-- The declared exceptions with commas between them. -/
  throws : Text := []
  /-- The generics declaration or, on a reference to a supertype, the type arguments. -/
  typeParams : Option Text := none
  /-- The annotations. -/
  annots : SortedSet Annot := ∅
  /-- The compile-time constant of a field. -/
  constant : Option Text := none
  /-- Whether an interface is declared by the class itself. -/
  direct : Bool := false
  deriving DecidableEq

namespace Member

/-- A reference to a type by its qualified name. The text before the last `$` is the enclosing
class. -/
def typeRef (kind : Kind) (name : Text) : Member where
  kind := kind
  name := name
  declaring := ((Text.cutLast? (· == '$') name).map (·.1)).getD []

/-- The qualified name: the name alone for references to types, else the declaring type, the
kind's delimiter and the name. -/
def qualifiedName (m : Member) : Text :=
  if m.kind.isTypeRef ∨ m.declaring = [] then m.name
  else m.declaring ++ m.kind.delimiter :: m.name

/-- The name, for callables with the list of arguments. -/
def signature (m : Member) : Text :=
  if m.kind.isCallable then m.name ++ '(' :: m.args ++ [')'] else m.name

/-- The key that identifies the member. -/
def key (m : Member) : MemberKey := ⟨m.kind, m.declaring, m.name, m.args⟩

/-- Whether the member carries a modifier. -/
def has (m : Member) (x : Modifier) : Bool := m.modifiers.has x

/-! ### Modifiers -/

/-- The modifiers with `abstract` added if `interface` is among them. -/
def closeModifiers (mods : Modifiers) : Modifiers :=
  if mods.has .interface then mods.insert .abstract else mods

/-- The member with other modifiers. They have to lie in the mask of its kind. -/
def setModifiers? (m : Member) (mods : Modifiers) : Except ModelError Member :=
  if mods.isSubset m.kind.allowed then .ok { m with modifiers := closeModifiers mods }
  else .error (.modifierNotAllowed m.kind m.qualifiedName (mods.diff m.kind.allowed))

/-- The member's modifiers lie in the mask of its kind, and an interface is abstract. -/
def Valid (m : Member) : Prop :=
  m.modifiers.isSubset m.kind.allowed = true ∧ (m.has .interface = true → m.has .abstract = true)

instance (m : Member) : Decidable m.Valid := inferInstanceAs (Decidable (_ ∧ _))

theorem closeModifiers_of_valid {m : Member} (h : m.Valid) :
    closeModifiers m.modifiers = m.modifiers := by
  unfold closeModifiers
  split
  next hi => exact Modifiers.insert_eq_self (h.2 hi)
  next => rfl

theorem setModifiers?_eq_ok_iff {m m' : Member} {mods : Modifiers} :
    m.setModifiers? mods = .ok m' ↔
      mods.isSubset m.kind.allowed = true ∧ m' = { m with modifiers := closeModifiers mods } := by
  unfold setModifiers?
  split
  next h => simp only [Except.ok.injEq, h, true_and, eq_comm]
  next h => simp [h]

/-- Adding `abstract` to the modifiers of an interface stays within the mask. -/
theorem isSubset_closeModifiers {k : Kind} {mods : Modifiers}
    (h : mods.isSubset k.allowed = true) : (closeModifiers mods).isSubset k.allowed = true := by
  unfold closeModifiers
  split
  next hi =>
    rw [Modifiers.isSubset_iff] at h ⊢
    intro i hlt hb
    simp only [Modifiers.insert, BitVec.getLsbD_or, Bool.or_eq_true, BitVec.getLsbD_twoPow,
      Bool.and_eq_true, decide_eq_true_eq] at hb
    rcases hb with hb | ⟨-, rfl⟩
    · exact h i hlt hb
    · exact Kind.has_abstract_of_has_interface (h _ (Modifier.bitIndex_lt .interface) hi)
  next => exact h

theorem valid_of_setModifiers? {m m' : Member} {mods : Modifiers}
    (h : m.setModifiers? mods = .ok m') : m'.Valid := by
  obtain ⟨hs, rfl⟩ := setModifiers?_eq_ok_iff.1 h
  refine ⟨isSubset_closeModifiers hs, fun hi => ?_⟩
  simp only [has, closeModifiers] at hi ⊢
  split at hi <;> simp_all

/-- A member that is still without modifiers, and the modifiers it is to have. -/
structure Draft where
  /-- The member without modifiers. -/
  member : Member
  /-- The modifiers. -/
  modifiers : Modifiers := .none
  deriving DecidableEq

/-- The member with its modifiers, which have to lie in the mask of its kind. -/
def Draft.member? (d : Draft) : Except ModelError Member := d.member.setModifiers? d.modifiers

/-! ### Exceptions -/

/-- The declared exceptions one by one. -/
def throwsList (m : Member) : List Text := (Text.split (· == ',') m.throws).filter (· ≠ [])

/-- The exceptions of a list as a text: without blanks at their ends, without empty ones, sorted,
each once, and with commas between them. -/
def throwsText (items : List Text) : Text :=
  [','].intercalate (SortedSet.ofList ((items.map Text.trim).filter (· ≠ []))).toList

/-- The member with other declared exceptions. -/
def setThrows (m : Member) (items : List Text) : Member := { m with throws := throwsText items }

end Member

end ApiSurface
