import ApiSurface.Erasure.Member

/-!
# Promotion of raw definitions

A source may have been built before a class became generic; its members then have the erased
types of the members of a newer source. Where the members of a raw definition are exactly the
erasures of those of a generic one, the raw definition can be written in the terms of the
generic one.
-/

namespace ApiSurface

namespace Member

/-- The raw member in the terms of a generic one: with its arguments, its type and its generics
declaration and, where the raw exceptions are the erased ones, its exceptions. -/
def adopt (raw erased generic : Member) : Member :=
  { raw with
    args := generic.args
    typeName := generic.typeName
    typeParams := generic.typeParams
    throws := if erased.throws = raw.throws then generic.throws else raw.throws }

/-- The raw member in the terms of the first generic member whose erasure has its key and its
type; each generic member is paired with its erasure. -/
def promote? (pairs : List (Member × Member)) (raw : Member) : Option Member :=
  (pairs.find? fun e => e.1.key = raw.key ∧ e.1.typeName = raw.typeName).map fun e =>
    raw.adopt e.1 e.2

/-- The raw members in the terms of generic ones, if each finds one and there are as many raw as
generic members. -/
def promoteAll? (raw erased generic : List Member) : Option (List Member) :=
  if raw.length = erased.length then raw.mapM (promote? (erased.zip generic)) else none

end Member

namespace ClassDef

/-- The raw class with its constructors, methods and fields in the terms of those of a generic
class with a given erasure. -/
def promoteBy? (raw erased generic : ClassDef) : Option ClassDef := do
  let constructors ← Member.promoteAll? raw.constructors erased.constructors generic.constructors
  let methods ← Member.promoteAll? raw.methods erased.methods generic.methods
  let fields ← Member.promoteAll? raw.fields erased.fields generic.fields
  return { raw with constructors, methods, fields }

/-- The raw class in the terms of a generic one, if its constructors, methods and fields are the
erasures of those of the generic class. -/
def promote? (policy : UnboundPolicy) (raw generic : ClassDef) : Logged Text (Option ClassDef) :=
  (raw.promoteBy? · generic) <$> generic.fullErasure policy

end ClassDef

end ApiSurface
