import ApiSurface.ClassDef
import ApiSurface.Erasure.Placeholder

/-!
# Erasure of members and classes

Erasing a member removes its own generics declaration and erases its argument list, its type
and its exceptions; erasing a class removes the declaration of the class and erases its
members. The log holds the placeholders that could not be erased.
-/

namespace ApiSurface

open Text

/-- The erasure of a text, where an empty text is left alone. -/
def substituteText (outer inner : Params) (t : Text) : Logged Text Text :=
  if t = [] then pure [] else substitute outer inner t

namespace Member

/-- The erasure of a member of a class whose parameters are `outer`. -/
def erasure (policy : UnboundPolicy) (outer : Params) (m : Member) : Logged Text Member := do
  let inner := Params.ofDecl? .ofMember policy m.typeParams
  let args ← substituteText outer inner m.args
  let typeName ← substituteText outer inner m.typeName
  let throws ← substituteText outer inner m.throws
  return { m with args, typeName, throws, typeParams := none }

/-- A member without type arguments and placeholders. -/
def erased (policy : UnboundPolicy) (outer : Params) (m : Member) : Member :=
  (m.erasure policy outer).value

end Member

namespace ClassDef

/-- The type parameters that the class itself declares. -/
def params (policy : UnboundPolicy) (c : ClassDef) : Params :=
  .ofDecl? (.ofClass c.name) policy c.typeParams

/-- The class without its own generics declaration. -/
def dropTypeParams (c : ClassDef) : ClassDef :=
  { c with header := { c.header with typeParams := none } }

/-- The class with every member erased. -/
def erasure (policy : UnboundPolicy) (c : ClassDef) : Logged Text ClassDef where
  value := (c.mapMembers (·.erased policy (c.params policy))).dropTypeParams
  log := c.members.flatMap fun m => (m.erasure policy (c.params policy)).log

/-- The class with its declared members, its nested types and its permitted subtypes erased. -/
def fullErasure (policy : UnboundPolicy) (c : ClassDef) : Logged Text ClassDef where
  value := (c.mapDeclared (·.erased policy (c.params policy))).dropTypeParams
  log := c.declaredMembers.flatMap fun m => (m.erasure policy (c.params policy)).log

end ClassDef

end ApiSurface
