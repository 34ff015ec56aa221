import ApiSurface.Member

/-!
# Formal and actual type arguments

Where a generic supertype is used with actual type arguments, its members are read with those
in the place of its formal parameters. The placeholder of the parameter at position `i` of the
type `Q` is `{Q%i}`.
-/

namespace ApiSurface

open Text

/-- The placeholder of the parameter at a position. -/
def formalPlaceholder (typeName : Text) (position : Nat) : Text :=
  '{' :: typeName ++ '%' :: Nat.toDigits 10 position ++ ['}']

namespace Member

/-- The member with `actual` in the place of a placeholder: in its type, its arguments and, where
it is a reference to a type, its type arguments. -/
def replaceFormal (formal actual : Text) (m : Member) : Member :=
  { m with
    args := replaceAll formal actual m.args
    typeName := replaceAll formal actual m.typeName
    typeParams :=
      if m.kind.isTypeRef then m.typeParams.map (replaceAll formal actual) else m.typeParams }

/-- The member with the actual arguments, from `position` on, in the place of the parameters of a
type, one after the other. With `skipRaw` an argument without a percent sign is passed over. -/
def replaceFormalsFrom (typeName : Text) (skipRaw : Bool) (position : Nat) :
    List Text → Member → Member
  | [], m => m
  | actual :: rest, m =>
    replaceFormalsFrom typeName skipRaw (position + 1) rest
      (if skipRaw ∧ '%' ∉ actual then m
        else m.replaceFormal (formalPlaceholder typeName position) actual)

/-- The member with actual arguments in the place of the parameters of a type. -/
def replaceFormals (typeName : Text) (actual : List Text) (skipRaw : Bool) (m : Member) : Member :=
  replaceFormalsFrom typeName skipRaw 0 actual m

/-- The members with actual arguments in the place of the parameters of a type. -/
def replaceAllFormals (typeName : Text) (actual : List Text) (skipRaw : Bool)
    (ms : List Member) : List Member :=
  ms.map (replaceFormals typeName actual skipRaw)

end Member

end ApiSurface
