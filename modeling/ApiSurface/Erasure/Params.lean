import ApiSurface.Text.Blank
import ApiSurface.Sorted.Map

/-!
# Type parameters

A generics declaration such as `<%0 extends a.Bound, %1>` names type parameters by number.
Elsewhere a parameter is written as a placeholder: `{a.B%0}` for a parameter of the class `a.B`,
`{%0}` for one of the member at hand. `Params.ofDecl` reads a declaration as the map from
placeholders to the names that they are erased to.
-/

namespace ApiSurface

open Text

/-- What a type parameter without a bound is erased to. -/
inductive UnboundPolicy where
  /-- To nothing: its placeholder stays and is reported. -/
  | unresolved
  /-- To the root of the class hierarchy. -/
  | object
  deriving DecidableEq

/-- The root of the class hierarchy. -/
def objectName : Text := "java.lang.Object".toList

/-- Where a generics declaration stands. -/
inductive Scope where
  /-- On the class of a given name. -/
  | ofClass (name : Text)
  /-- On a method or constructor. -/
  | ofMember
  deriving DecidableEq

/-- The placeholder of a parameter, which is given with its percent sign. -/
def Scope.placeholder : Scope → Text → Text
  | ofClass name, param => '{' :: name ++ param ++ ['}']
  | ofMember, param => '{' :: param ++ ['}']

/-- What placeholders are erased to. -/
abbrev Params := SortedMap Text Text

namespace Params

/-- A percent sign with the digits after it, and the rest of the text. -/
def cutParam? : Text → Option (Text × Text)
  | '%' :: r =>
    if r.takeWhile Char.isDigit = [] then none
    else some ('%' :: r.takeWhile Char.isDigit, r.dropWhile Char.isDigit)
  | _ => none

/-- Whether a character ends a piece of a declaration. -/
def isSeparator (c : Char) : Bool := c == '<' || c == '>' || c == ','

/-- The name of the first bound, where `rest` follows a parameter: what stands between `extends`
and the next space. -/
def boundOf? (rest : Text) : Option Text :=
  (after? " extends ".toList rest).map fun bound => (trim bound).takeWhile (· ≠ ' ')

/-- The parameters with those of one more piece of a declaration. A bound counts even if the
parameter had one; a parameter without a bound counts only the first time. -/
def addPiece (scope : Scope) (policy : UnboundPolicy) (params : Params) (piece : Text) : Params :=
  match cutParam? piece with
  | none => params
  | some (param, rest) =>
    let key := scope.placeholder param
    match boundOf? rest with
    | some bound => params.insert key bound
    | none =>
      if rest = [] ∧ policy = .object ∧ params.get? key = none then params.insert key objectName
      else params

/-- The parameters of a generics declaration. -/
def ofDecl (scope : Scope) (policy : UnboundPolicy) (decl : Text) : Params :=
  ((split isSeparator decl).map trim).foldl (addPiece scope policy) ∅

/-- The parameters of a declaration that may be missing. -/
def ofDecl? (scope : Scope) (policy : UnboundPolicy) (decl : Option Text) : Params :=
  (decl.map (ofDecl scope policy)).getD ∅

end Params

end ApiSurface
