import ApiSurface.Kind

/-!
# Merged modifiers

The modifiers of one class or member in several sources become those that every use of it in
one of the sources may rely on: the widest visibility, `final` only where all are final, and for
methods `abstract` only where all are abstract. All other flags are united. Sources have to
agree on `static`.
-/

namespace ApiSurface

namespace Modifiers

/-- Whether every set has a modifier. -/
def allHave (all : List Modifiers) (m : Modifier) : Bool := all.all (·.has m)

/-- Whether one of the sets has a modifier. -/
def anyHas (all : List Modifiers) (m : Modifier) : Bool := all.any (·.has m)

/-- The widest visibility that one of the sets grants. No flag at all stands between `protected`
and `private`. -/
def widestVisibility (all : List Modifiers) : Modifiers :=
  if anyHas all .pub then none.insert .pub
  else if anyHas all .prot then none.insert .prot
  else if allHave all .priv then none.insert .priv
  else none

/-- The flags of all sets together. -/
def unionAll (all : List Modifiers) : Modifiers := all.foldl union none

/-- The set without a modifier, unless `keep` holds. -/
def eraseUnless (s : Modifiers) (keep : Bool) (m : Modifier) : Modifiers :=
  if keep then s else s.erase m

/-- The merged modifiers of an entity of a kind. There are none where the sets disagree on
`static`, nor for no set at all. -/
def merge (kind : Kind) : List Modifiers → Option Modifiers
  | [] => Option.none
  | first :: rest =>
    let all := first :: rest
    if rest.any fun s => s.has .static ≠ first.has .static then Option.none
    else
      some ((((unionAll all).diff visibility).union (widestVisibility all)
        |>.eraseUnless (allHave all .final) .final)
        |>.eraseUnless (kind ≠ .method || allHave all .abstract) .abstract)

end Modifiers

end ApiSurface
