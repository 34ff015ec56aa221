import ApiSurface.Merge.Members
import ApiSurface.Merge.Promotion

/-!
# Merged class bodies

The definitions of one class are merged list by list. Where some are raw and others generic,
the raw ones are first put into generic terms: directly if there is one of each, else after the
raw ones have been merged among themselves and the generic ones likewise.
-/

namespace ApiSurface

namespace ClassDef

/-- The class without the constants of fields that are not static, unless they are tracked. -/
def dropUntracked (settings : MergeSettings) (c : ClassDef) : ClassDef :=
  if settings.trackNonStaticConstants then c
  else
    { c with
      fields := c.fields.map fun m => if m.has .static then m else { m with constant := none } }

/-- The merged definitions, apart from the modifiers of the class and its supertypes, which are
those of the first. -/
def mergeBody (settings : MergeSettings) (first : ClassDef) (rest : List ClassDef) :
    Logged Conflict ClassDef := do
  let all := first :: rest
  let typeParams ← Member.mergeTypeParams first.header (rest.map (·.header))
  let constructors ← Member.mergeAll settings (all.flatMap (·.constructors))
  let methods ← Member.mergeAll settings (all.flatMap (·.methods))
  let fields ← Member.mergeAll settings (all.flatMap (·.fields))
  return { first with
    header := { first.header with typeParams, annots := Member.allAnnots (all.map (·.header)) }
    constructors
    methods
    fields
    nested := Member.unionByKey (all.flatMap (·.nested))
    permitted := Member.unionByKey (all.flatMap (·.permitted))
    inherited := Member.unionByKey (all.flatMap (·.inherited))
    hiddenFields := rest.foldl (fun s c => s.inter c.hiddenFields) first.hiddenFields
    hiddenClasses := rest.foldl (fun s c => s.inter c.hiddenClasses) first.hiddenClasses }

/-- A merged body, its conflicts among other findings. -/
def mergeBodies (settings : MergeSettings) (first : ClassDef) (rest : List ClassDef) :
    Logged Finding ClassDef :=
  (mergeBody settings first rest).mapLog .conflict

/-- The raw class in generic terms, or as it is where that cannot be done. -/
def promoteOrKeep (policy : UnboundPolicy) (raw generic : ClassDef) : Logged Finding ClassDef :=
  (·.getD raw) <$> (promote? policy raw generic).mapLog .unresolved

/-- In which steps the bodies of several definitions are merged. -/
inductive MergePlan where
  /-- All at once: all of them are raw, or all are generic. -/
  | together
  /-- All at once, after the one raw definition was put in the terms of the one generic one. -/
  | lifted (raw generic : ClassDef)
  /-- The raw ones by themselves, the generic ones by themselves, and then the two results. -/
  | halves (raw : ClassDef) (raws : List ClassDef) (generic : ClassDef) (generics : List ClassDef)

/-- The steps in which the bodies of several definitions are merged. -/
def planOf (defs : List ClassDef) : MergePlan :=
  match defs.filter (!·.isGeneralized), defs.filter (·.isGeneralized) with
  | [], _ | _, [] => .together
  | [raw], [generic] => .lifted raw generic
  | raw :: raws, generic :: generics => .halves raw raws generic generics

/-- The merged raw definitions, in generic terms if that can be done, and the merged generic
definitions. -/
def mergeHalves (settings : MergeSettings) (policy : UnboundPolicy) (raw : ClassDef)
    (raws : List ClassDef) (generic : ClassDef) (generics : List ClassDef) :
    Logged Finding (ClassDef × ClassDef) := do
  let rawMerged ← mergeBodies settings raw raws
  let genericMerged ← mergeBodies settings generic generics
  let lifted ←
    if genericMerged.isGeneralized then promoteOrKeep policy rawMerged genericMerged
    else pure rawMerged
  return (lifted, genericMerged)

/-- A generic definition as it is, and the given one in the place of a raw one. -/
def liftTo (lifted c : ClassDef) : ClassDef := if c.isGeneralized then c else lifted

/-- The merged bodies of raw and generic definitions. -/
def mergeMixed (settings : MergeSettings) (policy : UnboundPolicy) (first : ClassDef)
    (rest : List ClassDef) : Logged Finding ClassDef :=
  match planOf (first :: rest) with
  | .together => mergeBodies settings first rest
  | .lifted raw generic => do
    let lifted ← promoteOrKeep policy raw generic
    mergeBodies settings (liftTo lifted first) (rest.map (liftTo lifted))
  | .halves raw raws generic generics => do
    let (rawMerged, genericMerged) ← mergeHalves settings policy raw raws generic generics
    mergeBodies settings rawMerged [genericMerged]

end ClassDef

end ApiSurface
