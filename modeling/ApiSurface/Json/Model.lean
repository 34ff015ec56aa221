import ApiSurface.Json.Value
import ApiSurface.Snapshot

/-!
# The JSON form of the model

Members, classes and snapshots as JSON values. Writing leaves out what is empty; reading takes
a missing field as empty and passes over fields that it does not know. Modifiers are checked
on reading, as everywhere. Annotations, members and classes are read from objects only: the
form that lists their values by position, without field names, is left out.
-/

namespace ApiSurface

/-- Why a JSON value is no value of the model. -/
inductive LoadError where
  /-- A field is missing or has a value of another form. -/
  | malformed
  /-- The value violates a rule of the model. -/
  | model (error : ModelError)
  deriving DecidableEq

namespace Kind

/-- The name of a kind in the JSON form. -/
def jsonName : Kind → Text
  | header => "class".toList
  | superclass => "super_class".toList
  | interface => "super_interface".toList
  | constructor => "constructor".toList
  | method => "method".toList
  | field => "field".toList
  | inner => "inner_reference".toList
  | permitted => "permitted_subtype".toList

/-- The kind with a given name in the JSON form. -/
def ofJsonName? (t : Text) : Option Kind := all.find? (·.jsonName = t)

theorem ofJsonName?_jsonName (k : Kind) : ofJsonName? k.jsonName = some k := by
  cases k <;> decide

end Kind

namespace Json

/-- A field that is left out if `absent` holds. -/
def fieldUnless (absent : Bool) (name : String) (j : Json) : List (Text × Json) :=
  if absent then [] else [(name.toList, j)]

/-- A field for the content of an option, left out if there is none. -/
def fieldOfSome (name : String) (value : Option Json) : List (Text × Json) :=
  value.toList.map fun j => (name.toList, j)

/-- A field for a list, left out if it is empty. -/
def fieldOfList (name : String) (items : List Json) : List (Text × Json) :=
  fieldUnless items.isEmpty name (arr items)

end Json

open Json

/-! ### Writing -/

/-- The JSON form of an annotation. -/
def Annot.toJson (a : Annot) : Json :=
  obj (("name".toList, str a.name)
    :: fieldOfList "members" (a.members.map fun m => arr [str m.1, str m.2]))

/-- The JSON form of a member. -/
def Member.toJson (m : Member) : Json :=
  obj ([("kind".toList, str m.kind.jsonName), ("modifiers".toList, int m.modifiers.bits.toNat),
      ("declaring".toList, str m.declaring), ("name".toList, str m.name)]
    ++ fieldUnless m.typeName.isEmpty "type_name" (str m.typeName)
    ++ fieldUnless m.args.isEmpty "args" (str m.args)
    ++ fieldUnless m.throws.isEmpty "throws" (str m.throws)
    ++ fieldOfSome "type_params" (m.typeParams.map str)
    ++ fieldOfList "annotations" (m.annots.toList.map Annot.toJson)
    ++ fieldOfSome "constant_value" (m.constant.map str)
    ++ fieldUnless (!m.direct) "direct" (bool m.direct))

/-- The JSON form of a class. -/
def ClassDef.toJson (c : ClassDef) : Json :=
  obj (("header".toList, c.header.toJson)
    :: fieldOfSome "superclass" (c.superclass.map Member.toJson)
    ++ fieldOfList "interfaces" (c.interfaces.map Member.toJson)
    ++ fieldOfList "constructors" (c.constructors.map Member.toJson)
    ++ fieldOfList "methods" (c.methods.map Member.toJson)
    ++ fieldOfList "fields" (c.fields.map Member.toJson)
    ++ fieldOfList "nested" (c.nested.map Member.toJson)
    ++ fieldOfList "permitted" (c.permitted.map Member.toJson)
    ++ fieldOfList "inherited" (c.inherited.map Member.toJson)
    ++ fieldOfList "hidden_fields" (c.hiddenFields.toList.map str)
    ++ fieldOfList "hidden_classes" (c.hiddenClasses.toList.map str))

/-- The JSON form of a snapshot: the classes under their names. -/
def Snapshot.toJson (s : Snapshot) : Json := obj (s.entries.map fun e => (e.1, e.2.toJson))

/-! ### Reading -/

/-- A named value of an annotation: a list of two strings. -/
def Annot.memberOfJson? : Json → Option (Text × Text)
  | arr [str name, str value] => some (name, value)
  | _ => none

/-- The annotation of a JSON object. The form by position is left out. -/
def Annot.ofJson? (j : Json) : Option Annot := do
  let fields ← j.fields?
  let name ← required fields "name" text?
  let members ← optional fields "members" [] fun j => do (← j.items?).mapM memberOfJson?
  return { name, members }

/-- The member of a JSON object, before its modifiers are checked. The form by position is left
out. -/
def Member.draftOfJson? (j : Json) : Option Member.Draft := do
  let fields ← j.fields?
  let kind ← required fields "kind" fun j => j.text?.bind Kind.ofJsonName?
  let modifiers ← optional fields "modifiers" Modifiers.none fun j => j.word?.map Modifiers.mk
  let declaring ← optional fields "declaring" [] text?
  let name ← required fields "name" text?
  let typeName ← optional fields "type_name" [] text?
  let args ← optional fields "args" [] text?
  let throws ← optional fields "throws" [] text?
  let typeParams ← optional fields "type_params" none (nullable text?)
  let annots ← optional fields "annotations" [] fun j => do (← j.items?).mapM Annot.ofJson?
  let constant ← optional fields "constant_value" none (nullable text?)
  let direct ← optional fields "direct" false bool?
  let member : Member :=
    { kind, declaring, name, typeName, args, throws, typeParams, annots := .ofList annots,
      constant, direct }
  return ⟨member, modifiers⟩

/-- The member of a JSON value. -/
def Member.ofJson (j : Json) : Except LoadError Member :=
  match draftOfJson? j with
  | none => .error .malformed
  | some d => d.member?.mapError .model

/-- The members that a field of an object lists. -/
def Member.listOfJson (fields : List (Text × Json)) (name : String) :
    Except LoadError (List Member) :=
  match optional fields name [] items? with
  | none => .error .malformed
  | some items => items.mapM ofJson

/-- The member that a field of an object holds, if the field is there and not `null`. -/
def Member.optionOfJson (j : Option Json) : Except LoadError (Option Member) :=
  match j with
  | none | some .null => .ok none
  | some j => (ofJson j).map some

/-- The names that a field of an object lists. -/
def ClassDef.namesOfJson (fields : List (Text × Json)) (name : String) :
    Except LoadError (SortedSet Text) :=
  match optional fields name [] fun j => do (← j.items?).mapM text? with
  | none => .error .malformed
  | some names => .ok (.ofList names)

/-- The class of a JSON object; the form by position is left out. Of several errors the one in
the first field counts, in the order of the field names; that the header is missing is noticed
last. -/
def ClassDef.ofJson (j : Json) : Except LoadError ClassDef :=
  match j.fields? with
  | none => .error .malformed
  | some fields => do
    let constructors ← Member.listOfJson fields "constructors"
    let declaredFields ← Member.listOfJson fields "fields"
    let header ← (lookup? fields "header").mapM Member.ofJson
    let hiddenClasses ← namesOfJson fields "hidden_classes"
    let hiddenFields ← namesOfJson fields "hidden_fields"
    let inherited ← Member.listOfJson fields "inherited"
    let interfaces ← Member.listOfJson fields "interfaces"
    let methods ← Member.listOfJson fields "methods"
    let nested ← Member.listOfJson fields "nested"
    let permitted ← Member.listOfJson fields "permitted"
    let superclass ← Member.optionOfJson (lookup? fields "superclass")
    match header with
    | none => .error .malformed
    | some header =>
      .ok { header, superclass, interfaces, constructors, methods, fields := declaredFields, nested,
            permitted, inherited, hiddenFields, hiddenClasses }

/-- The snapshot of a JSON value. The keys are taken as they are. -/
def Snapshot.ofJson (j : Json) : Except LoadError Snapshot :=
  match j.fields? with
  | none => .error .malformed
  | some fields =>
    fields.foldlM (fun (s : Snapshot) e => (ClassDef.ofJson e.2).map fun c => s.insert e.1 c) ∅

end ApiSurface
