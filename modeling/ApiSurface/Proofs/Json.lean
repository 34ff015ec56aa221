import ApiSurface.Proofs.Valid

/-!
# Models that come back from JSON

What is written as JSON is read back. A field that is left out is looked up as missing
(`Json.lookup?_fieldUnless`), and each way of reading a field gives back what the matching way of
writing it was given (`Json.optional_unless`, `Json.optional_ofSome`, `Json.optional_ofList`). From
there the round trip goes up through annotations, members and classes to snapshots. Only modifiers
can be refused: `Member.ofJson_eq_model_iff` says when.
-/

namespace ApiSurface

namespace Json

/-! ### Looking up what was written -/

section Lookup

variable {name name' : String} {fields : List (Text × Json)}

@[simp] theorem lookup?_append (a b : List (Text × Json)) (name : String) :
    lookup? (a ++ b) name = (lookup? a name).or (lookup? b name) := by
  rw [lookup?, List.find?_append, Option.map_or, lookup?, lookup?]

@[simp] theorem lookup?_nil : lookup? [] name = none := rfl

@[simp] theorem lookup?_cons (t : Text) (j : Json) :
    lookup? ((t, j) :: fields) name =
      if t = name.toList then some j else lookup? fields name := by
  by_cases h : t = name.toList <;> simp [lookup?, h]

@[simp] theorem lookup?_fieldUnless (absent : Bool) (j : Json) :
    lookup? (fieldUnless absent name' j) name =
      if name' = name ∧ absent = false then some j else none := by
  cases absent <;> simp [fieldUnless, String.toList_inj]

@[simp] theorem lookup?_fieldOfSome (value : Option Json) :
    lookup? (fieldOfSome name' value) name = if name' = name then value else none := by
  cases value <;> simp [fieldOfSome, String.toList_inj]

@[simp] theorem lookup?_fieldOfList (items : List Json) :
    lookup? (fieldOfList name' items) name =
      if name' = name ∧ items.isEmpty = false then some (arr items) else none :=
  lookup?_fieldUnless _ _

end Lookup

/-! ### Each reader reads what its writer writes -/

section Fields

variable {α : Type} {fields : List (Text × Json)} {name : String} {read : Json → Option α}

theorem required_of_lookup? {j : Json} {a : α} (hfield : lookup? fields name = some j)
    (hread : read j = some a) : required fields name read = some a := by
  rw [required, hfield, Option.bind_some, hread]

/-- A field that is left out for its default. -/
theorem optional_unless (absent : Bool) {j : Json} {a default : α}
    (hfield : lookup? fields name = if absent = false then some j else none)
    (hread : read j = some a) (habsent : absent = true → a = default) :
    optional fields name default read = some a := by
  rw [optional, hfield]
  cases absent
  · exact hread
  · exact congrArg some (habsent rfl).symm

/-- A field for the content of an option: `null` is never written. -/
theorem optional_ofSome (write : α → Json) {value : Option α}
    (hfield : lookup? fields name = value.map write) (hread : ∀ a, read (write a) = some a)
    (hnull : ∀ a, write a ≠ null) :
    optional fields name none (nullable read) = some value := by
  rw [optional, hfield]
  cases value with
  | none => rfl
  | some a =>
    show nullable read (write a) = some (some a)
    unfold nullable
    split
    next h => exact absurd h (hnull a)
    next => rw [hread, Option.map_some]

/-- What is read item by item from the items that were written. -/
theorem mapM_map_of_read {m : Type → Type} [Monad m] [LawfulMonad m] {β : Type} {write : α → β}
    {read : β → m α} {l : List α} (h : ∀ a ∈ l, read (write a) = pure a) :
    (l.map write).mapM read = pure l := by
  induction l with
  | nil => rfl
  | cons a l ih =>
    obtain ⟨ha, hl⟩ := List.forall_mem_cons.1 h
    rw [List.map_cons, List.mapM_cons, ha, ih hl, pure_bind, pure_bind]

/-- A field for a list, read item by item. -/
theorem optional_ofList {write : α → Json} {l : List α}
    (hfield : lookup? fields name =
      if (l.map write).isEmpty = false then some (arr (l.map write)) else none)
    (hread : ∀ a, read (write a) = some a) :
    (optional fields name [] fun j => do (← j.items?).mapM read) = some l := by
  refine optional_unless _ hfield ?_ fun h => by simpa using h
  exact mapM_map_of_read fun a _ => hread a

end Fields

/-- A word of 32 bits is read from the number that it stands for. -/
theorem word?_int (b : BitVec 32) : word? (int b.toNat) = some b := by
  have hlt : b.toNat < 0x100000000 := b.isLt
  have hrange : (0 : Int) ≤ (b.toNat : Int) ∧ (b.toNat : Int) < 0x100000000 := by omega
  rw [int, word?, if_pos hrange, Int.toNat_natCast, BitVec.ofNat_toNat, BitVec.setWidth_eq]

end Json

open Json Line

/-! ### Annotations -/

theorem Annot.memberOfJson?_pair (p : Text × Text) :
    memberOfJson? (arr [str p.1, str p.2]) = some p := rfl

theorem Annot.ofJson?_toJson (a : Annot) : ofJson? a.toJson = some a := by
  simp only [ofJson?, toJson, Option.bind_eq_bind, Option.bind_eq_some_iff]
  exact ⟨_, rfl, _, required_of_lookup? (j := str a.name) (by simp) rfl,
    _, optional_ofList (by simp) memberOfJson?_pair, rfl⟩

/-! ### Members -/

namespace Member

variable {m : Member} {j : Json}

/-- What is written for a member is read back, with the modifiers still to be checked. -/
theorem draftOfJson?_toJson (m : Member) :
    draftOfJson? m.toJson = some ⟨{ m with modifiers := .none }, m.modifiers⟩ := by
  have hword : (int m.modifiers.bits.toNat).word?.map Modifiers.mk = some m.modifiers := by
    rw [word?_int, Option.map_some]
  simp only [draftOfJson?, toJson, Option.bind_eq_bind, Option.bind_eq_some_iff]
  refine ⟨_, rfl, m.kind, ?_, m.modifiers, ?_, m.declaring, ?_, m.name, ?_, m.typeName, ?_,
    m.args, ?_, m.throws, ?_, m.typeParams, ?_, m.annots.toList, ?_, m.constant, ?_, m.direct, ?_,
    ?_⟩
  · exact required_of_lookup? (j := str m.kind.jsonName) (by simp) (Kind.ofJsonName?_jsonName _)
  · exact optional_unless false (by simp) hword (by simp)
  · exact optional_unless false (j := str m.declaring) (by simp) rfl (by simp)
  · exact required_of_lookup? (j := str m.name) (by simp) rfl
  · exact optional_unless m.typeName.isEmpty (j := str m.typeName) (by simp) rfl List.isEmpty_iff.1
  · exact optional_unless m.args.isEmpty (j := str m.args) (by simp) rfl List.isEmpty_iff.1
  · exact optional_unless m.throws.isEmpty (j := str m.throws) (by simp) rfl List.isEmpty_iff.1
  · exact optional_ofSome str (by simp) (fun _ => rfl) (by simp)
  · exact optional_ofList (by simp) Annot.ofJson?_toJson
  · exact optional_ofSome str (by simp) (fun _ => rfl) (by simp)
  · exact optional_unless (!m.direct) (j := bool m.direct) (by simp) rfl (by simp)
  · rw [SortedSet.ofList_toList]
    rfl

/-- A valid member is read back as it was. -/
theorem ofJson_toJson (h : m.Valid) : ofJson m.toJson = .ok m := by
  have hset : setModifiers? { m with modifiers := .none } m.modifiers = .ok m :=
    setModifiers?_eq_ok_iff.2 ⟨h.1, by rw [closeModifiers_of_valid h]⟩
  rw [ofJson, draftOfJson?_toJson]
  show (setModifiers? { m with modifiers := .none } m.modifiers).mapError LoadError.model = .ok m
  rw [hset]
  rfl

/-- Modifiers are refused exactly if some flag lies outside the mask of the kind. -/
theorem setModifiers?_eq_error_iff {mods : Modifiers} {e : ModelError} :
    m.setModifiers? mods = .error e ↔
      (∃ i < 32, mods.bits.getLsbD i = true ∧ m.kind.allowed.bits.getLsbD i = false) ∧
        e = .modifierNotAllowed m.kind m.qualifiedName (mods.diff m.kind.allowed) := by
  have houtside : ¬ mods.isSubset m.kind.allowed = true ↔
      ∃ i < 32, mods.bits.getLsbD i = true ∧ m.kind.allowed.bits.getLsbD i = false := by
    rw [Modifiers.isSubset_iff]
    push Not
    simp only [Bool.not_eq_true]
  rw [← houtside, setModifiers?]
  split
  next hs => exact iff_of_false nofun fun h => h.1 hs
  next hs => rw [and_iff_right hs, Except.error.injEq, eq_comm]

/-- A member is refused for its modifiers exactly if all its fields are in order and some flag
lies outside the mask of its kind. -/
theorem ofJson_eq_model_iff {e : ModelError} :
    ofJson j = .error (.model e) ↔ ∃ d, draftOfJson? j = some d ∧
      (∃ i < 32, d.modifiers.bits.getLsbD i = true ∧
        d.member.kind.allowed.bits.getLsbD i = false) ∧
      e = .modifierNotAllowed d.member.kind d.member.qualifiedName
        (d.modifiers.diff d.member.kind.allowed) := by
  unfold ofJson
  split
  next h => simp [h]
  next d h =>
    have hmap : d.member?.mapError LoadError.model = .error (.model e) ↔ d.member? = .error e := by
      cases d.member? <;> simp [Except.mapError]
    simp only [h, Option.some.injEq, exists_eq_left']
    rw [hmap, Draft.member?, setModifiers?_eq_error_iff]

/-- The members of a field are read back. -/
theorem listOfJson_ofList {fields : List (Text × Json)} {name : String} {ms : List Member}
    (hfield : lookup? fields name =
      if (ms.map toJson).isEmpty = false then some (arr (ms.map toJson)) else none)
    (h : ∀ m ∈ ms, m.Valid) : listOfJson fields name = .ok ms := by
  have hitems : optional fields name [] items? = some (ms.map toJson) :=
    optional_unless _ hfield rfl List.isEmpty_iff.1
  rw [listOfJson, hitems]
  exact mapM_map_of_read fun m hm => ofJson_toJson (h m hm)

/-- The member of a field is read back, if there is one. -/
theorem optionOfJson_map_toJson {o : Option Member} (h : ∀ m ∈ o, m.Valid) :
    optionOfJson (o.map toJson) = .ok o := by
  cases o with
  | none => rfl
  | some m =>
    show (ofJson m.toJson).map some = .ok (some m)
    rw [ofJson_toJson (h m rfl)]
    rfl

end Member

/-! ### Classes -/

namespace ClassDef

variable {c : ClassDef}

theorem namesOfJson_ofList {fields : List (Text × Json)} {name : String} {names : SortedSet Text}
    (hfield : lookup? fields name =
      if (names.toList.map str).isEmpty = false then some (arr (names.toList.map str)) else none) :
    namesOfJson fields name = .ok names := by
  have hnames : (optional fields name [] fun j => do (← j.items?).mapM text?) =
      some names.toList := optional_ofList hfield fun _ => rfl
  rw [namesOfJson, hnames]
  exact congrArg Except.ok (SortedSet.ofList_toList names)

theorem ofJson_toJson (h : ∀ m ∈ c.header :: c.members, m.Valid) : ofJson c.toJson = .ok c := by
  obtain ⟨hheader, hmembers⟩ := List.forall_mem_cons.1 h
  simp only [members, declaredMembers, ownMembers, List.forall_mem_append] at hmembers
  obtain ⟨⟨⟨hsuperclass, hinterfaces⟩, ⟨⟨⟨hconstructors, hmethods⟩, hfields⟩, hnested⟩,
    hpermitted⟩, hinherited⟩ := hmembers
  rw [ofJson, toJson]
  simp only [fields?, bind_eq_ok_iff]
  refine ⟨c.constructors, ?_, c.fields, ?_, some c.header, ?_, c.hiddenClasses, ?_, c.hiddenFields,
    ?_, c.inherited, ?_, c.interfaces, ?_, c.methods, ?_, c.nested, ?_, c.permitted, ?_,
    c.superclass, ?_, rfl⟩
  · exact Member.listOfJson_ofList (by simp) hconstructors
  · exact Member.listOfJson_ofList (by simp) hfields
  · have hlookup : (some c.header.toJson).mapM Member.ofJson = .ok (some c.header) := by
      rw [Option.mapM_some, Member.ofJson_toJson hheader]
      rfl
    rw [← hlookup]
    simp
  · exact namesOfJson_ofList (by simp)
  · exact namesOfJson_ofList (by simp)
  · exact Member.listOfJson_ofList (by simp) hinherited
  · exact Member.listOfJson_ofList (by simp) hinterfaces
  · exact Member.listOfJson_ofList (by simp) hmethods
  · exact Member.listOfJson_ofList (by simp) hnested
  · exact Member.listOfJson_ofList (by simp) hpermitted
  · rw [← Member.optionOfJson_map_toJson (o := c.superclass) (by simpa using hsuperclass)]
    simp

end ClassDef

/-! ### Snapshots -/

namespace Snapshot

variable {s : Snapshot}

/-- Entries that were written are read back one by one. -/
theorem foldlM_ofJson {l : List (Text × ClassDef)}
    (h : ∀ e ∈ l, ∀ m ∈ e.2.header :: e.2.members, m.Valid) (s : Snapshot) :
    (l.map fun e => (e.1, e.2.toJson)).foldlM
        (fun (s : Snapshot) e => (ClassDef.ofJson e.2).map fun c => s.insert e.1 c) s =
      .ok (l.foldl (fun s e => s.insert e.1 e.2) s) := by
  induction l generalizing s with
  | nil => rfl
  | cons e l ih =>
    obtain ⟨he, hl⟩ := List.forall_mem_cons.1 h
    rw [List.map_cons, List.foldlM_cons, ClassDef.ofJson_toJson he]
    exact ih hl (s.insert e.1 e.2)

theorem ofJson_toJson (h : ∀ c ∈ s.values, ∀ m ∈ c.header :: c.members, m.Valid) :
    ofJson s.toJson = .ok s := by
  rw [ofJson, toJson, fields?]
  show List.foldlM _ ∅ _ = _
  rw [foldlM_ofJson fun e he => h e.2 (List.mem_map_of_mem he)]
  exact congrArg Except.ok (SortedMap.ofList_entries s)

end Snapshot

/-- JSON loses nothing. Every snapshot of valid members comes back as it was, under whatever keys
its classes are listed; so does every snapshot that was read from JSON. A member whose fields are in
order is refused for its modifiers exactly if some flag lies outside the mask of its kind, and is
read with these modifiers otherwise. -/
theorem json_loses_nothing :
    (∀ s : Snapshot, (∀ c ∈ s.values, ∀ m ∈ c.header :: c.members, m.Valid) →
      Snapshot.ofJson s.toJson = .ok s) ∧
    (∀ v s, Snapshot.ofJson v = .ok s → Snapshot.ofJson s.toJson = .ok s) ∧
    (∀ v e, Member.ofJson v = .error (.model e) ↔ ∃ d, Member.draftOfJson? v = some d ∧
      (∃ i < 32, d.modifiers.bits.getLsbD i = true ∧
        d.member.kind.allowed.bits.getLsbD i = false) ∧
      e = .modifierNotAllowed d.member.kind d.member.qualifiedName
        (d.modifiers.diff d.member.kind.allowed)) ∧
    ∀ v d, Member.draftOfJson? v = some d →
      (∀ i < 32, d.modifiers.bits.getLsbD i = true →
        d.member.kind.allowed.bits.getLsbD i = true) →
      Member.ofJson v = .ok { d.member with modifiers := Member.closeModifiers d.modifiers } := by
  refine ⟨fun s h => Snapshot.ofJson_toJson h,
    fun v s h => Snapshot.ofJson_toJson (valid_of_snapshotJson h),
    fun v e => Member.ofJson_eq_model_iff, fun v d hd hmask => ?_⟩
  have hset : d.member? = .ok { d.member with modifiers := Member.closeModifiers d.modifiers } :=
    Member.setModifiers?_eq_ok_iff.2 ⟨Modifiers.isSubset_iff.2 hmask, rfl⟩
  simp only [Member.ofJson, hd, hset]
  rfl

/-- The header of an interface without the flag of abstract types. -/
def interfaceJson : Json :=
  obj [("kind".toList, str "class".toList), ("modifiers".toList, int 0x200),
    ("name".toList, str "a.I".toList), ("type_params".toList, str [])]

/-- The interface with that flag, listed under a key that is not its name. -/
def listedInterface : Snapshot :=
  .ofList [("key".toList,
    { header := { kind := .header, modifiers := .ofList [.interface, .abstract],
                  name := "a.I".toList, typeParams := some [] } })]

theorem json_loses_nothing_interface :
    (∃ m, Member.ofJson interfaceJson = .ok m ∧ m.has .abstract = true) ∧
    ((∀ c ∈ listedInterface.values, ∀ m ∈ c.header :: c.members, m.Valid) ∧
      Snapshot.ofJson listedInterface.toJson = .ok listedInterface) ∧
    ∃ s, Snapshot.ofJson (obj [("key".toList, obj [("header".toList, interfaceJson)])]) = .ok s ∧
      s = listedInterface ∧ Snapshot.ofJson s.toJson = .ok s := by
  obtain ⟨hvalid, hread, -, haccepted⟩ := json_loses_nothing
  refine ⟨⟨_, haccepted interfaceJson _ rfl (by decide +kernel), by decide +kernel⟩, ?_, ?_⟩
  · have hall : ∀ c ∈ listedInterface.values, ∀ m ∈ c.header :: c.members, m.Valid := by
      decide +kernel
    exact ⟨hall, hvalid listedInterface hall⟩
  · have hloaded : Snapshot.ofJson (obj [("key".toList, obj [("header".toList, interfaceJson)])]) =
        .ok listedInterface := rfl
    exact ⟨listedInterface, hloaded, rfl, hread _ listedInterface hloaded⟩

end ApiSurface
