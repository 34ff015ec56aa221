import ApiSurface.Proofs.Merge.ClassOrder

/-!
# Participants in another order

The order of the participants does not decide the merged class: `mergeClass_perm` says that a class
is left out in every order or in none, that nothing is reported in every order or in none, and that
the merged classes are the same, up to their superclasses, the order of their lists, and what
`Member.api` leaves out of a member. The definitions have to be of one name, since erasure goes by
the name of the merged class.
-/

namespace ApiSurface

open Conflict Finding Member

namespace ClassDef

/-- The classes have the same of all that participants in another order have to give. -/
structure SameApi (settings : MergeSettings) (c c' : ClassDef) : Prop where
  /-- The modifiers of the class. -/
  modifiers : c.header.modifiers = c'.header.modifiers
  /-- Its annotations. -/
  annots : c.header.annots = c'.header.annots
  /-- Its generics declaration. -/
  typeParams : c.typeParams = c'.typeParams
  /-- The names of hidden fields. -/
  hiddenFields : c.hiddenFields = c'.hiddenFields
  /-- The names of hidden nested types. -/
  hiddenClasses : c.hiddenClasses = c'.hiddenClasses
  /-- The names of the interfaces that it declares itself. -/
  interfaces : ∀ n, n ∈ c.directInterfaces.map (·.name) ↔ n ∈ c'.directInterfaces.map (·.name)
  /-- The keys of its references and of its inherited members. -/
  references : ∀ f ∈ [nested, permitted, inherited], ∀ k, k ∈ (f c).map key ↔ k ∈ (f c').map key
  /-- Its constructors, methods and fields. -/
  members : ∀ s ∈ Kind.own, ((c.declared s).map (Member.api settings)).Perm
    ((c'.declared s).map (Member.api settings))

variable {participants participants' : List Snapshot} {first first' : ClassDef}
  {rest rest' : List ClassDef}

theorem SameApi.refl (settings : MergeSettings) (c : ClassDef) : SameApi settings c c where
  modifiers := rfl
  annots := rfl
  typeParams := rfl
  hiddenFields := rfl
  hiddenClasses := rfl
  interfaces _ := Iff.rfl
  references _ _ _ := Iff.rfl
  members _ _ := .refl _

/-! ### The superclass -/

/-- The participant knows all the names, and one of them extends all others. -/
def Decides (participant : Snapshot) (names : List Text) : Prop :=
  (∀ a ∈ names, participant.contains a = true) ∧
    ∃ a ∈ names, ∀ b ∈ names, b = a ∨ (Hierarchy.ofSnapshot participant).isSubclass a b = true

/-- The names of the superclasses. -/
def superclassNames (defs : List ClassDef) : List Text :=
  (defs.filterMap (·.superclass)).map (·.name)

theorem isSome_mostDerivedIn?_iff {candidates : List Member} {participant : Snapshot} :
    (mostDerivedIn? candidates participant).isSome = true ↔
      Decides participant (candidates.map (·.name)) := by
  unfold mostDerivedIn? Decides
  split
  next h =>
    have hall : ∀ a ∈ candidates.map (·.name), participant.contains a = true := by
      simpa using h
    rw [and_iff_right hall]
    simp [List.find?_isSome]
  next h =>
    refine iff_of_false (by simp) fun hall => h ?_
    simpa using hall.1

theorem decides_congr {participant : Snapshot} {names names' : List Text}
    (h : ∀ a, a ∈ names ↔ a ∈ names') : Decides participant names ↔ Decides participant names' := by
  simp only [Decides, h]

/-- Definitions share a superclass if they name at most one, or if a participant can tell which of
them extends all others. -/
theorem exists_resolveSuperclass_iff (name : Text) {defs : List ClassDef} :
    (∃ superclass, resolveSuperclass participants name defs = .ok superclass) ↔
      (∀ a ∈ superclassNames defs, ∀ b ∈ superclassNames defs, a = b) ∨
        ∃ p ∈ participants, Decides p (superclassNames defs) := by
  have hmem : ∀ a, a ∈ superclassNames defs ↔ a ∈ (superclasses defs).map (·.name) :=
    fun a => mem_map_distinctBy_iff.symm
  have hnodup : ((superclasses defs).map (·.name)).Nodup := nodup_map_distinctBy _ _
  have hdecides : ∀ p : Snapshot, Decides p (superclassNames defs) ↔
      Decides p ((superclasses defs).map (·.name)) := fun p => decides_congr hmem
  simp only [hmem, hdecides, resolveSuperclass]
  generalize superclasses defs = candidates at hnodup ⊢
  rcases candidates with _ | ⟨only, _ | ⟨second, others⟩⟩
  · simp
  · simp
  · have hdiffer : ¬ ∀ a ∈ (only :: second :: others).map (·.name),
        ∀ b ∈ (only :: second :: others).map (·.name), a = b := by
      intro h
      have heq := h only.name (by simp) second.name (by simp)
      rw [List.map_cons, List.nodup_cons] at hnodup
      exact hnodup.1 (by simp [heq])
    have hfind := List.findSome?_isSome_iff (f := mostDerivedIn? (only :: second :: others))
      (l := participants)
    simp only [isSome_mostDerivedIn?_iff] at hfind
    rw [or_iff_right hdiffer, ← hfind]
    rcases hsome : participants.findSome? (mostDerivedIn? (only :: second :: others)) with _ | c <;>
      simp [hsome]

/-! ### What concerns the class itself -/

/-- Participants in another order agree on what concerns the class itself, if those in one order
do. -/
theorem agree_perm (hparticipants : participants.Perm participants')
    (h : (first :: rest).Perm (first' :: rest')) {mods : Modifiers} {superclass : Option Member}
    (hagree : agree participants first rest = .ok (mods, superclass)) :
    ∃ superclass', agree participants' first' rest' = .ok (mods, superclass') := by
  obtain ⟨htraits, hmods, hsuper⟩ := agree_eq_ok_iff.1 hagree
  have hnames : (superclassNames (first :: rest)).Perm (superclassNames (first' :: rest')) :=
    (h.filterMap _).map _
  have hresolve := (exists_resolveSuperclass_iff first.name).1 ⟨superclass, hsuper⟩
  simp only [hnames.mem_iff, hparticipants.mem_iff, decides_congr fun a => hnames.mem_iff]
    at hresolve
  obtain ⟨superclass', hsuper'⟩ :=
    (exists_resolveSuperclass_iff first'.name).2 hresolve
  refine ⟨superclass', agree_eq_ok_iff.2 ⟨?_, ?_, hsuper'⟩⟩
  · simpa only [h.mem_iff] using htraits
  · rw [← hmods]
    exact (Modifiers.merge_perm _ (h.map _)).symm

theorem agree_error_perm (hparticipants : participants.Perm participants')
    (h : (first :: rest).Perm (first' :: rest')) {c : Conflict}
    (hagree : agree participants first rest = .error c) :
    ∃ c', agree participants' first' rest' = .error c' := by
  rcases hagree' : agree participants' first' rest' with c' | ⟨mods, superclass⟩
  · exact ⟨c', rfl⟩
  · obtain ⟨_, hok⟩ := agree_perm hparticipants.symm h.symm hagree'
    rw [hagree] at hok
    cases hok

/-! ### The merged class -/

variable {settings : MergeSettings} {policy : UnboundPolicy} {c c' : ClassDef}

theorem signature_of_key_eq {m m' : Member} (h : m.key = m'.key) : m.signature = m'.signature := by
  obtain ⟨hkind, -, hname, hargs⟩ := MemberKey.mk.inj h
  rw [signature, signature, hkind, hname, hargs]

theorem signatures_fullErasure (policy : UnboundPolicy) (c : ClassDef) :
    (c.fullErasure policy).value.signatures =
      c.ownMembers.map fun m => (m.kind, (m.erased policy (c.params policy)).signature) := by
  simp only [signatures, ownMembers, fullErasure, dropTypeParams, mapDeclared, List.map_append,
    List.map_map]
  rfl

/-- Classes that are the same but for the order have the same erased signatures. -/
theorem signatures_perm (policy : UnboundPolicy) (h : SameSources settings [c] [c'])
    (hname : c.name = c'.name) :
    ((c.fullErasure policy).value.signatures).Perm (c'.fullErasure policy).value.signatures := by
  rw [signatures_fullErasure, signatures_fullErasure, ← params_of_singletons h hname]
  refine perm_map_of_perm_map (ownMembers_of_singletons h) fun m _ m' _ hmm' => ?_
  rw [kind_of_api_eq hmm', signature_of_key_eq (key_of_api_eq (api_erased _ _ hmm'))]

theorem collisions_eq_nil_iff : conflicts (reportCollisions policy c).log = [] ↔
    (c.fullErasure policy).value.signatures.Nodup := by
  rw [conflicts_reportCollisions, List.map_eq_nil_iff, repeats_eq_nil_iff]
  simp

/-- Other modifiers of the class and other supertypes leave classes the same. -/
theorem SameSources.withHeader (h : SameSources settings [c] [c']) (mods : Modifiers)
    (superclass superclass' : Option Member) (interfaces interfaces' : List Member) :
    SameSources settings
      [{ c with header := c.header.withModifiers mods, superclass, interfaces }]
      [{ c' with
          header := c'.header.withModifiers mods, superclass := superclass'
          interfaces := interfaces' }] := by
  have htypeParams := typeParams_of_singletons h
  have hannots := annots_of_singletons h
  refine .singletons ?typeParams ?annots (fun s hs => ?members) (fun s hs => ?valid)
    (fun f hf k => ?references) (fun f hf => ?hidden)
  case typeParams =>
    simp only [withModifiers_eq]
    exact htypeParams
  case annots =>
    simp only [withModifiers_eq]
    exact hannots
  case members =>
    have hmembers := members_of_singletons h hs
    rcases Kind.mem_own_iff.1 hs with rfl | rfl | rfl <;> exact hmembers
  case valid =>
    have hvalid := valid_of_singletons h hs
    rcases Kind.mem_own_iff.1 hs with rfl | rfl | rfl <;> exact hvalid
  case references =>
    have hkeys := references_of_singletons h f hf k
    simp only [List.mem_cons, List.not_mem_nil, or_false] at hf
    rcases hf with rfl | rfl | rfl <;> exact hkeys
  case hidden =>
    have hnames := hidden_of_singletons h f hf
    simp only [List.mem_cons, List.not_mem_nil, or_false] at hf
    rcases hf with rfl | rfl <;> exact hnames

theorem declared_subset_ownMembers (c : ClassDef) {s : Kind} (hs : s ∈ Kind.own) :
    c.declared s ⊆ c.ownMembers := by
  intro m hm
  rw [ownMembers, List.mem_append, List.mem_append]
  rcases Kind.mem_own_iff.1 hs with rfl | rfl | rfl
  · exact .inl (.inl hm)
  · exact .inl (.inr hm)
  · exact .inr hm

/-- The members of a class that is prepared for a merge have their modifiers in order, if those of
the class have. -/
theorem valid_dropUntracked (hvalid : ∀ m ∈ c.ownMembers, m.Valid) {s : Kind}
    (hs : s ∈ Kind.own) {m : Member} (hm : m ∈ (c.dropUntracked settings).declared s) :
    m.Valid := by
  have hdeclared : ∀ m ∈ c.declared s, m.Valid := fun m hm =>
    hvalid m (declared_subset_ownMembers c hs hm)
  unfold dropUntracked at hm
  split at hm
  next => exact hdeclared m hm
  next =>
    rcases Kind.mem_own_iff.1 hs with rfl | rfl | rfl
    · exact hdeclared m hm
    · exact hdeclared m hm
    · obtain ⟨f, hf, rfl⟩ := List.mem_map.1 hm
      have hfield : f.Valid := hdeclared f hf
      split
      next => exact hfield
      next => exact hfield

end ClassDef

section Permuted

open ClassDef

variable {settings : Settings} {participants participants' : List Snapshot}
  {first first' : ClassDef} {rest rest' : List ClassDef} {mods : Modifiers}
  {superclass : Option Member}

/-- The bodies of definitions in another order that are prepared for a merge are the same. -/
theorem ClassDef.sameSources_prepared (settings : Settings)
    (h : (first :: rest).Perm (first' :: rest')) {name : Text}
    (hvalid : ∀ c ∈ first :: rest, ∀ m ∈ c.ownMembers, m.Valid)
    (hname : ∀ c ∈ first :: rest, c.name = name) :
    SameSources settings.merge
        [(mergeMixed settings.merge settings.unboundPolicy (first.dropUntracked settings.merge)
          (rest.map (dropUntracked settings.merge))).value]
        [(mergeMixed settings.merge settings.unboundPolicy (first'.dropUntracked settings.merge)
          (rest'.map (dropUntracked settings.merge))).value] ∧
      (conflicts (mergeMixed settings.merge settings.unboundPolicy
          (first.dropUntracked settings.merge) (rest.map (dropUntracked settings.merge))).log = [] ↔
        conflicts (mergeMixed settings.merge settings.unboundPolicy
          (first'.dropUntracked settings.merge)
          (rest'.map (dropUntracked settings.merge))).log = []) := by
  have hvalidPrepared : ∀ s ∈ Kind.own,
      ∀ m ∈ membersOf ((first :: rest).map (dropUntracked settings.merge)) s, m.Valid := by
    intro s hs m hm
    obtain ⟨c, hc, hm⟩ := List.mem_flatMap.1 hm
    obtain ⟨d, hd, rfl⟩ := List.mem_map.1 hc
    exact valid_dropUntracked (hvalid d hd) hs hm
  have hnamePrepared : ∀ c ∈ (first :: rest).map (dropUntracked settings.merge), c.name = name := by
    intro c hc
    obtain ⟨d, hd, rfl⟩ := List.mem_map.1 hc
    rw [name_dropUntracked, hname d hd]
  exact sameSources_mergeMixed (h.map (dropUntracked settings.merge)) hvalidPrepared hnamePrepared

/-- All interfaces of the merged class are direct. -/
theorem ClassDef.filter_direct_unionDirectInterfaces (defs : List ClassDef) :
    (unionDirectInterfaces defs).filter (·.direct) = unionDirectInterfaces defs := by
  refine List.filter_eq_self.2 fun m hm => ?_
  obtain ⟨c, -, hc⟩ := List.mem_flatMap.1 (mem_of_mem_distinctBy hm)
  exact (List.mem_filter.1 hc).2

/-- Definitions in another order have the same direct interfaces together. -/
theorem ClassDef.mem_names_unionDirectInterfaces_perm {defs defs' : List ClassDef}
    (h : defs.Perm defs') (n : Text) :
    n ∈ ((unionDirectInterfaces defs).filter (·.direct)).map (·.name) ↔
      n ∈ ((unionDirectInterfaces defs').filter (·.direct)).map (·.name) := by
  rw [filter_direct_unionDirectInterfaces, filter_direct_unionDirectInterfaces,
    unionDirectInterfaces, unionDirectInterfaces, mem_map_distinctBy_iff, mem_map_distinctBy_iff]
  exact ((h.flatMap_right _).map _).mem_iff

/-- Definitions in another order become classes that are the same, and nothing is reported in one
order exactly if nothing is in the other. -/
theorem ClassDef.mergeDefinitions_perm (hparticipants : participants.Perm participants')
    (h : (first :: rest).Perm (first' :: rest')) {name : Text}
    (hkind : ∀ c ∈ first :: rest, c.header.kind = .header)
    (hvalid : ∀ c ∈ first :: rest, ∀ m ∈ c.header :: c.ownMembers, m.Valid)
    (hname : ∀ c ∈ first :: rest, c.name = name) :
    ((mergeDefinitions settings participants first rest).value = none ↔
        (mergeDefinitions settings participants' first' rest').value = none) ∧
      (conflicts (mergeDefinitions settings participants first rest).log = [] ↔
        conflicts (mergeDefinitions settings participants' first' rest').log = []) ∧
      ∀ merged merged', (mergeDefinitions settings participants first rest).value = some merged →
        (mergeDefinitions settings participants' first' rest').value = some merged' →
        SameApi settings.merge merged merged' := by
  have hheader : ∀ c ∈ first :: rest, c.header.Valid := fun c hc => hvalid c hc _ List.mem_cons_self
  rcases hagree : agree participants first rest with c | ⟨mods, superclass⟩
  case error =>
    obtain ⟨c', hagree'⟩ := agree_error_perm hparticipants h hagree
    simp [mergeDefinitions, hagree, hagree', conflicts]
  case ok =>
    obtain ⟨superclass', hagree'⟩ := agree_perm hparticipants h hagree
    obtain ⟨body, merged, rfl, hmerged, hvalue, hlog⟩ := mergeDefinitions_of_agree settings hagree
    obtain ⟨body', merged', rfl, hmerged', hvalue', hlog'⟩ :=
      mergeDefinitions_of_agree settings hagree'
    obtain ⟨hsame, hbodyLog⟩ := sameSources_prepared settings h
      (fun c hc m hm => hvalid c hc m (List.mem_cons_of_mem _ hm)) hname
    replace hsame := hsame.withHeader mods superclass superclass'
      (unionDirectInterfaces (first :: rest)) (unionDirectInterfaces (first' :: rest'))
    rw [← hmerged, ← hmerged'] at hsame
    have hnames : merged.name = merged'.name :=
      (name_of_mergeDefinitions hname hvalue).trans
        (name_of_mergeDefinitions (fun c hc => hname c (h.symm.subset hc)) hvalue').symm
    have hmods : merged.header.modifiers = merged'.header.modifiers := by
      rw [hmerged, hmerged']
      have hset := setModifiers?_of_agree settings hkind hheader hagree rfl
      have hset' := setModifiers?_of_agree settings (fun c hc => hkind c (h.symm.subset hc))
        (fun c hc => hheader c (h.symm.subset hc)) hagree' rfl
      rw [withModifiers_of_ok hset, withModifiers_of_ok hset']
    have hinterfaces : ∀ n, n ∈ merged.directInterfaces.map (·.name) ↔
        n ∈ merged'.directInterfaces.map (·.name) := by
      rw [hmerged, hmerged']
      exact mem_names_unionDirectInterfaces_perm h
    have hcollisions := (signatures_perm settings.unboundPolicy hsame hnames).nodup_iff
    refine ⟨by simp only [hvalue, hvalue', reduceCtorEq], ?_, ?_⟩
    · simp only [hlog, hlog', conflicts_append, List.append_eq_nil_iff, hbodyLog,
        collisions_eq_nil_iff, hcollisions]
    · intro c c' hc hc'
      obtain rfl := Option.some.inj (hvalue.symm.trans hc)
      obtain rfl := Option.some.inj (hvalue'.symm.trans hc')
      exact {
        modifiers := hmods
        annots := annots_of_singletons hsame
        typeParams := typeParams_of_singletons hsame
        hiddenFields := hidden_of_singletons hsame _ (by simp)
        hiddenClasses := hidden_of_singletons hsame _ (by simp)
        interfaces := hinterfaces
        references := references_of_singletons hsame
        members := fun s hs => members_of_singletons hsame hs }

end Permuted

/-- Participants in another order leave out the same classes, report something exactly if those in
one order do, and have the same to give for every class that they keep. -/
theorem mergeClass_perm {settings : Settings} {participants participants' : List Snapshot}
    {name ownName : Text} (h : participants.Perm participants')
    (hkind : ∀ c ∈ definitions participants name, c.header.kind = .header)
    (hvalid : ∀ c ∈ definitions participants name, ∀ m ∈ c.header :: c.ownMembers, m.Valid)
    (hname : ∀ c ∈ definitions participants name, c.name = ownName) :
    ((mergeClass settings participants name).value = none ↔
        (mergeClass settings participants' name).value = none) ∧
      (conflicts (mergeClass settings participants name).log = [] ↔
        conflicts (mergeClass settings participants' name).log = []) ∧
      ∀ merged merged', (mergeClass settings participants name).value = some merged →
        (mergeClass settings participants' name).value = some merged' →
        ClassDef.SameApi settings.merge merged merged' := by
  have hdefs : (definitions participants name).Perm (definitions participants' name) :=
    h.filterMap _
  rw [mergeClass, mergeClass]
  generalize definitions participants name = defs at hdefs hkind hvalid hname ⊢
  generalize definitions participants' name = defs' at hdefs ⊢
  rcases defs with _ | ⟨first, _ | ⟨second, rest⟩⟩
  · obtain rfl := hdefs.nil_eq
    exact ⟨Iff.rfl, Iff.rfl, fun _ _ hc => by cases hc⟩
  · obtain rfl := List.perm_singleton.1 hdefs.symm
    refine ⟨Iff.rfl, Iff.rfl, fun c c' hc hc' => ?_⟩
    obtain rfl : first = c := Option.some.inj hc
    obtain rfl : first = c' := Option.some.inj hc'
    exact .refl _ _
  · rcases defs' with _ | ⟨first', _ | ⟨second', rest'⟩⟩
    · exact absurd hdefs.length_eq (by simp)
    · exact absurd hdefs.length_eq (by simp)
    · exact ClassDef.mergeDefinitions_perm h hdefs hkind hvalid hname

/-- A class with methods without a type, given by their modifiers, names and arguments. -/
def classWithArguments (own : String) (typeParams : Option String)
    (methods : List (Modifiers × String × String)) : ClassDef where
  header := { kind := .header, name := own.toList, typeParams := typeParams.map (·.toList) }
  methods := methods.map fun m =>
    { kind := .method, modifiers := m.1, declaring := "a.C".toList
      name := m.2.1.toList, typeName := "void".toList, args := m.2.2.toList }

/-- A raw source and a generic one, whose parameter it erases. -/
def rawAndGenericSources : List Snapshot :=
  [.ofClasses [classWithArguments "a.C" none [(.ofList [.pub], "m", "a.B"), (.none, "n", "")]],
    .ofClasses [classWithArguments "a.C" (some "<%0 extends a.B>")
      [(.none, "n", ""), (.none, "m", "{a.C%0}")]]]

/-- Either order lifts the raw method, and its generic form is public in both. -/
theorem raw_and_generic_sources_in_any_order :
    ∃ merged merged',
      (mergeClass {} rawAndGenericSources "a.C".toList).value = some merged ∧
      (mergeClass {} rawAndGenericSources.reverse "a.C".toList).value = some merged' ∧
      conflicts (mergeClass {} rawAndGenericSources.reverse "a.C".toList).log = [] ∧
      ClassDef.SameApi {} merged merged' ∧ merged.methods ≠ merged'.methods := by
  have hmerged : (mergeClass {} rawAndGenericSources "a.C".toList).value =
      some (classWithArguments "a.C" (some "<%0 extends a.B>")
        [(.ofList [.pub], "m", "{a.C%0}"), (.none, "n", "")]) := by decide +kernel
  have hmerged' : (mergeClass {} rawAndGenericSources.reverse "a.C".toList).value =
      some (classWithArguments "a.C" (some "<%0 extends a.B>")
        [(.none, "n", ""), (.ofList [.pub], "m", "{a.C%0}")]) := by decide +kernel
  have hkind : ∀ c ∈ definitions rawAndGenericSources "a.C".toList, c.header.kind = .header := by
    decide +kernel
  have hvalid : ∀ c ∈ definitions rawAndGenericSources "a.C".toList,
      ∀ m ∈ c.header :: c.ownMembers, m.Valid := by decide +kernel
  have hname : ∀ c ∈ definitions rawAndGenericSources "a.C".toList, c.name = "a.C".toList := by
    decide +kernel
  obtain ⟨-, hlog, hsame⟩ := @mergeClass_perm {} _ _ _ _
    (List.reverse_perm rawAndGenericSources).symm hkind hvalid hname
  exact ⟨_, _, hmerged, hmerged', hlog.1 (by decide +kernel), hsame _ _ hmerged hmerged',
    by decide +kernel⟩

/-- A source that gives a field a list of exceptions. -/
def sourceWithThrowingField (throws : String) : Snapshot :=
  .ofClasses [{
    header := { kind := .header, name := "a.C".toList }
    fields := [{
      kind := .field, declaring := "a.C".toList, name := "f".toList, typeName := "int".toList
      throws := throws.toList }] }]

/-- A source that lists a class of some name as `a.C`. The two methods are erased to one where the
class is named `a.C` itself. -/
def sourceWithName (own : String) : Snapshot :=
  (∅ : Snapshot).insert "a.C".toList
    (classWithArguments own (some "<%0 extends a.B>")
      [(.none, "m", "{a.C%0}"), (.none, "m", "a.B")])

/-- The order of the participants decides the exceptions of a field, and whether something is
reported for classes of two names that are listed under one. -/
theorem order_decides_throws_and_conflicts :
    ((mergeClass {} [sourceWithThrowingField "a.E", sourceWithThrowingField "a.F"]
        "a.C".toList).value.map fun c => c.fields.map (·.throws)) = some ["a.E".toList] ∧
      ((mergeClass {} [sourceWithThrowingField "a.F", sourceWithThrowingField "a.E"]
        "a.C".toList).value.map fun c => c.fields.map (·.throws)) = some ["a.F".toList] ∧
      conflicts (mergeClass {} [sourceWithName "a.C", sourceWithName "b.D"] "a.C".toList).log =
        [.erasureCollision "a.C".toList "m(a.B)".toList] ∧
      conflicts (mergeClass {} [sourceWithName "b.D", sourceWithName "a.C"] "a.C".toList).log =
        [] := by
  refine ⟨by decide +kernel, by decide +kernel, by decide +kernel, by decide +kernel⟩

end ApiSurface
