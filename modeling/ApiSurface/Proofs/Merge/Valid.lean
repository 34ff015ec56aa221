import ApiSurface.Proofs.Merge.Kept
import ApiSurface.Proofs.Valid

/-!
# Valid members of merged snapshots

A merge keeps members valid (`kept_valid`), and the modifiers that it computes are never rejected:
in every round the members of a key get the modifiers that theirs were merged to
(`computed_mergeAll`), a class gets those of its definitions (`computed_mergeDefinitions`), and a
reference to a nested class those that it may have (`setModifiers?_innerReference`).
-/

namespace ApiSurface

open Member

/-! ### References -/

theorem Modifiers.isSubset_inter (s mask : Modifiers) : (s.inter mask).isSubset mask = true := by
  rw [isSubset_iff]
  intro i _ h
  rw [inter, BitVec.getLsbD_and, Bool.and_eq_true] at h
  exact h.2

/-- The modifiers of a reference to a nested class are never rejected. -/
theorem setModifiers?_innerReference (outer : Text) (c : ClassDef) :
    ({ kind := .inner, declaring := outer, name := c.simpleName } : Member).setModifiers?
      (c.header.modifiers.inter Kind.inner.allowed) = .ok (Snapshot.innerReference outer c) := by
  unfold Snapshot.innerReference
  dsimp only
  rcases hset : Member.setModifiers? _ _ with e | m
  · rw [setModifiers?, if_pos (Modifiers.isSubset_inter c.header.modifiers _)] at hset
    cases hset
  · rfl

/-! ### Merged members -/

/-- A merge keeps members valid. -/
theorem kept_valid (settings : MergeSettings) : Kept settings Member.Valid where
  adopt _ _ _ hraw _ := hraw
  untracked h := h
  joined hkey h := (modifiers_joined (fun m hm => kind_of_key_eq (hkey m hm)) h).2

theorem valid_innerReference (outer : Text) (c : ClassDef) :
    (Snapshot.innerReference outer c).Valid :=
  valid_of_setModifiers? (setModifiers?_innerReference outer c)

/-- Merged members have the modifiers that were computed for them. -/
structure Member.Computed (settings : MergeSettings) (ms : List Member) : Prop where
  /-- The modifiers on which the members of a key agree are not rejected. -/
  accepted : ∀ first rest mods, ms.filter (·.key = first.key) = first :: rest →
    agree settings first rest = .ok mods →
      first.setModifiers? mods = .ok { first with modifiers := mods }
  /-- A merged member is the only one of its key, or its modifiers are those of all members of the
  key, merged. -/
  merged : ∀ m ∈ (mergeAll settings ms).value, ms.filter (·.key = m.key) = [m] ∨
    ∃ first second rest, ms.filter (·.key = m.key) = first :: second :: rest ∧
      Modifiers.merge first.kind ((first :: second :: rest).map (·.modifiers)) = some m.modifiers

theorem computed_mergeAll (settings : MergeSettings) {ms : List Member}
    (h : ∀ m ∈ ms, m.Valid) : Computed settings ms := by
  have hgroup : ∀ {k first rest}, ms.filter (·.key = k) = first :: rest →
      ∀ m ∈ first :: rest, m.Valid := by
    intro k first rest hf m hm
    rw [← hf] at hm
    exact h m (List.mem_filter.1 hm).1
  constructor
  · intro first rest mods hf hagree
    have hkind := kind_of_filter_eq_cons hf
    obtain ⟨-, -, -, rfl⟩ := (agree_eq_ok_iff hkind).1 hagree
    exact setModifiers?_joined rfl (List.cons_ne_nil first rest)
      (List.forall_mem_cons.2 ⟨rfl, hkind⟩) (hgroup hf)
  · intro m hm
    obtain ⟨first, rest, hf, hmerged⟩ := mem_mergeAll_iff.1 hm
    rcases rest with _ | ⟨second, rest⟩
    · obtain rfl : first = m := Option.some.inj hmerged
      exact .inl hf
    · have hkind := kind_of_filter_eq_cons hf
      obtain ⟨hcompatible, rfl⟩ := (value_mergeGroup_eq_some_iff hkind).1 hmerged
      refine .inr ⟨first, second, rest, hf, ?_⟩
      rw [(modifiers_joined hkind (hgroup hf)).1]
      exact Modifiers.merge_eq_some_iff.2 ⟨by simp, hcompatible.static, rfl⟩

/-! ### Merged classes -/

namespace ClassDef

/-- A merged class and its members have the modifiers that were computed for them. -/
structure Computed (settings : Settings) (participants : List Snapshot) (first : ClassDef)
    (rest : List ClassDef) : Prop where
  /-- The modifiers on which the definitions agree are not rejected. -/
  accepted : ∀ mods superclass body, agree participants first rest = .ok (mods, superclass) →
    body = (mergeMixed settings.merge settings.unboundPolicy (first.dropUntracked settings.merge)
      (rest.map (dropUntracked settings.merge))).value →
    body.header.setModifiers? mods = .ok { body.header with modifiers := mods }
  /-- The modifiers of the merged class are those of the definitions, merged. -/
  merged : ∀ merged, (mergeDefinitions settings participants first rest).value = some merged →
    Modifiers.merge .header ((first :: rest).map (·.header.modifiers)) =
      some merged.header.modifiers
  /-- In every round merged members have the modifiers that were computed for them. -/
  rounds : ∀ round ∈ firstRounds ((first :: rest).map (dropUntracked settings.merge)) ++
      [lastRound settings.merge settings.unboundPolicy
        ((first :: rest).map (dropUntracked settings.merge))],
    ∀ s ∈ Kind.own, Member.Computed settings.merge (membersOf round s)
  /-- The constructors, methods and fields of the merged class are the merged members of the last
  round. -/
  left : ∀ merged, (mergeDefinitions settings participants first rest).value = some merged →
    ∀ s ∈ Kind.own, merged.declared s = (Member.mergeAll settings.merge (membersOf
      (lastRound settings.merge settings.unboundPolicy
        ((first :: rest).map (dropUntracked settings.merge))) s)).value

variable {settings : Settings} {participants : List Snapshot} {first : ClassDef}
  {rest : List ClassDef} {merged : ClassDef}

theorem header_of_mergeDefinitions (h : ∀ c ∈ first :: rest, c.Valid)
    (hmerged : (mergeDefinitions settings participants first rest).value = some merged) :
    merged.header.kind = .header ∧ merged.header.Valid ∧
      Modifiers.merge .header ((first :: rest).map (·.header.modifiers)) =
        some merged.header.modifiers := by
  obtain ⟨mods, superclass, hagree⟩ := exists_agree_of_merged hmerged
  obtain ⟨-, hmods, -⟩ := agree_eq_ok_iff.1 hagree
  obtain ⟨body, merged', hbody, rfl, hvalue, -⟩ := mergeDefinitions_of_agree settings hagree
  obtain rfl := Option.some.inj (hmerged.symm.trans hvalue)
  have hset := setModifiers?_of_agree settings (fun c hc => (h c hc).kind)
    (fun c hc => (h c hc).header) hagree (congrArg Logged.value hbody)
  obtain ⟨c, hc, _, _, hheader⟩ := exists_header_mergeMixed settings.merge settings.unboundPolicy
    (first.dropUntracked settings.merge) (rest.map (dropUntracked settings.merge))
  rw [← List.map_cons] at hc
  obtain ⟨d, hd, rfl⟩ := List.mem_map.1 hc
  have hkind : body.value.header.kind = .header := by
    rw [hbody, hheader, header_dropUntracked]
    exact (h d hd).kind
  have hvalid := valid_of_setModifiers? hset
  rw [withModifiers_of_ok hset]
  exact ⟨hkind, hvalid, hmods⟩

theorem valid_of_mergeDefinitions (h : ∀ c ∈ first :: rest, c.Valid)
    (hmerged : (mergeDefinitions settings participants first rest).value = some merged) :
    merged.Valid := by
  obtain ⟨hkind, hheader, -⟩ := header_of_mergeDefinitions h hmerged
  exact ⟨hkind, hheader, allMembers_of_mergeDefinitions (kept_valid settings.merge)
    (fun c hc => (h c hc).members) hmerged⟩

theorem computed_mergeDefinitions (settings : Settings) (participants : List Snapshot)
    (h : ∀ c ∈ first :: rest, c.Valid) : Computed settings participants first rest where
  accepted mods superclass body hagree hbody := setModifiers?_of_agree settings
    (fun c hc => (h c hc).kind) (fun c hc => (h c hc).header) hagree hbody
  merged merged hmerged := (header_of_mergeDefinitions h hmerged).2.2
  rounds round hround s hs := by
    have hR := preserved_allMembers (kept_valid settings.merge) settings.unboundPolicy
    have hprepared : ∀ c ∈ (first :: rest).map (dropUntracked settings.merge),
        c.AllMembers Member.Valid :=
      List.forall_mem_map.2 fun c hc => hR.untracked (h c hc).members
    exact computed_mergeAll settings.merge
      (forall_mem_membersOf (hR.rounds hprepared round hround) hs)
  left merged hmerged s hs := by
    obtain ⟨body, rfl, hdeclared, -⟩ := of_mergeDefinitions_eq_some hmerged
    rw [hdeclared s hs, declared_mergeMixed hs]
    rfl

end ClassDef

open ClassDef

variable {settings : Settings} {participants : List Snapshot} {name : Text}

theorem valid_of_mergeClass {merged : ClassDef} (h : ∀ c ∈ definitions participants name, c.Valid)
    (hmerged : (mergeClass settings participants name).value = some merged) : merged.Valid :=
  of_mergeClass_eq_some valid_of_mergeDefinitions h hmerged

/-- The classes of a merged snapshot are valid, if those of the participants are. -/
theorem valid_of_merge (h : ∀ p ∈ participants, ∀ c ∈ p.values, c.Valid) :
    ∀ c ∈ (merge settings participants).snapshot.values, c.Valid := by
  intro c hc
  have hmembers := allMembers_of_merge (kept_valid settings.merge) valid_innerReference
    (fun p hp d hd => (h p hp d hd).members) c hc
  obtain ⟨name, hget⟩ := Snapshot.mem_values_iff.1 hc
  obtain ⟨key, merged, refs, hmerged, -, rfl⟩ := Merge.exists_of_get?_merge hget
  obtain ⟨hkind, hheader, -⟩ := valid_of_mergeClass (forall_mem_definitions h) hmerged
  exact ⟨hkind, hheader, hmembers⟩

/-! ### All of them -/

/-- Members come into being valid, and stay valid. -/
structure Member.MadeValid : Prop where
  /-- A member without modifiers is valid. -/
  new : ∀ m : Member, m.modifiers = .none → m.Valid
  /-- A member that a line declares is valid. -/
  parsed : ∀ line m, parseMember line = .ok m → m.Valid
  /-- The classes that a text declares are valid. -/
  parsedClasses : ∀ text s, parseSnapshot text = .ok s → ∀ c ∈ s.values, c.Valid
  /-- A member of a JSON value is valid. -/
  loaded : ∀ j m, Member.ofJson j = .ok m → m.Valid
  /-- The headers and members of a snapshot of a JSON value are valid. -/
  loadedClasses : ∀ j s, Snapshot.ofJson j = .ok s →
    ∀ c ∈ s.values, ∀ m ∈ c.header :: c.members, m.Valid
  /-- However often the modifiers of a valid member are set, it stays valid. -/
  set : ∀ (m : Member) (sets : List Modifiers), m.Valid → (sets.foldl withModifiers m).Valid
  /-- The same in a row that ends with the first modifiers that are rejected. -/
  setAll : ∀ (m m' : Member) (sets : List Modifiers), m.Valid →
    sets.foldlM setModifiers? m = .ok m' → m'.Valid
  /-- Nothing but the modifiers changes. -/
  fixed : ∀ (m : Member) (sets : List Modifiers),
    ∃ mods, sets.foldl withModifiers m = { m with modifiers := mods }
  /-- Modifiers outside the mask of the kind are rejected, and the member stays as it is. -/
  rejected : ∀ (m : Member) (mods : Modifiers), mods.isSubset m.kind.allowed = false →
    (∃ e, m.setModifiers? mods = .error e) ∧ m.withModifiers mods = m

theorem Member.madeValid : MadeValid where
  new _ h := valid_of_modifiers_eq_none h
  parsed _ _ h := valid_of_parseMember h
  parsedClasses _ _ h := valid_of_parseSnapshot h
  loaded _ _ h := valid_of_memberJson h
  loadedClasses _ _ h := valid_of_snapshotJson h
  set _ sets h := valid_foldl_withModifiers h sets
  setAll _ _ sets h hsets := eq_foldl_of_foldlM hsets ▸ valid_foldl_withModifiers h sets
  fixed m sets := foldl_withModifiers_eq m sets
  rejected m mods h := by
    have herror : m.setModifiers? mods =
        .error (.modifierNotAllowed m.kind m.qualifiedName (mods.diff m.kind.allowed)) := by
      rw [setModifiers?, h]
      rfl
    exact ⟨⟨_, herror⟩, withModifiers_of_error herror⟩

/-- A merge of valid classes gives valid classes, with the modifiers that were computed. -/
structure Merge.Valid (settings : Settings) (participants : List Snapshot) : Prop where
  /-- The returned classes are valid, with the references to nested classes that they got. -/
  returned : ∀ c ∈ (merge settings participants).snapshot.values, c.Valid
  /-- A returned class has the header, the constructors, the methods and the fields of the class
  that the definitions of a name became. -/
  merged : ∀ c ∈ (merge settings participants).snapshot.values, ∃ name merged,
    (mergeClass settings participants name).value = some merged ∧ c.header = merged.header ∧
      c.ownMembers = merged.ownMembers
  /-- Where a name has two or more definitions, the class and its members have the modifiers that
  were computed. -/
  computed : ∀ name first second rest, definitions participants name = first :: second :: rest →
    mergeClass settings participants name =
        mergeDefinitions settings participants first (second :: rest) ∧
      ClassDef.Computed settings participants first (second :: rest)
  /-- The modifiers of a reference to a nested class are not rejected. -/
  references : ∀ outer c,
    ({ kind := .inner, declaring := outer, name := c.simpleName } : Member).setModifiers?
      (c.header.modifiers.inter Kind.inner.allowed) = .ok (Snapshot.innerReference outer c)

/-- Modifiers lie within the masks of their kinds everywhere. -/
theorem modifiers_within_masks (settings : Settings) {participants : List Snapshot}
    (h : ∀ p ∈ participants, ∀ c ∈ p.values, c.Valid) :
    Member.MadeValid ∧ Merge.Valid settings participants := by
  refine ⟨madeValid, valid_of_merge h, fun c hc => ?_, fun name first second rest hdefs => ?_,
    setModifiers?_innerReference⟩
  · obtain ⟨name, hget⟩ := Snapshot.mem_values_iff.1 hc
    obtain ⟨key, merged, refs, hmerged, -, rfl⟩ := Merge.exists_of_get?_merge hget
    exact ⟨key, merged, hmerged, rfl, rfl⟩
  · refine ⟨mergeClass_eq_mergeDefinitions hdefs, ?_⟩
    exact computed_mergeDefinitions settings participants (hdefs ▸ forall_mem_definitions h)

/-- A method `m` of a class `a.C`. -/
def methodWithModifiers (mods : List Modifier) : Member where
  kind := .method
  declaring := "a.C".toList
  name := "m".toList
  typeName := "void".toList
  modifiers := .ofList mods

/-- A class `a.C` with a method. -/
def classWithModifiers (ofClass ofMethod : List Modifier) : ClassDef where
  header := { kind := .header, name := "a.C".toList, modifiers := .ofList ofClass }
  methods := [methodWithModifiers ofMethod]

/-- Two sources of which the second one grants more: its class can be extended, and its method is
public. -/
def wideningSources : List Snapshot :=
  [.ofClasses [classWithModifiers [.pub, .final] [.prot, .final]],
    .ofClasses [classWithModifiers [.pub] [.pub]]]

/-- The merged class and its method have what the second source grants, as it was computed. -/
theorem merge_of_wideningSources :
    (∀ p ∈ wideningSources, ∀ c ∈ p.values, c.Valid) ∧
      (∀ c ∈ (merge {} wideningSources).snapshot.values, c.Valid) ∧
      (mergeClass {} wideningSources "a.C".toList).value =
        some (classWithModifiers [.pub] [.pub]) ∧
      Modifiers.merge .header [.ofList [.pub, .final], .ofList [.pub]] = some (.ofList [.pub]) ∧
      Modifiers.merge .method [.ofList [.prot, .final], .ofList [.pub]] =
        some (.ofList [.pub]) := by
  have hvalid : ∀ p ∈ wideningSources, ∀ c ∈ p.values, c.Valid := by decide +kernel
  have hdefs : definitions wideningSources "a.C".toList =
      [classWithModifiers [.pub, .final] [.prot, .final], classWithModifiers [.pub] [.pub]] := by
    decide +kernel
  have hmerged : (mergeClass {} wideningSources "a.C".toList).value =
      some (classWithModifiers [.pub] [.pub]) := by decide +kernel
  obtain ⟨-, hreturned, -, hcomputed, -⟩ := modifiers_within_masks {} hvalid
  obtain ⟨heq, -, hheader, hrounds, hleft⟩ := hcomputed _ _ _ _ hdefs
  rw [heq] at hmerged
  refine ⟨hvalid, hreturned, heq ▸ hmerged, hheader _ hmerged, ?_⟩
  have hlast := hrounds _ (List.mem_append_right _ List.mem_cons_self) .method (by decide)
  have hmethod : methodWithModifiers [.pub] ∈ (classWithModifiers [.pub] [.pub]).declared .method :=
    List.mem_cons_self
  rw [hleft _ hmerged .method (by decide)] at hmethod
  have hgroup : (membersOf (lastRound {} .unresolved
      ([classWithModifiers [.pub, .final] [.prot, .final],
        classWithModifiers [.pub] [.pub]].map (dropUntracked {}))) .method).filter
        (·.key = (methodWithModifiers [.pub]).key) =
      [methodWithModifiers [.prot, .final], methodWithModifiers [.pub]] := by decide +kernel
  rcases hlast.merged _ hmethod with hone | ⟨first, second, rest, htwo, hmods⟩
  · cases hgroup.symm.trans hone
  · cases hgroup.symm.trans htwo
    exact hmods

end ApiSurface
