import ApiSurface.Proofs.Merge.Body
import ApiSurface.Proofs.Merge.Modifiers

/-!
# Merged classes

Of a class with two or more definitions the constructors, methods and fields are those of the
merged bodies (`declared_mergeClass`), and only the merged bodies report dropped members
(`mem_droppedKeys_mergeClass_iff`). There is a merged class exactly if the headers agree
(`mergeDefinitions_of_agree`, `exists_agree_of_merged`); it has the name of the definitions
(`name_of_mergeClass`).
-/

namespace ApiSurface

open Conflict Finding Member

/-- The definitions of one name as their bodies are merged. -/
def preparedDefinitions (settings : MergeSettings) (participants : List Snapshot) (name : Text) :
    List ClassDef :=
  (definitions participants name).map (·.dropUntracked settings)

namespace ClassDef

variable {settings : Settings} {participants : List Snapshot} {first : ClassDef}
  {rest : List ClassDef} {merged : ClassDef}

/-- No trait is found that tells a definition from the first one exactly if none tells any two
apart. -/
theorem find?_trait_eq_none_iff :
    ([ClassTrait.interface, .abstract].find? fun shared =>
      rest.any fun c => c.header.has shared.modifier ≠ first.header.has shared.modifier) = none ↔
      ∀ shared : ClassTrait, ∀ c ∈ first :: rest, ∀ d ∈ first :: rest,
        c.header.has shared.modifier = d.header.has shared.modifier := by
  rw [List.find?_eq_none]
  simp only [Bool.not_eq_true, List.any_eq_false, decide_eq_true_eq, not_not]
  constructor
  · intro h shared
    have hshared : shared ∈ [ClassTrait.interface, .abstract] := by cases shared <;> simp
    have hfirst : ∀ c ∈ first :: rest,
        c.header.has shared.modifier = first.header.has shared.modifier :=
      List.forall_mem_cons.2 ⟨rfl, h shared hshared⟩
    intro c hc d hd
    rw [hfirst c hc, hfirst d hd]
  · exact fun h shared _ c hc => h shared c (List.mem_cons_of_mem _ hc) first List.mem_cons_self

/-- Definitions agree on the class itself if they are of one kind of class, agree on `static` and
share a superclass. -/
theorem agree_eq_ok_iff {mods : Modifiers} {superclass : Option Member} :
    agree participants first rest = .ok (mods, superclass) ↔
      (∀ shared : ClassTrait, ∀ c ∈ first :: rest, ∀ d ∈ first :: rest,
        c.header.has shared.modifier = d.header.has shared.modifier) ∧
      Modifiers.merge .header ((first :: rest).map (·.header.modifiers)) = some mods ∧
      resolveSuperclass participants first.name (first :: rest) = .ok superclass := by
  rw [← find?_trait_eq_none_iff]
  unfold agree
  split
  next hfind => simp only [hfind, reduceCtorEq, false_and]
  next hfind =>
    rw [and_iff_right hfind]
    split
    next hmods => simp only [hmods, reduceCtorEq, false_and]
    next mods' hmods =>
      rw [hmods, Option.some.injEq]
      rcases resolveSuperclass participants first.name (first :: rest) with c | s <;>
        simp [Except.map]

/-- Definitions that are of one kind of class and agree on `static` may only fail to share a
superclass. -/
theorem agree_of_sameTraits (participants : List Snapshot)
    (htraits : ∀ shared : ClassTrait, ∀ c ∈ first :: rest, ∀ d ∈ first :: rest,
      c.header.has shared.modifier = d.header.has shared.modifier)
    (hstatic : Modifiers.SameStatic ((first :: rest).map (·.header.modifiers))) :
    ∃ mods, agree participants first rest =
      (resolveSuperclass participants first.name (first :: rest)).map (mods, ·) := by
  obtain ⟨mods, hmods⟩ : ∃ mods,
      Modifiers.merge .header ((first :: rest).map (·.header.modifiers)) = some mods :=
    ⟨_, Modifiers.merge_eq_some_iff.2 ⟨by simp, hstatic, rfl⟩⟩
  refine ⟨mods, ?_⟩
  rw [agree, find?_trait_eq_none_iff.2 htraits]
  dsimp only
  rw [hmods]

/-- Definitions that agree on the class itself become the merged body with another header,
superclass and list of interfaces. -/
theorem mergeDefinitions_of_agree (settings : Settings) {mods : Modifiers}
    {superclass : Option Member}
    (h : agree participants first rest = .ok (mods, superclass)) :
    ∃ body merged, body = mergeMixed settings.merge settings.unboundPolicy
        (first.dropUntracked settings.merge) (rest.map (dropUntracked settings.merge)) ∧
      merged = { body.value with
        header := body.value.header.withModifiers mods
        superclass
        interfaces := unionDirectInterfaces (first :: rest) } ∧
      (mergeDefinitions settings participants first rest).value = some merged ∧
      (mergeDefinitions settings participants first rest).log =
        body.log ++ (reportCollisions settings.unboundPolicy merged).log := by
  refine ⟨_, _, rfl, rfl, ?_, ?_⟩
  · simp only [mergeDefinitions, h, Logged.value_bind, Logged.value_pure]
  · simp only [mergeDefinitions, h, Logged.log_bind, Logged.log_pure, List.append_nil]

/-- A class is merged only if its definitions agree on the class itself. -/
theorem exists_agree_of_merged
    (h : (mergeDefinitions settings participants first rest).value = some merged) :
    ∃ mods superclass, agree participants first rest = .ok (mods, superclass) := by
  unfold mergeDefinitions at h
  rcases hagree : agree participants first rest with c | ⟨mods, superclass⟩
  · simp [hagree] at h
  · exact ⟨mods, superclass, rfl⟩

/-- A merged class has the constructors, methods and fields and the name of the merged body, and
only the check of erased signatures has something to add to its log. -/
theorem of_mergeDefinitions_eq_some
    (h : (mergeDefinitions settings participants first rest).value = some merged) :
    ∃ body, body = mergeMixed settings.merge settings.unboundPolicy
        (first.dropUntracked settings.merge) (rest.map (dropUntracked settings.merge)) ∧
      (∀ s ∈ Kind.own, merged.declared s = body.value.declared s) ∧
      merged.name = body.value.name ∧
      (mergeDefinitions settings participants first rest).log =
        body.log ++ (reportCollisions settings.unboundPolicy merged).log := by
  obtain ⟨mods, superclass, hagree⟩ := exists_agree_of_merged h
  obtain ⟨body, merged', rfl, hmerged', hvalue, hlog⟩ :=
    mergeDefinitions_of_agree settings hagree
  obtain rfl := Option.some.inj (h.symm.trans hvalue)
  refine ⟨_, rfl, fun s hs => ?_, ?_, hlog⟩
  · rw [hmerged']
    rcases Kind.mem_own_iff.1 hs with rfl | rfl | rfl <;> rfl
  · rw [hmerged']
    exact congrArg MemberKey.name (key_withModifiers _ mods)

/-- The report on erased signatures has a conflict for each that comes up again. -/
theorem conflicts_reportCollisions (policy : UnboundPolicy) (c : ClassDef) :
    conflicts (reportCollisions policy c).log =
      (repeats [] (c.fullErasure policy).value.signatures).map
        fun k => .erasureCollision c.name k.2 := by
  simp only [reportCollisions, erasureCollisions, Logged.log_bind, Logged.log_mapLog,
    Logged.value_mapLog, Logged.value_map, conflicts_append, conflicts_map_unresolved,
    conflicts_map_conflict, List.nil_append]

theorem droppedKeys_reportCollisions (policy : UnboundPolicy) (c : ClassDef) :
    droppedKeys (conflicts (reportCollisions policy c).log) = [] := by
  rw [conflicts_reportCollisions, droppedKeys, List.filterMap_map]
  exact List.filterMap_eq_nil_iff.2 fun _ _ => rfl

/-! ### Names -/

@[simp] theorem name_dropUntracked (settings : MergeSettings) (c : ClassDef) :
    (c.dropUntracked settings).name = c.name := by
  unfold dropUntracked
  split <;> rfl

theorem header_dropUntracked (settings : MergeSettings) (c : ClassDef) :
    (c.dropUntracked settings).header = c.header := by
  unfold dropUntracked
  split <;> rfl

theorem header_promoteOrKeep (policy : UnboundPolicy) (raw generic : ClassDef) :
    (promoteOrKeep policy raw generic).value.header = raw.header := by
  obtain ⟨_, _, _, heq⟩ := exists_promoteOrKeep_eq policy raw generic
  rw [heq]

theorem header_mergeBody (settings : MergeSettings) (first : ClassDef) (rest : List ClassDef) :
    (mergeBody settings first rest).value.header = { first.header with
      typeParams := (mergeTypeParams first.header (rest.map (·.header))).value
      annots := allAnnots ((first :: rest).map (·.header)) } := rfl

theorem name_mergeBody (settings : MergeSettings) (first : ClassDef) (rest : List ClassDef) :
    (mergeBody settings first rest).value.name = first.name := rfl

/-- The merged body has the header of one of the definitions, apart from its generics declaration
and its annotations. -/
theorem exists_header_mergeMixed (settings : MergeSettings) (policy : UnboundPolicy)
    (first : ClassDef) (rest : List ClassDef) :
    ∃ c ∈ first :: rest, ∃ typeParams annots,
      (mergeMixed settings policy first rest).value.header =
        { c.header with typeParams, annots } := by
  rcases hplan : planOf (first :: rest) with _ | ⟨raw, generic⟩ | ⟨raw, raws, generic, generics⟩
  · simp only [mergeMixed, hplan, value_mergeBodies]
    exact ⟨first, List.mem_cons_self, _, _, rfl⟩
  · have hraw : raw ∈ (first :: rest).filter (!·.isGeneralized) := by
      rw [(filter_of_planOf_eq_lifted hplan).1]
      exact List.mem_cons_self
    simp only [mergeMixed, hplan, Logged.value_bind, value_mergeBodies, header_mergeBody, liftTo]
    by_cases h : first.isGeneralized = true
    · rw [if_pos h]
      exact ⟨first, List.mem_cons_self, _, _, rfl⟩
    · rw [if_neg h, header_promoteOrKeep]
      exact ⟨raw, (List.mem_filter.1 hraw).1, _, _, rfl⟩
  · have hraw : raw ∈ (first :: rest).filter (!·.isGeneralized) := by
      rw [(filter_of_planOf_eq_halves hplan).1]
      exact List.mem_cons_self
    have hheader : (mergeHalves settings policy raw raws generic generics).value.1.header =
        (mergeBody settings raw raws).value.header := by
      rw [fst_mergeHalves]
      split
      next => exact header_promoteOrKeep _ _ _
      next => rfl
    simp only [mergeMixed, hplan, Logged.value_bind, value_mergeBodies, header_mergeBody, hheader]
    exact ⟨raw, (List.mem_filter.1 hraw).1, _, _, rfl⟩

/-- The modifiers on which valid definitions agree are accepted for the merged class, and set as
they are. -/
theorem setModifiers?_of_agree (settings : Settings) {mods : Modifiers}
    {superclass : Option Member} (hkind : ∀ c ∈ first :: rest, c.header.kind = .header)
    (hvalid : ∀ c ∈ first :: rest, c.header.Valid)
    (hagree : agree participants first rest = .ok (mods, superclass)) {body : ClassDef}
    (hbody : body = (mergeMixed settings.merge settings.unboundPolicy
      (first.dropUntracked settings.merge) (rest.map (dropUntracked settings.merge))).value) :
    body.header.setModifiers? mods = .ok { body.header with modifiers := mods } := by
  obtain ⟨-, hmods, -⟩ := agree_eq_ok_iff.1 hagree
  obtain ⟨-, -, rfl⟩ := Modifiers.merge_eq_some_iff.1 hmods
  obtain ⟨c, hc, _, _, hheader⟩ := exists_header_mergeMixed settings.merge settings.unboundPolicy
    (first.dropUntracked settings.merge) (rest.map (dropUntracked settings.merge))
  rw [← List.map_cons] at hc
  obtain ⟨d, hd, rfl⟩ := List.mem_map.1 hc
  have hbodyKind : body.header.kind = .header := by
    rw [hbody, hheader, header_dropUntracked]
    exact hkind d hd
  have hne : (first :: rest).map (·.header) ≠ [] := by simp
  have hset := setModifiers?_joined hbodyKind hne (List.forall_mem_map.2 hkind)
    (List.forall_mem_map.2 hvalid)
  rw [List.map_map] at hset
  exact hset

/-- The class that definitions become is called, and lies in another class, as one of them. -/
theorem exists_key_header_of_mergeDefinitions
    (hmerged : (mergeDefinitions settings participants first rest).value = some merged) :
    ∃ c ∈ first :: rest, merged.header.key = c.header.key := by
  obtain ⟨mods, superclass, hagree⟩ := exists_agree_of_merged hmerged
  obtain ⟨body, merged', rfl, rfl, hvalue, -⟩ := mergeDefinitions_of_agree settings hagree
  obtain rfl := Option.some.inj (hmerged.symm.trans hvalue)
  obtain ⟨c, hc, _, _, hheader⟩ := exists_header_mergeMixed settings.merge settings.unboundPolicy
    (first.dropUntracked settings.merge) (rest.map (dropUntracked settings.merge))
  rw [← List.map_cons] at hc
  obtain ⟨d, hd, rfl⟩ := List.mem_map.1 hc
  refine ⟨d, hd, (key_withModifiers _ mods).trans ?_⟩
  rw [hheader, header_dropUntracked]
  rfl

/-- The class that definitions of one name become has that name. -/
theorem name_of_mergeDefinitions {name : Text} (h : ∀ c ∈ first :: rest, c.name = name)
    (hmerged : (mergeDefinitions settings participants first rest).value = some merged) :
    merged.name = name := by
  obtain ⟨c, hc, hkey⟩ := exists_key_header_of_mergeDefinitions hmerged
  exact (congrArg MemberKey.name hkey).trans (h c hc)

end ClassDef

/-! ### Merged classes -/

variable {settings : Settings} {participants : List Snapshot} {name : Text}
  {first second : ClassDef} {rest : List ClassDef} {merged : ClassDef}

theorem mergeClass_eq_mergeDefinitions
    (hdefs : definitions participants name = first :: second :: rest) :
    mergeClass settings participants name =
      ClassDef.mergeDefinitions settings participants first (second :: rest) := by
  rw [mergeClass, hdefs]
  rfl

theorem preparedDefinitions_eq_cons {settings : MergeSettings}
    (hdefs : definitions participants name = first :: rest) :
    preparedDefinitions settings participants name =
      first.dropUntracked settings :: rest.map (·.dropUntracked settings) := by
  rw [preparedDefinitions, hdefs, List.map_cons]

open ClassDef in
/-- The constructors, methods and fields of a merged class are the merged members of the last
round. -/
theorem declared_mergeClass (hdefs : definitions participants name = first :: second :: rest)
    (hmerged : (mergeClass settings participants name).value = some merged) {s : Kind}
    (hs : s ∈ Kind.own) :
    merged.declared s = (Member.mergeAll settings.merge
      (membersOf (lastRound settings.merge settings.unboundPolicy
        (preparedDefinitions settings.merge participants name)) s)).value := by
  rw [mergeClass_eq_mergeDefinitions hdefs] at hmerged
  obtain ⟨body, rfl, hdeclared, -⟩ := of_mergeDefinitions_eq_some hmerged
  rw [preparedDefinitions_eq_cons hdefs, ← declared_mergeMixed hs]
  exact hdeclared s hs

open ClassDef in
/-- A merged class reports the keys as dropped that clash in some round. -/
theorem mem_droppedKeys_mergeClass_iff
    (hdefs : definitions participants name = first :: second :: rest)
    (hmerged : (mergeClass settings participants name).value = some merged) {k : MemberKey} :
    k ∈ droppedKeys (conflicts (mergeClass settings participants name).log) ↔
      ∃ s ∈ Kind.own, Clashes settings.merge settings.unboundPolicy
        (preparedDefinitions settings.merge participants name) s k := by
  rw [mergeClass_eq_mergeDefinitions hdefs] at hmerged ⊢
  obtain ⟨body, rfl, -, -, hlog⟩ := of_mergeDefinitions_eq_some hmerged
  rw [hlog, conflicts_append, droppedKeys_append, droppedKeys_reportCollisions,
    List.append_nil, preparedDefinitions_eq_cons hdefs]
  exact mem_droppedKeys_mergeMixed_iff _ _

open ClassDef in
/-- A merged class has a property that all definitions of its name have, if the class that one or
more definitions with the property become has it. -/
theorem of_mergeClass_eq_some {R : ClassDef → Prop}
    (hdefinitions : ∀ {first rest merged}, (∀ c ∈ first :: rest, R c) →
      (mergeDefinitions settings participants first rest).value = some merged → R merged)
    (h : ∀ c ∈ definitions participants name, R c)
    (hmerged : (mergeClass settings participants name).value = some merged) : R merged := by
  rcases hdefs : definitions participants name with _ | ⟨first, _ | ⟨second, rest⟩⟩
  · rw [mergeClass, hdefs] at hmerged
    cases hmerged
  · rw [mergeClass, hdefs] at hmerged
    cases hmerged
    exact h merged (hdefs ▸ List.mem_cons_self)
  · rw [mergeClass_eq_mergeDefinitions hdefs] at hmerged
    exact hdefinitions (hdefs ▸ h) hmerged

open ClassDef in
/-- The merged class of a name under which all participants list only classes of that name has the
name. -/
theorem name_of_mergeClass (hnamed : ∀ c ∈ definitions participants name, c.name = name)
    (hmerged : (mergeClass settings participants name).value = some merged) :
    merged.name = name := by
  exact of_mergeClass_eq_some name_of_mergeDefinitions hnamed hmerged

end ApiSurface
