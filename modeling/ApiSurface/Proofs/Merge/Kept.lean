import ApiSurface.Proofs.Merge.Groups
import ApiSurface.Proofs.Merge.Nested

/-!
# What a merge keeps of members

A class is merged in steps: constants are dropped, raw definitions are put in generic terms, bodies
are merged. A property of classes that all these steps keep (`ClassDef.Preserved`) holds in every
round of the merge and of the merged body, if it holds of all definitions. A property of members that
is kept when a constant is dropped, when a member is put in the terms of another one and when members
of one key are joined (`Member.Kept`) is of that kind, as a property of all members
(`preserved_allMembers`). It holds of all members of the returned snapshot, if it holds of references
to nested classes and of all members of the participants (`allMembers_of_merge`).

The last round of a merge makes up the merged body (`exists_lastRound`).
-/

namespace ApiSurface

open Member

/-- A property of members is kept by whatever a merge does to them. -/
structure Member.Kept (settings : MergeSettings) (Q : Member → Prop) : Prop where
  /-- A raw member in the terms of a generic one of its kind and name has it. -/
  adopt : ∀ {raw generic : Member} (erased : Member), generic.kind = raw.kind →
    generic.name = raw.name → Q raw → Q generic → Q (raw.adopt erased generic)
  /-- A member without its constant has it. -/
  untracked : ∀ {m : Member}, Q m → Q { m with constant := none }
  /-- What members of one key become has it. -/
  joined : ∀ {first : Member} {rest : List Member}, (∀ m ∈ rest, m.key = first.key) →
    (∀ m ∈ first :: rest, Q m) → Q (joined settings first rest)

namespace ClassDef

/-- All members of a class have a property. -/
def AllMembers (Q : Member → Prop) (c : ClassDef) : Prop := ∀ m ∈ c.members, Q m

theorem allMembers_iff {Q : Member → Prop} {c : ClassDef} :
    c.AllMembers Q ↔
      (∀ m ∈ c.superclass, Q m) ∧ (∀ m ∈ c.interfaces, Q m) ∧ (∀ m ∈ c.ownMembers, Q m) ∧
      (∀ m ∈ c.nested, Q m) ∧ (∀ m ∈ c.permitted, Q m) ∧ ∀ m ∈ c.inherited, Q m := by
  simp only [AllMembers, members, declaredMembers, List.forall_mem_append, Option.mem_toList,
    Option.mem_def, and_assoc]

variable {Q : Member → Prop} {policy : UnboundPolicy} {settings : MergeSettings} {s : Kind}
  {raw generic first : ClassDef} {rest : List ClassDef}

theorem AllMembers.declared {c : ClassDef} (h : c.AllMembers Q) (hs : s ∈ Kind.own) :
    ∀ m ∈ c.declared s, Q m := fun m hm =>
  (allMembers_iff.1 h).2.2.1 m (mem_ownMembers_iff.2 ⟨s, hs, hm⟩)

/-! ### Steps -/

theorem allMembers_promoteOrKeep
    (hadopt : ∀ {m g : Member} (erased : Member), g.kind = m.kind → g.name = m.name →
      Q m → Q g → Q (m.adopt erased g))
    (hraw : raw.AllMembers Q) (hgeneric : generic.AllMembers Q) :
    (promoteOrKeep policy raw generic).value.AllMembers Q := by
  have hlifted : ∀ m ∈ (promoteOrKeep policy raw generic).value.ownMembers, Q m := by
    intro m hm
    obtain ⟨s, hs, hm⟩ := mem_ownMembers_iff.1 hm
    rw [declared_promoteOrKeep hs] at hm
    obtain ⟨n, hn, rfl⟩ := List.mem_map.1 hm
    have hn' : Q n := hraw.declared hs n hn
    by_cases hprom : Promotes policy raw generic
    · obtain ⟨g, hg, hkey, -, heq⟩ := exists_adopt_of_promoted hs hprom hn
      rw [heq]
      exact hadopt _ (congrArg MemberKey.kind hkey) (congrArg MemberKey.name hkey) hn'
        (hgeneric.declared hs g hg)
    · rwa [liftMember_of_not_promoted hprom]
  obtain ⟨hsuper, hinterfaces, -, hrest⟩ := allMembers_iff.1 hraw
  obtain ⟨_, _, _, heq⟩ := exists_promoteOrKeep_eq policy raw generic
  rw [heq] at hlifted ⊢
  exact allMembers_iff.2 ⟨hsuper, hinterfaces, hlifted, hrest⟩

theorem forall_mem_mergeAll (hQ : Kept settings Q) {ms : List Member} (h : ∀ m ∈ ms, Q m) :
    ∀ r ∈ (Member.mergeAll settings ms).value, Q r := by
  intro r hr
  obtain ⟨first, rest, hf, hmerged⟩ := Member.mem_mergeAll_iff.1 hr
  have hgroup : ∀ m ∈ first :: rest, Q m := by
    intro m hm
    rw [← hf] at hm
    exact h m (List.mem_filter.1 hm).1
  rcases rest with _ | ⟨second, rest⟩
  · obtain rfl : first = r := Option.some.inj hmerged
    exact hgroup first List.mem_cons_self
  · obtain ⟨-, rfl⟩ := (value_mergeGroup_eq_some_iff (kind_of_filter_eq_cons hf)).1 hmerged
    exact hQ.joined (key_of_filter_eq_cons hf) hgroup

theorem forall_mem_membersOf {defs : List ClassDef} (h : ∀ c ∈ defs, c.AllMembers Q)
    (hs : s ∈ Kind.own) : ∀ m ∈ membersOf defs s, Q m := by
  intro m hm
  obtain ⟨c, hc, hmem⟩ := List.mem_flatMap.1 hm
  exact (h c hc).declared hs m hmem

theorem allMembers_mergeBody (hQ : Kept settings Q) (h : ∀ c ∈ first :: rest, c.AllMembers Q) :
    (mergeBody settings first rest).value.AllMembers Q := by
  have hall := fun c hc => allMembers_iff.1 (h c hc)
  obtain ⟨hsuper, hinterfaces, -⟩ := hall first List.mem_cons_self
  have hunion : ∀ f : ClassDef → List Member, (∀ c ∈ first :: rest, ∀ m ∈ f c, Q m) →
      ∀ m ∈ unionByKey ((first :: rest).flatMap f), Q m := by
    intro f hf m hm
    obtain ⟨c, hc, hmem⟩ := List.mem_flatMap.1 (mem_of_mem_distinctBy hm)
    exact hf c hc m hmem
  refine allMembers_iff.2 ⟨hsuper, hinterfaces, fun r hr => ?_, ?_, ?_, ?_⟩
  · obtain ⟨s, hs, hr⟩ := mem_ownMembers_iff.1 hr
    rw [declared_mergeBody hs] at hr
    exact forall_mem_mergeAll hQ (forall_mem_membersOf h hs) r hr
  · exact hunion nested fun c hc => (hall c hc).2.2.2.1
  · exact hunion permitted fun c hc => (hall c hc).2.2.2.2.1
  · exact hunion inherited fun c hc => (hall c hc).2.2.2.2.2

theorem allMembers_dropUntracked (hQ : Kept settings Q) {c : ClassDef} (h : c.AllMembers Q) :
    (c.dropUntracked settings).AllMembers Q := by
  unfold dropUntracked
  split
  next => exact h
  next =>
    obtain ⟨hsuper, hinterfaces, hown, hrest⟩ := allMembers_iff.1 h
    simp only [ownMembers, List.forall_mem_append] at hown
    refine allMembers_iff.2 ⟨hsuper, hinterfaces, ?_, hrest⟩
    simp only [ownMembers, List.forall_mem_append, List.forall_mem_map]
    refine ⟨hown.1, fun m hm => ?_⟩
    split
    next => exact hown.2 m hm
    next => exact hQ.untracked (hown.2 m hm)

/-- A property of classes is kept by every step in which definitions are merged. -/
structure Preserved (settings : MergeSettings) (policy : UnboundPolicy) (R : ClassDef → Prop) :
    Prop where
  /-- A class without untracked constants has it. -/
  untracked : ∀ {c : ClassDef}, R c → R (c.dropUntracked settings)
  /-- A raw class in the terms of a generic one has it. -/
  promoted : ∀ {raw generic : ClassDef}, R raw → R generic →
    R (promoteOrKeep policy raw generic).value
  /-- A merged body has it. -/
  merged : ∀ {first : ClassDef} {rest : List ClassDef}, (∀ c ∈ first :: rest, R c) →
    R (mergeBody settings first rest).value

/-- What is kept of members is preserved as a property of all members of a class. -/
theorem preserved_allMembers (hQ : Kept settings Q) (policy : UnboundPolicy) :
    Preserved settings policy (AllMembers Q) where
  untracked := allMembers_dropUntracked hQ
  promoted := allMembers_promoteOrKeep hQ.adopt
  merged := allMembers_mergeBody hQ

/-! ### Rounds -/

/-- The merged body is that of the last round. -/
theorem exists_lastRound (settings : MergeSettings) (policy : UnboundPolicy) (first : ClassDef)
    (rest : List ClassDef) : ∃ c cs, lastRound settings policy (first :: rest) = c :: cs ∧
      (mergeMixed settings policy first rest).value = (mergeBody settings c cs).value := by
  rcases hplan : planOf (first :: rest) with _ | ⟨raw, generic⟩ | ⟨raw, raws, generic, generics⟩
  · refine ⟨first, rest, ?_, ?_⟩
    · simp only [lastRound, hplan]
    · simp only [mergeMixed, hplan, value_mergeBodies]
  · refine ⟨liftTo (promoteOrKeep policy raw generic).value first,
      rest.map (liftTo (promoteOrKeep policy raw generic).value), ?_, ?_⟩
    · simp only [lastRound, hplan, List.map_cons]
    · simp only [mergeMixed, hplan, Logged.value_bind, value_mergeBodies]
  · refine ⟨(mergeHalves settings policy raw raws generic generics).value.1,
      [(mergeHalves settings policy raw raws generic generics).value.2], ?_, ?_⟩
    · simp only [lastRound, hplan]
    · simp only [mergeMixed, hplan, Logged.value_bind, value_mergeBodies]

/-- In every round the classes have a preserved property that all of them have at the start. -/
theorem Preserved.rounds {R : ClassDef → Prop} (hR : Preserved settings policy R)
    {defs : List ClassDef} (h : ∀ c ∈ defs, R c) :
    ∀ round ∈ firstRounds defs ++ [lastRound settings policy defs], ∀ c ∈ round, R c := by
  unfold firstRounds lastRound
  rcases hplan : planOf defs with _ | ⟨raw, generic⟩ | ⟨raw, raws, generic, generics⟩
  · simpa using h
  · obtain ⟨hraw, hgeneric⟩ := filter_of_planOf_eq_lifted hplan
    have hmem : raw ∈ defs ∧ generic ∈ defs :=
      ⟨(List.mem_filter.1 (hraw ▸ List.mem_cons_self)).1,
        (List.mem_filter.1 (hgeneric ▸ List.mem_cons_self)).1⟩
    have hlifted : R (promoteOrKeep policy raw generic).value :=
      hR.promoted (h raw hmem.1) (h generic hmem.2)
    simp only [List.nil_append, List.forall_mem_singleton, List.forall_mem_map]
    intro c hc
    unfold liftTo
    split
    next => exact h c hc
    next => exact hlifted
  · obtain ⟨hraws, hgenerics⟩ := filter_of_planOf_eq_halves hplan
    have hrawHalf : ∀ c ∈ raw :: raws, R c := fun c hc =>
      h c (List.mem_filter.1 (hraws ▸ hc)).1
    have hgenericHalf : ∀ c ∈ generic :: generics, R c := fun c hc =>
      h c (List.mem_filter.1 (hgenerics ▸ hc)).1
    have hraw := hR.merged hrawHalf
    have hgeneric := hR.merged hgenericHalf
    have hlifted : R (mergeHalves settings policy raw raws generic generics).value.1 := by
      rw [fst_mergeHalves]
      split
      next => exact hR.promoted hraw hgeneric
      next => exact hraw
    have hmerged : R (mergeHalves settings policy raw raws generic generics).value.2 := by
      rw [snd_mergeHalves]
      exact hgeneric
    intro round hround
    simp only [List.cons_append, List.nil_append, List.mem_cons, List.not_mem_nil,
      or_false] at hround
    rcases hround with rfl | rfl | rfl
    · exact hrawHalf
    · exact hgenericHalf
    · exact List.forall_mem_cons.2 ⟨hlifted, List.forall_mem_singleton.2 hmerged⟩

/-- The merged body has a preserved property that all definitions have. -/
theorem Preserved.mergeMixed {R : ClassDef → Prop} (hR : Preserved settings policy R)
    (h : ∀ c ∈ first :: rest, R c) :
    R (mergeMixed settings policy (first.dropUntracked settings)
      (rest.map (dropUntracked settings))).value := by
  have hprepared : ∀ c ∈ first.dropUntracked settings :: rest.map (dropUntracked settings),
      R c := by
    rw [← List.map_cons, List.forall_mem_map]
    exact fun c hc => hR.untracked (h c hc)
  obtain ⟨c, cs, hround, heq⟩ := exists_lastRound settings policy (first.dropUntracked settings)
    (rest.map (dropUntracked settings))
  have hlast := hR.rounds hprepared _ (List.mem_append_right _ List.mem_cons_self)
  rw [hround] at hlast
  rw [heq]
  exact hR.merged hlast

/-! ### Merged classes -/

/-- The superclass that definitions share is the superclass of one of them. -/
theorem mem_superclasses_of_resolve {participants : List Snapshot} {name : Text}
    {defs : List ClassDef} {m : Member}
    (h : resolveSuperclass participants name defs = .ok (some m)) : m ∈ superclasses defs := by
  unfold resolveSuperclass at h
  split at h
  next => cases h
  next only heq =>
    cases h
    rw [heq]
    exact List.mem_cons_self
  next =>
    split at h
    next c hfind =>
      cases h
      obtain ⟨p, -, hsome⟩ := List.exists_of_findSome?_eq_some hfind
      unfold mostDerivedIn? at hsome
      split at hsome
      next => exact List.mem_of_find?_eq_some hsome
      next => cases hsome
    next => cases h

theorem allMembers_of_mergeDefinitions {settings : Settings} (hQ : Kept settings.merge Q)
    {participants : List Snapshot} {merged : ClassDef} (h : ∀ c ∈ first :: rest, c.AllMembers Q)
    (hmerged : (mergeDefinitions settings participants first rest).value = some merged) :
    merged.AllMembers Q := by
  obtain ⟨mods, superclass, hagree⟩ := exists_agree_of_merged hmerged
  obtain ⟨-, -, hresolve⟩ := agree_eq_ok_iff.1 hagree
  obtain ⟨body, merged', rfl, hmerged', hvalue, -⟩ := mergeDefinitions_of_agree settings hagree
  obtain rfl := Option.some.inj (hmerged.symm.trans hvalue)
  have hbody := (preserved_allMembers hQ settings.unboundPolicy).mergeMixed h
  obtain ⟨-, -, hown, hrest⟩ := allMembers_iff.1 hbody
  rw [hmerged']
  refine allMembers_iff.2 ⟨fun m hm => ?_, fun m hm => ?_, hown, hrest⟩
  · obtain rfl : superclass = some m := hm
    obtain ⟨c, hc, hsuper⟩ :=
      List.mem_filterMap.1 (mem_of_mem_distinctBy (mem_superclasses_of_resolve hresolve))
    exact (allMembers_iff.1 (h c hc)).1 m hsuper
  · obtain ⟨c, hc, hdirect⟩ := List.mem_flatMap.1 (mem_of_mem_distinctBy hm)
    exact (allMembers_iff.1 (h c hc)).2.1 m (List.mem_filter.1 hdirect).1

end ClassDef

open ClassDef

variable {Q : Member → Prop} {settings : Settings} {participants : List Snapshot} {name : Text}

theorem allMembers_of_mergeClass (hQ : Kept settings.merge Q) {merged : ClassDef}
    (h : ∀ c ∈ definitions participants name, c.AllMembers Q)
    (hmerged : (mergeClass settings participants name).value = some merged) :
    merged.AllMembers Q :=
  of_mergeClass_eq_some (allMembers_of_mergeDefinitions hQ) h hmerged

theorem forall_mem_definitions {R : ClassDef → Prop} (h : ∀ p ∈ participants, ∀ c ∈ p.values, R c) :
    ∀ c ∈ definitions participants name, R c := by
  intro c hc
  obtain ⟨p, hp, hget⟩ := List.mem_filterMap.1 hc
  exact h p hp c (Snapshot.mem_values_iff.2 ⟨name, hget⟩)

/-- The members of a merged snapshot have a property that references to nested classes and all
members of the participants have. -/
theorem allMembers_of_merge (hQ : Kept settings.merge Q)
    (hreference : ∀ outer c, Q (Snapshot.innerReference outer c))
    (h : ∀ p ∈ participants, ∀ c ∈ p.values, c.AllMembers Q) :
    ∀ c ∈ (merge settings participants).snapshot.values, c.AllMembers Q := by
  intro c hc
  obtain ⟨name, hget⟩ := Snapshot.mem_values_iff.1 hc
  obtain ⟨merged, refs, hmerged, rfl, rfl⟩ := Merge.exists_of_get?_snapshot hget
  obtain ⟨key, hkey⟩ := Merge.exists_of_get?_unreconciled hmerged
  obtain ⟨hsuper, hinterfaces, hown, hnested, hrest⟩ :=
    allMembers_iff.1 (allMembers_of_mergeClass hQ (forall_mem_definitions h) hkey)
  refine allMembers_iff.2 ⟨hsuper, hinterfaces, hown, fun m hm => ?_, hrest⟩
  rcases List.mem_append.1 hm with hm | hm
  · exact hnested m hm
  · obtain ⟨d, -, rfl⟩ := List.mem_map.1 hm
    exact hreference name d

end ApiSurface
