import ApiSurface.Proofs.Merge.Report

/-!
# Dropped members that come back

A member on which the definitions of a class disagree is reported as dropped, and a merge of one
round leaves it out. Where raw and generic definitions are merged by themselves first, a key that
clashes within one half can come back from the other, whose only member of that key looks like
one that no other source has. `dropped_and_kept_iff` says that this is the only way in which a
dropped member is left in its list.
-/

namespace ApiSurface

open Conflict Finding Member

namespace ClassDef

/-- The members of a key clash within one of the halves, the other half has a member of the key,
and the halves do not clash over it. -/
def Revived (settings : MergeSettings) (policy : UnboundPolicy) (defs : List ClassDef) (s : Kind)
    (k : MemberKey) : Prop :=
  match planOf defs with
  | .together | .lifted _ _ => False
  | .halves raw raws generic generics =>
    let halves := (mergeHalves settings policy raw raws generic generics).value
    (Clash settings (membersOf (raw :: raws) s) k ∧ k ∈ (halves.2.declared s).map key ∨
      Clash settings (membersOf (generic :: generics) s) k ∧ k ∈ (halves.1.declared s).map key) ∧
    ¬ Clash settings (membersOf [halves.1, halves.2] s) k

variable {settings : MergeSettings} {policy : UnboundPolicy} {s : Kind} {k : MemberKey}

/-- The raw half has only keys that no raw definitions clash over, apart from keys of the generic
half. -/
theorem of_mem_keys_fst_mergeHalves (hs : s ∈ Kind.own) {raw : ClassDef} {raws : List ClassDef}
    {generic : ClassDef} {generics : List ClassDef}
    (hk : k ∈ (((mergeHalves settings policy raw raws generic generics).value.1.declared s).map
      key)) :
    ¬ Clash settings (membersOf (raw :: raws) s) k ∨
      k ∈ ((mergeHalves settings policy raw raws generic generics).value.2.declared s).map key := by
  have hkept : ∀ m ∈ (mergeBody settings raw raws).value.declared s,
      ¬ Clash settings (membersOf (raw :: raws) s) m.key := by
    intro m hm
    rw [declared_mergeBody hs] at hm
    exact (mem_keys_mergeAll_iff.1 (List.mem_map_of_mem hm)).2
  rw [fst_mergeHalves] at hk
  rw [snd_mergeHalves]
  split at hk
  next =>
    rw [declared_promoteOrKeep hs, List.map_map] at hk
    obtain ⟨m, hm, rfl⟩ := List.mem_map.1 hk
    by_cases hprom : Promotes policy (mergeBody settings raw raws).value
        (mergeBody settings generic generics).value
    · obtain ⟨g, hg, -, hkey⟩ := exists_generic_of_promoted hs hprom hm
      exact .inr (List.mem_map.2 ⟨g, hg, hkey.symm⟩)
    · refine .inl ?_
      rw [Function.comp_apply, liftMember_of_not_promoted hprom]
      exact hkept m hm
  next =>
    obtain ⟨m, hm, rfl⟩ := List.mem_map.1 hk
    exact .inl (hkept m hm)

/-- A key that clashes in one of the first rounds and is left after the last one is revived. -/
theorem clash_firstRounds_and_kept_iff (hs : s ∈ Kind.own) {defs : List ClassDef} :
    (∃ round ∈ firstRounds defs, Clash settings (membersOf round s) k) ∧
        k ∈ (membersOf (lastRound settings policy defs) s).map key ∧
        ¬ Clash settings (membersOf (lastRound settings policy defs) s) k ↔
      Revived settings policy defs s k := by
  unfold firstRounds lastRound Revived
  rcases planOf defs with _ | ⟨raw, generic⟩ | ⟨raw, raws, generic, generics⟩
  · simp
  · simp
  · simp only [List.mem_cons, List.not_mem_nil, or_false, exists_eq_or_imp, exists_eq_left]
    have hlast : ∀ c d : ClassDef, k ∈ (membersOf [c, d] s).map key ↔
        k ∈ (c.declared s).map key ∨ k ∈ (d.declared s).map key := by
      intro c d
      simp [membersOf]
    rw [hlast, ← and_assoc]
    refine and_congr_left fun _ => ⟨?_, ?_⟩
    · rintro ⟨hclash | hclash, hk | hk⟩
      · exact .inl ⟨hclash, (of_mem_keys_fst_mergeHalves hs hk).resolve_left (· hclash)⟩
      · exact .inl ⟨hclash, hk⟩
      · exact .inr ⟨hclash, hk⟩
      · rw [snd_mergeHalves, declared_mergeBody hs] at hk
        exact absurd hclash (mem_keys_mergeAll_iff.1 hk).2
    · rintro (⟨hclash, hk⟩ | ⟨hclash, hk⟩)
      · exact ⟨.inl hclash, .inr hk⟩
      · exact ⟨.inr hclash, .inl hk⟩

end ClassDef

open ClassDef

/-- The merged class has the keys of the last round that do not clash there. -/
theorem mem_keys_mergeClass_iff {settings : Settings} {participants : List Snapshot} {name : Text}
    {first second : ClassDef} {rest : List ClassDef} {merged : ClassDef}
    (hdefs : definitions participants name = first :: second :: rest)
    (hmerged : (mergeClass settings participants name).value = some merged) {s : Kind}
    (hs : s ∈ Kind.own) {k : MemberKey} : k ∈ (merged.declared s).map key ↔
      k ∈ (membersOf (lastRound settings.merge settings.unboundPolicy
        (preparedDefinitions settings.merge participants name)) s).map key ∧
      ¬ Clash settings.merge (membersOf (lastRound settings.merge settings.unboundPolicy
        (preparedDefinitions settings.merge participants name)) s) k := by
  rw [declared_mergeClass hdefs hmerged hs]
  exact mem_keys_mergeAll_iff

/-- A class with two or more definitions has a member of a key that its merge reports as dropped
exactly if the key was revived, or if it clashes in one list of members and is left in another.
The class in the returned snapshot has the same members. -/
theorem dropped_and_kept_iff {settings : Settings} {participants : List Snapshot} {name : Text}
    {first second : ClassDef} {rest : List ClassDef} {merged : ClassDef}
    (hdefs : definitions participants name = first :: second :: rest)
    (hmerged : (mergeClass settings participants name).value = some merged) (k : MemberKey) :
    ((k ∈ droppedKeys (conflicts (mergeClass settings participants name).log) ∧
        k ∈ merged.ownMembers.map key) ↔
      (∃ s ∈ Kind.own, Revived settings.merge settings.unboundPolicy
        (preparedDefinitions settings.merge participants name) s k) ∨
      ∃ s ∈ Kind.own, ∃ t ∈ Kind.own, s ≠ t ∧
        Clashes settings.merge settings.unboundPolicy
          (preparedDefinitions settings.merge participants name) s k ∧
        k ∈ (merged.declared t).map key) ∧
    ((∀ p ∈ participants, p.Named) → ∀ c,
      (merge settings participants).snapshot.get? name = some c →
        c.ownMembers = merged.ownMembers) := by
  constructor
  · rw [mem_droppedKeys_mergeClass_iff hdefs hmerged]
    constructor
    · rintro ⟨⟨s, hs, hclashes⟩, hk⟩
      obtain ⟨m, hm, hmk⟩ := List.mem_map.1 hk
      obtain ⟨t, ht, hmt⟩ := mem_ownMembers_iff.1 hm
      have hk : k ∈ (merged.declared t).map key := List.mem_map.2 ⟨m, hmt, hmk⟩
      by_cases hst : s = t
      · subst hst
        obtain ⟨round, hround, hclash⟩ := hclashes
        have hkept := (mem_keys_mergeClass_iff hdefs hmerged hs).1 hk
        rcases List.mem_append.1 hround with hround | hround
        · exact .inl ⟨s, hs, (clash_firstRounds_and_kept_iff hs).1
            ⟨⟨round, hround, hclash⟩, hkept⟩⟩
        · rw [List.mem_singleton.1 hround] at hclash
          exact absurd hclash hkept.2
      · exact .inr ⟨s, hs, t, ht, hst, hclashes, hk⟩
    · rintro (⟨s, hs, hrevived⟩ | ⟨s, hs, t, ht, -, hclashes, hk⟩)
      · obtain ⟨⟨round, hround, hclash⟩, hleft⟩ := (clash_firstRounds_and_kept_iff hs).2 hrevived
        refine ⟨⟨s, hs, round, List.mem_append_left _ hround, hclash⟩, ?_⟩
        have hk := (mem_keys_mergeClass_iff hdefs hmerged hs).2 hleft
        obtain ⟨m, hm, rfl⟩ := List.mem_map.1 hk
        exact List.mem_map_of_mem (mem_ownMembers_iff.2 ⟨s, hs, hm⟩)
      · obtain ⟨m, hm, rfl⟩ := List.mem_map.1 hk
        exact ⟨⟨s, hs, hclashes⟩, List.mem_map_of_mem (mem_ownMembers_iff.2 ⟨t, ht, hm⟩)⟩
  · intro hnamed c hget
    obtain ⟨merged', refs, hmerged', rfl⟩ := Merge.get?_merge_of_named hnamed hget
    rw [hmerged, Option.some.injEq] at hmerged'
    subst hmerged'
    rfl

/-! ### A method that comes back -/

/-- A class `a.C` with a method `m`, which has no arguments. -/
def classWithMethod (typeParams : Option Text) (typeName : Text) : ClassDef where
  header := { kind := .header, name := "a.C".toList, typeParams }
  methods := [{ kind := .method, declaring := "a.C".toList, name := "m".toList, typeName }]

/-- Two sources with a raw class, which disagree on the type of its method, and one with a generic
class. -/
def disagreeingSources : List Snapshot :=
  [(none, "int"), (none, "long"), (some "<%0>".toList, "int")].map fun p =>
    .ofClasses [classWithMethod p.1 p.2.toList]

/-- The key of the method. -/
def methodOfSources : MemberKey :=
  { kind := .method, declaring := "a.C".toList, name := "m".toList, args := [] }

/-- The method is reported as dropped, and the class in the returned snapshot has it. -/
theorem dropped_method_in_snapshot :
    methodOfSources ∈
        droppedKeys (conflicts (mergeClass {} disagreeingSources "a.C".toList).log) ∧
      ∃ c, (merge {} disagreeingSources).snapshot.get? "a.C".toList = some c ∧
        methodOfSources ∈ c.ownMembers.map key := by
  refine ⟨by decide +kernel, classWithMethod (some "<%0>".toList) "int".toList, ?_, ?_⟩
  · decide +kernel
  · decide

/-- The method was revived: the raw sources clash over it, and the generic source brings it back. -/
theorem exists_revived_method :
    ∃ s ∈ Kind.own, Revived {} .unresolved
      (preparedDefinitions {} disagreeingSources "a.C".toList) s methodOfSources := by
  have hdefs : definitions disagreeingSources "a.C".toList =
      [classWithMethod none "int".toList, classWithMethod none "long".toList,
        classWithMethod (some "<%0>".toList) "int".toList] := by decide +kernel
  have hmerged : (mergeClass {} disagreeingSources "a.C".toList).value =
      some (classWithMethod (some "<%0>".toList) "int".toList) := by decide +kernel
  obtain ⟨hiff, -⟩ := dropped_and_kept_iff hdefs hmerged methodOfSources
  rcases hiff.1 ⟨by decide +kernel, by decide⟩ with hrevived | ⟨s, hs, t, ht, hst, hclashes, hk⟩
  · exact hrevived
  · have hmethod : ∀ t ∈ Kind.own, methodOfSources ∈ ((classWithMethod (some "<%0>".toList)
        "int".toList).declared t).map key → t = .method := by decide
    have hempty : ∀ s ∈ Kind.own, s ≠ .method → ∀ round ∈
        firstRounds (preparedDefinitions {} disagreeingSources "a.C".toList) ++
          [lastRound {} .unresolved (preparedDefinitions {} disagreeingSources "a.C".toList)],
        membersOf round s = [] := by decide +kernel
    obtain ⟨round, hround, hclash⟩ := hclashes
    have hmem := mem_keys_of_clash hclash
    rw [hempty s hs (fun h => hst (h.trans (hmethod t ht hk).symm)) round hround] at hmem
    cases hmem

end ApiSurface
