import ApiSurface.Proofs.Merge.Definitions
import ApiSurface.Proofs.Merge.Groups

/-!
# Merges of raw or of generic definitions

Where all definitions of a class are raw, or all are generic, every key of the definitions is
accounted for: it is left in its list, or it is reported as dropped, once and not both. Of a key
that comes up once the member is left as it is; else `Member.Joins` says what the members become.
`accounted_mergeClass` is the result for all constructors, methods and fields of a class.
-/

namespace ApiSurface

open Conflict Finding Member

namespace Member

/-- What becomes of the members `ms` in a merge, key by key. -/
structure Accounted (settings : MergeSettings) (ms merged : List Member) (log : List Conflict) :
    Prop where
  /-- No key is left twice. -/
  nodup : (merged.map key).Nodup
  /-- Keys stay in the order in which they come up first. -/
  order : (merged.map key).Sublist ((distinctBy key ms).map key)
  /-- A key of the members is left, or it is reported once as dropped. -/
  covered : ∀ k ∈ ms.map key,
    k ∈ merged.map key ∧ (droppedKeys log).count k = 0 ∨
      k ∉ merged.map key ∧ (droppedKeys log).count k = 1
  /-- No other key is left or dropped. -/
  none : ∀ k ∉ ms.map key, k ∉ merged.map key ∧ (droppedKeys log).count k = 0
  /-- A member whose key no other has is left as it is. -/
  once : ∀ r ∈ merged, ∀ m, ms.filter (·.key = r.key) = [m] → r = m
  /-- A key that several members have is left if these agree. -/
  several : ∀ r ∈ merged, 2 ≤ (ms.filter (·.key = r.key)).length →
    Joins settings (ms.filter (·.key = r.key)) log r

variable {settings : MergeSettings} {ms : List Member}

/-! ### One list -/

theorem count_droppedKeys_mergeAll (settings : MergeSettings) (ms : List Member) (k : MemberKey) :
    (Clash settings ms k ∧ (droppedKeys (mergeAll settings ms).log).count k = 1) ∨
      (¬ Clash settings ms k ∧ (droppedKeys (mergeAll settings ms).log).count k = 0) := by
  rw [← mem_droppedKeys_mergeAll_iff]
  have hnodup : (droppedKeys (mergeAll settings ms).log).Nodup :=
    (droppedKeys_mergeAll_sublist settings ms).nodup (nodup_map_distinctBy key ms)
  by_cases h : k ∈ droppedKeys (mergeAll settings ms).log
  · exact .inl ⟨h, List.count_eq_one_of_mem hnodup h⟩
  · exact .inr ⟨h, List.count_eq_zero_of_not_mem h⟩

/-- Generics declarations that differ are reported with the key of the members. -/
theorem key_of_genericsMismatch_mem {first : Member} {rest : List Member} {k : MemberKey}
    {p q : Text} (h : .genericsMismatch k p q ∈ (mergeOrKeep settings (first, rest)).log) :
    k = first.key := by
  have hgenerics : .genericsMismatch k p q ∈ (mergeTypeParams first rest).log → k = first.key := by
    intro hmem
    rcases mergeTypeParams_cases first rest with ⟨-, hnil, -⟩ | ⟨-, -, _, _, hreport⟩
    · rw [hnil] at hmem
      cases hmem
    · rw [hreport, List.mem_singleton] at hmem
      cases hmem
      rfl
  have hfatal : ∀ c : Conflict, c.dropped? = some first.key → .genericsMismatch k p q ≠ c := by
    rintro c hc rfl
    cases hc
  rcases rest with _ | ⟨second, rest⟩
  · cases h
  · change _ ∈ (mergeGroup settings first (second :: rest)).log at h
    rw [mergeGroup] at h
    rcases hagree : agree settings first (second :: rest) with c | mods
    · rw [hagree] at h
      exact absurd (List.mem_singleton.1 h) (hfatal c (dropped?_of_agree_eq_error hagree))
    · rcases hthrows : agreeThrows settings first (second :: rest) with c | throws
      · simp only [hagree, hthrows, Logged.log_bind, List.mem_append, List.mem_singleton] at h
        rcases h with h | h
        · exact hgenerics h
        · exact absurd h (hfatal c (dropped?_of_agreeThrows_eq_error hthrows))
      · simp only [hagree, hthrows, Logged.log_bind, Logged.log_pure, List.append_nil] at h
        exact hgenerics h

theorem genericsMismatch_mem_log_mergeAll_iff {first second : Member} {rest : List Member}
    (hf : ms.filter (·.key = first.key) = first :: second :: rest)
    (h : Compatible settings (first :: second :: rest)) (p q : Text) :
    .genericsMismatch first.key p q ∈ (mergeAll settings ms).log ↔
      .genericsMismatch first.key p q ∈ (mergeTypeParams first (second :: rest)).log := by
  rw [← (mergeGroup_of_compatible (kind_of_filter_eq_cons hf) h).2, mem_log_mergeAll_iff]
  constructor
  · rintro ⟨first', rest', hf', hmem⟩
    rw [← key_of_genericsMismatch_mem hmem, hf] at hf'
    cases hf'
    exact hmem
  · exact fun hmem => ⟨first, second :: rest, hf, hmem⟩

/-- In a merge of members every key is accounted for. -/
theorem accounted_mergeAll (settings : MergeSettings) (ms : List Member) :
    Accounted settings ms (mergeAll settings ms).value (mergeAll settings ms).log where
  nodup := nodup_keys_mergeAll settings ms
  order := keys_mergeAll_sublist settings ms
  covered k hk := by
    rw [mem_keys_mergeAll_iff]
    rcases count_droppedKeys_mergeAll settings ms k with
      ⟨hclash, hcount⟩ | ⟨hclash, hcount⟩
    · exact .inr ⟨fun h => h.2 hclash, hcount⟩
    · exact .inl ⟨⟨hk, hclash⟩, hcount⟩
  none k hk := by
    rw [mem_keys_mergeAll_iff]
    refine ⟨fun h => hk h.1, List.count_eq_zero_of_not_mem fun h => hk ?_⟩
    exact mem_keys_of_clash (mem_droppedKeys_mergeAll_iff.1 h)
  once r hr m hm := by
    obtain ⟨first, rest, hf, hvalue⟩ := mem_mergeAll_iff.1 hr
    rw [hm] at hf
    cases hf
    exact (Option.some.inj hvalue).symm
  several r hr htwo := by
    obtain ⟨first, _ | ⟨second, rest⟩, hf, hvalue⟩ := mem_mergeAll_iff.1 hr
    · simp [hf] at htwo
    · have hkind := kind_of_filter_eq_cons hf
      obtain ⟨hcompatible, rfl⟩ := (value_mergeGroup_eq_some_iff hkind).1 hvalue
      rw [key_joined] at hf
      rw [key_joined, hf]
      exact joins_joined hkind hcompatible (genericsMismatch_mem_log_mergeAll_iff hf hcompatible)

end Member

namespace ClassDef

/-! ### The class -/

theorem isGeneralized_dropUntracked (settings : MergeSettings) (c : ClassDef) :
    (c.dropUntracked settings).isGeneralized = c.isGeneralized := by
  unfold dropUntracked
  split
  next => rfl
  next =>
    have hfields : (c.fields.map fun m =>
          if m.has .static then m else { m with constant := none }).any
            (fun m => m.declaring = c.name && m.typeParams.isSome) =
        c.fields.any fun m => m.declaring = c.name && m.typeParams.isSome := by
      rw [List.any_map]
      refine congrArg (List.any c.fields) (funext fun m => ?_)
      simp only [Function.comp_apply]
      split <;> rfl
    simp only [isGeneralized, ownMembers, List.any_append]
    exact congrArg (fun b => c.isGeneric || (_ || b)) hfields

/-- Definitions that are merged at once report on the header first and then on one list after the
other. -/
theorem conflicts_mergeMixed_of_together {settings : MergeSettings} {policy : UnboundPolicy}
    {first : ClassDef} {rest : List ClassDef} (hplan : planOf (first :: rest) = .together) :
    conflicts (mergeMixed settings policy first rest).log =
      (mergeTypeParams first.header (rest.map (·.header))).log ++
        Kind.own.flatMap fun s =>
          (Member.mergeAll settings (membersOf (first :: rest) s)).log := by
  simp [mergeMixed, hplan, mergeBodies, log_mergeBody, Kind.own]

/-- A key that is reported for one list only is reported as often as for that list. -/
theorem count_droppedKeys_own {report : Kind → List Conflict} {s : Kind} (hs : s ∈ Kind.own)
    {k : MemberKey} (h : ∀ t ∈ Kind.own, t ≠ s → (droppedKeys (report t)).count k = 0) :
    (droppedKeys (Kind.own.flatMap report)).count k = (droppedKeys (report s)).count k := by
  have hparts : droppedKeys (Kind.own.flatMap report) = droppedKeys (report .constructor) ++
      (droppedKeys (report .method) ++ droppedKeys (report .field)) := by simp [Kind.own]
  rw [hparts, List.count_append, List.count_append]
  rcases Kind.mem_own_iff.1 hs with rfl | rfl | rfl
  · rw [h .method (by decide) (by decide), h .field (by decide) (by decide)]
    omega
  · rw [h .constructor (by decide) (by decide), h .field (by decide) (by decide)]
    omega
  · rw [h .constructor (by decide) (by decide), h .method (by decide) (by decide)]
    omega

end ClassDef

open ClassDef

/-- A class whose definitions are all generic, or all raw, accounts for every constructor, method
and field of the definitions. The first conflicts of the log are about the header of the class, the
last ones about erased signatures; those between are about one list of members after the other. -/
theorem accounted_mergeClass {settings : Settings} {participants : List Snapshot} {name : Text}
    {first second : ClassDef} {rest : List ClassDef} {merged : ClassDef}
    (hdefs : definitions participants name = first :: second :: rest)
    (hsame : (∀ c ∈ definitions participants name, c.isGeneralized = true) ∨
      ∀ c ∈ definitions participants name, c.isGeneralized = false)
    (hmerged : (mergeClass settings participants name).value = some merged) :
    ∃ (header collisions : List Conflict) (reports : Kind → List Conflict),
      conflicts (mergeClass settings participants name).log =
        header ++ Kind.own.flatMap reports ++ collisions ∧
      droppedKeys header = [] ∧ droppedKeys collisions = [] ∧
      ∀ s ∈ Kind.own, Accounted settings.merge
        (membersOf (preparedDefinitions settings.merge participants name) s) (merged.declared s)
        (reports s) ∧
      ∀ k, (∀ t ∈ Kind.own, t ≠ s → k ∉
          (membersOf (preparedDefinitions settings.merge participants name) t).map key) →
        (droppedKeys (conflicts (mergeClass settings participants name).log)).count k =
          (droppedKeys (reports s)).count k := by
  have hplan : planOf (preparedDefinitions settings.merge participants name) = .together := by
    refine planOf_eq_together ?_
    simpa [preparedDefinitions, isGeneralized_dropUntracked] using hsame
  let report (s : Kind) : List Conflict := (Member.mergeAll settings.merge
    (membersOf (preparedDefinitions settings.merge participants name) s)).log
  have haccounted : ∀ s ∈ Kind.own, Accounted settings.merge
      (membersOf (preparedDefinitions settings.merge participants name) s) (merged.declared s)
      (report s) := by
    intro s hs
    have hlast : lastRound settings.merge settings.unboundPolicy
        (preparedDefinitions settings.merge participants name) =
        preparedDefinitions settings.merge participants name := by rw [lastRound, hplan]
    rw [declared_mergeClass hdefs hmerged hs, hlast]
    exact accounted_mergeAll _ _
  rw [mergeClass_eq_mergeDefinitions hdefs] at hmerged ⊢
  obtain ⟨body, rfl, -, -, hlog⟩ := of_mergeDefinitions_eq_some hmerged
  have hprepared : preparedDefinitions settings.merge participants name = _ :=
    preparedDefinitions_eq_cons hdefs
  have hsplit := congrArg conflicts hlog
  rw [conflicts_append, conflicts_mergeMixed_of_together (hprepared ▸ hplan), ← hprepared] at hsplit
  have hheader := droppedKeys_mergeTypeParams (first.dropUntracked settings.merge).header
    (((second :: rest).map (dropUntracked settings.merge)).map (·.header))
  have hcollisions := droppedKeys_reportCollisions settings.unboundPolicy merged
  refine ⟨_, _, report, hsplit, hheader, hcollisions, fun s hs => ⟨haccounted s hs, ?_⟩⟩
  intro k hother
  have hzero : ∀ t ∈ Kind.own, t ≠ s → (droppedKeys (report t)).count k = 0 :=
    fun t ht hts => ((haccounted t ht).none k (hother t ht hts)).2
  rw [hsplit, droppedKeys_append, droppedKeys_append, hheader, hcollisions, List.nil_append,
    List.append_nil]
  exact count_droppedKeys_own hs hzero

/-- The definition of `a.C` with methods without arguments, given by their names and types. -/
def definitionWithMethods (methods : List (String × String)) : ClassDef where
  header := { kind := .header, name := "a.C".toList }
  methods := methods.map fun m =>
    { kind := .method, declaring := "a.C".toList, name := m.1.toList, typeName := m.2.toList }

/-- Two sources that have one method in common, one on whose type they disagree, and one that only
the first has. -/
def sourcesWithMethods : List Snapshot :=
  [.ofClasses [definitionWithMethods [("shared", "int"), ("m", "int"), ("single", "void")]],
    .ofClasses [definitionWithMethods [("m", "long"), ("shared", "int")]]]

/-- The method on whose type they disagree is left out, and it is reported once. -/
theorem mismatched_method_dropped_once :
    ∃ merged, (mergeClass {} sourcesWithMethods "a.C".toList).value = some merged ∧
      ⟨.method, "a.C".toList, "m".toList, []⟩ ∉ merged.methods.map key ∧
      (droppedKeys (conflicts (mergeClass {} sourcesWithMethods "a.C".toList).log)).count
        ⟨.method, "a.C".toList, "m".toList, []⟩ = 1 := by
  have hdefs : definitions sourcesWithMethods "a.C".toList =
      [definitionWithMethods [("shared", "int"), ("m", "int"), ("single", "void")],
        definitionWithMethods [("m", "long"), ("shared", "int")]] := by decide +kernel
  have hmerged : (mergeClass {} sourcesWithMethods "a.C".toList).value =
      some (definitionWithMethods [("shared", "int"), ("single", "void")]) := by decide +kernel
  have hraw : ∀ c ∈ definitions sourcesWithMethods "a.C".toList, c.isGeneralized = false := by
    rw [hdefs]
    decide
  obtain ⟨_, _, reports, -, -, -, haccounted⟩ :=
    accounted_mergeClass hdefs (.inr hraw) hmerged
  obtain ⟨hmethods, hcount⟩ := haccounted .method (by decide)
  refine ⟨_, hmerged, by decide, ?_⟩
  rw [hcount _ (by decide +kernel)]
  rcases hmethods.covered ⟨.method, "a.C".toList, "m".toList, []⟩ (by decide +kernel) with
    ⟨hkept, -⟩ | ⟨-, honce⟩
  · exact absurd hkept (by decide)
  · exact honce

end ApiSurface
