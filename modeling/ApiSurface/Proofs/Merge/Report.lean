import ApiSurface.Merge.Report
import ApiSurface.Proofs.Merge.Definitions
import ApiSurface.Proofs.Snapshot

/-!
# Classes of a merged snapshot

A class of the returned snapshot is one that the definitions of a name were merged to, with at
most references to nested classes added (`exists_of_get?_merge`).
-/

namespace ApiSurface

open Finding

namespace Snapshot

/-! ### Nested classes -/

/-- A class has been given references to nested classes. -/
def Referred (s t : Snapshot) : Prop :=
  ∀ name c, t.get? name = some c →
    ∃ d refs, s.get? name = some d ∧ c = { d with nested := d.nested ++ refs }

theorem Referred.refl (s : Snapshot) : Referred s s :=
  fun _ c h => ⟨c, [], h, by rw [List.append_nil]⟩

theorem Referred.trans {s t u : Snapshot} (hst : Referred s t) (htu : Referred t u) :
    Referred s u := by
  intro name c h
  obtain ⟨d, refs, hd, rfl⟩ := htu name c h
  obtain ⟨e, refs', he, rfl⟩ := hst name d hd
  exact ⟨e, refs' ++ refs, he, by simp only [List.append_assoc]⟩

theorem referred_addReference (s : Snapshot) (c : ClassDef) (f : Fate) :
    Referred s (s.addReference c f) := by
  cases f with
  | settled => exact .refl s
  | duplicate => exact .refl s
  | unlisted outer =>
    intro name d h
    rw [addReference, SortedMap.get?_modify] at h
    split at h
    next =>
      obtain ⟨e, he, rfl⟩ := Option.map_eq_some_iff.1 h
      exact ⟨e, _, he, rfl⟩
    next => exact Referred.refl s name d h

theorem referred_foldl_erase (names : List Text) (s : Snapshot) :
    Referred s (names.foldl SortedMap.erase s) := by
  induction names generalizing s with
  | nil => exact .refl s
  | cons n names ih =>
    refine Referred.trans (t := s.erase n) (fun name c h => ?_) (ih _)
    rw [SortedMap.get?_erase] at h
    split at h
    next => cases h
    next => exact Referred.refl s name c h

/-- Reconciling nested classes adds references and removes classes, and does nothing else. -/
theorem referred_registerNested (s : Snapshot) (origins : Origins) :
    Referred s (s.registerNested origins) := by
  have hfold : ∀ (l : List ClassDef) (t : Snapshot),
      Referred t (l.foldl (fun t c => t.addReference c (s.fate origins c)) t) := by
    intro l
    induction l with
    | nil => exact .refl
    | cons c l ih => exact fun t => (referred_addReference t c _).trans (ih _)
  exact (hfold s.values s).trans (referred_foldl_erase _ _)

end Snapshot

namespace Merge

theorem value_mergedClasses (settings : Settings) (participants : List Snapshot) :
    (mergedClasses settings participants).value =
      (classNames participants).filterMap fun name =>
        (mergeClass settings participants name).value.map (name, ·) := by
  simp [mergedClasses, List.filterMap_map]

/-- The merged classes before nested classes are reconciled. -/
def unreconciled (settings : Settings) (participants : List Snapshot) : Snapshot :=
  .ofClasses ((mergedClasses settings participants).value.map (·.2))

theorem named_unreconciled (settings : Settings) (participants : List Snapshot) :
    (unreconciled settings participants).Named := Snapshot.named_ofClasses _

theorem snapshot_merge (settings : Settings) (participants : List Snapshot) :
    (merge settings participants).snapshot =
      (unreconciled settings participants).registerNested (origins participants
        ((mergedClasses settings participants).value.map (·.1))) := rfl

/-- A merge reports what the classes report, in the order of their names, and then the packages that
have the name of a class. -/
theorem conflicts_merge (settings : Settings) (participants : List Snapshot) :
    (merge settings participants).conflicts =
      (classNames participants).flatMap (fun name =>
        conflicts (mergeClass settings participants name).log) ++
        packageCollisions (unreconciled settings participants) := by
  have hlog : (mergedClasses settings participants).log =
      (classNames participants).flatMap fun name =>
        (mergeClass settings participants name).log := by
    simp [mergedClasses]
  rw [← conflicts_flatMap, ← hlog]
  rfl

theorem exists_of_get?_unreconciled {settings : Settings} {participants : List Snapshot}
    {name : Text} {c : ClassDef} (h : (unreconciled settings participants).get? name = some c) :
    ∃ key, (mergeClass settings participants key).value = some c := by
  obtain ⟨hmem, -⟩ := Snapshot.of_get?_ofClasses h
  rw [value_mergedClasses] at hmem
  obtain ⟨⟨key, c⟩, hpair, rfl⟩ := List.mem_map.1 hmem
  obtain ⟨key', -, hvalue⟩ := List.mem_filterMap.1 hpair
  obtain ⟨c', hc', heq⟩ := Option.map_eq_some_iff.1 hvalue
  cases heq
  exact ⟨key, hc'⟩

/-- A class of the merged snapshot is what the definitions of some name were merged to, up to
references to nested classes. -/
theorem exists_of_get?_merge {settings : Settings} {participants : List Snapshot} {name : Text}
    {c : ClassDef} (h : (merge settings participants).snapshot.get? name = some c) :
    ∃ key merged refs, (mergeClass settings participants key).value = some merged ∧
      merged.name = name ∧ c = { merged with nested := merged.nested ++ refs } := by
  obtain ⟨merged, refs, hget, rfl⟩ := Snapshot.referred_registerNested _ _ name c h
  obtain ⟨key, hkey⟩ := exists_of_get?_unreconciled hget
  exact ⟨key, merged, refs, hkey,
    Snapshot.name_of_get? (named_unreconciled settings participants) hget, rfl⟩

/-- If all participants list classes under their own names, the class of the merged snapshot under
a name is what its definitions were merged to, up to references to nested classes. -/
theorem get?_merge_of_named {settings : Settings} {participants : List Snapshot} {name : Text}
    {c : ClassDef} (hnamed : ∀ p ∈ participants, p.Named)
    (h : (merge settings participants).snapshot.get? name = some c) :
    ∃ merged refs, (mergeClass settings participants name).value = some merged ∧
      c = { merged with nested := merged.nested ++ refs } := by
  obtain ⟨key, merged, refs, hmerged, rfl, rfl⟩ := exists_of_get?_merge h
  have hkey : merged.name = key := by
    refine name_of_mergeClass (fun d hd => ?_) hmerged
    obtain ⟨p, hp, hget⟩ := List.mem_filterMap.1 hd
    exact Snapshot.name_of_get? (hnamed p hp) hget
  exact ⟨merged, refs, hkey ▸ hmerged, rfl⟩

/-- Returned classes are listed under their names. -/
theorem named_merge (settings : Settings) (participants : List Snapshot) :
    (merge settings participants).snapshot.Named := by
  intro e he
  obtain ⟨_, merged, refs, -, hname, heq⟩ := exists_of_get?_merge (SortedMap.get?_eq_some_iff.2 he)
  rw [heq]
  exact hname.symm

end Merge

end ApiSurface
