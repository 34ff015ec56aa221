import ApiSurface.Proofs.Merge.Outline
import ApiSurface.Proofs.Merge.Relaxed

/-!
# Merges under relaxed settings

Where a merge has no conflicts, a merge of the same participants under relaxed settings has none
either, and the two snapshots are the same but for the exceptions and constants of constructors,
methods and fields (`relaxed_merge_of_no_conflicts`). The definitions of a class look the same to
the relaxed settings once the constants that these do not track are left out of account
(`ClassDef.seen_dropUntracked`), so they are merged alike; what is done to the snapshot after that
goes by its outline.
-/

namespace ApiSurface

open Conflict Finding Member

/-- Settings that compare less than others, under one policy for erasure. -/
structure Settings.Relaxes (strict relaxed : Settings) : Prop where
  /-- Less of the members is compared. -/
  merge : strict.merge.Relaxes relaxed.merge
  /-- Erasure is the same. -/
  unboundPolicy : relaxed.unboundPolicy = strict.unboundPolicy

namespace ClassDef

section Settings

variable {strict relaxed settings : MergeSettings} {keeps : Kind → Bool → Bool}

/-- The constants that are kept when a class is prepared for a merge. -/
def trackedBy (settings : MergeSettings) : Kind → Bool → Bool :=
  fun s static => s ≠ .field || static || settings.trackNonStaticConstants

theorem trackedBy_of_ne {s : Kind} (hs : s ≠ .field) : trackedBy settings s = fun _ => true := by
  funext static
  simp [trackedBy, hs]

theorem seen_congr {keeps' : Kind → Bool → Bool} (h : ∀ s ∈ Kind.own, keeps s = keeps' s)
    (c : ClassDef) : c.seen settings keeps = c.seen settings keeps' := by
  rw [seen, h .constructor (by decide), h .method (by decide), h .field (by decide), seen]

/-- Where the constants of fields that are not static are dropped, a class looks as it does where
they are left out of account. -/
theorem seen_untracked (hrelaxed : relaxed.trackNonStaticConstants = false)
    (hkeeps : ∀ s ∈ Kind.own, s ≠ .field → keeps s = fun _ => true)
    (hfield : keeps .field true = true) (c : ClassDef) :
    ({ c with
        fields := c.fields.map fun m : Member =>
          if m.has .static then m else { m with constant := none } }).seen settings keeps =
      c.seen settings (trackedBy relaxed) := by
  have hone : ∀ m : Member, (if m.has .static then m else { m with constant := none }).seen
      settings (keeps .field) = m.seen settings (trackedBy relaxed .field) := by
    intro m
    rcases hstatic : m.has .static with _ | _
    · rw [if_neg (by simp)]
      simp [Member.seen, trackedBy, hrelaxed, hstatic]
    · rw [if_pos rfl]
      simp [Member.seen, trackedBy, hstatic, hfield]
  have hothers : ∀ s ∈ Kind.own, s ≠ .field → keeps s = trackedBy relaxed s :=
    fun s hs hne => (hkeeps s hs hne).trans (trackedBy_of_ne hne).symm
  simp only [seen, List.map_map, hothers .constructor (by decide) (by decide),
    hothers .method (by decide) (by decide)]
  exact congrArg (fun fields => { c.seen settings (trackedBy relaxed) with fields })
    (List.map_congr_left fun m _ => hone m)

/-- A class that is prepared for a merge under relaxed settings looks like the one that is prepared
under strict ones. -/
theorem seen_dropUntracked (hrel : strict.Relaxes relaxed) (c : ClassDef) :
    (c.dropUntracked relaxed).seen relaxed keepsAll =
      (c.dropUntracked strict).seen relaxed (trackedBy relaxed) := by
  have hall : ∀ s ∈ Kind.own, s ≠ .field → keepsAll s = fun _ => true := fun _ _ _ => rfl
  have htracked : ∀ s ∈ Kind.own, s ≠ .field → trackedBy relaxed s = fun _ => true :=
    fun _ _ hne => trackedBy_of_ne hne
  rcases hrelaxed : relaxed.trackNonStaticConstants with _ | _
  · rw [dropUntracked, if_neg (by simp [hrelaxed]), seen_untracked hrelaxed hall rfl, dropUntracked]
    split
    next => rfl
    next => exact (seen_untracked hrelaxed htracked rfl c).symm
  · rw [dropUntracked, if_pos hrelaxed, dropUntracked,
      if_pos (hrel.trackNonStaticConstants hrelaxed)]
    refine seen_congr (fun s hs => ?_) c
    funext static
    simp [keepsAll, trackedBy, hrelaxed]

/-- The erased signatures of a class are seen as they are. -/
theorem conflicts_reportCollisions_seen (policy : UnboundPolicy) (keeps : Kind → Bool → Bool)
    (c : ClassDef) :
    conflicts (reportCollisions policy (c.seen settings keeps)).log =
      conflicts (reportCollisions policy c).log := by
  have hmembers : (c.seen settings keeps).ownMembers.map
      (fun m => (m.kind, (m.erased policy (c.params policy)).signature)) =
        c.ownMembers.map fun m => (m.kind, (m.erased policy (c.params policy)).signature) := by
    simp only [ownMembers, seen, List.map_append, List.map_map, Function.comp_def, erased_seen]
    rfl
  rw [conflicts_reportCollisions, conflicts_reportCollisions, signatures_fullErasure,
    signatures_fullErasure, ← hmembers]
  rfl

theorem outline_seen (settings : MergeSettings) (keeps : Kind → Bool → Bool) (c : ClassDef) :
    (c.seen settings keeps).outline = c.outline := by
  simp only [outline, seen, List.map_map]
  rfl

end Settings

variable {strict relaxed : Settings} {participants : List Snapshot} {first : ClassDef}
  {rest : List ClassDef}

/-- Definitions that become a class without conflicts become one of the same outline under relaxed
settings, without conflicts. -/
theorem mergeDefinitions_of_relaxes (hrel : strict.Relaxes relaxed)
    (hlog : conflicts (mergeDefinitions strict participants first rest).log = []) :
    conflicts (mergeDefinitions relaxed participants first rest).log = [] ∧
      (mergeDefinitions relaxed participants first rest).value.map outline =
        (mergeDefinitions strict participants first rest).value.map outline := by
  rcases hagree : agree participants first rest with c | ⟨mods, superclass⟩
  case error => simp [mergeDefinitions, hagree, conflicts] at hlog
  case ok =>
    obtain ⟨body, merged, rfl, hmerged, hvalue, hstrictLog⟩ :=
      mergeDefinitions_of_agree strict hagree
    obtain ⟨body', merged', rfl, hmerged', hvalue', hrelaxedLog⟩ :=
      mergeDefinitions_of_agree relaxed hagree
    -- the headers agree under all settings, so that only the bodies are to be compared
    rw [hrel.unboundPolicy] at hmerged' hrelaxedLog
    rw [hstrictLog, conflicts_append, List.append_eq_nil_iff] at hlog
    have hprepared : ((first :: rest).map (dropUntracked relaxed.merge)).map
        (·.seen relaxed.merge keepsAll) =
          ((first :: rest).map (dropUntracked strict.merge)).map
            (·.seen relaxed.merge (trackedBy relaxed.merge)) := by
      rw [List.map_map, List.map_map]
      exact List.map_congr_left fun c _ => seen_dropUntracked hrel.merge c
    obtain ⟨hbodyLog, hbody⟩ := mergeMixed_of_seen_eq hrel.merge hprepared hlog.1
    have hseen : merged'.seen relaxed.merge keepsAll =
        merged.seen relaxed.merge (trackedBy relaxed.merge) := by
      rw [hmerged, hmerged']
      exact congrArg (fun body : ClassDef => { body with
        header := body.header.withModifiers mods
        superclass
        interfaces := unionDirectInterfaces (first :: rest) }) hbody
    rw [hrelaxedLog, conflicts_append, List.append_eq_nil_iff, hvalue, hvalue']
    refine ⟨⟨hbodyLog, ?_⟩, congrArg some (eq_of_seen_eq (outline_seen _) hseen)⟩
    rw [← hlog.2]
    exact eq_of_seen_eq (f := fun c => conflicts (reportCollisions strict.unboundPolicy c).log)
      (conflicts_reportCollisions_seen _) hseen

end ClassDef

namespace Merge

variable {strict relaxed : Settings} {participants : List Snapshot}

/-- A class that is merged without conflicts has the same outline under relaxed settings, without
conflicts. -/
theorem mergeClass_of_relaxes (hrel : strict.Relaxes relaxed) {name : Text}
    (hlog : conflicts (mergeClass strict participants name).log = []) :
    conflicts (mergeClass relaxed participants name).log = [] ∧
      (mergeClass relaxed participants name).value.map ClassDef.outline =
        (mergeClass strict participants name).value.map ClassDef.outline := by
  rcases hdefs : definitions participants name with _ | ⟨only, _ | ⟨second, rest⟩⟩
  · rw [mergeClass, mergeClass, hdefs]
    exact ⟨rfl, rfl⟩
  · rw [mergeClass, mergeClass, hdefs]
    exact ⟨rfl, rfl⟩
  · rw [mergeClass_eq_mergeDefinitions hdefs] at hlog ⊢
    rw [mergeClass_eq_mergeDefinitions hdefs]
    exact ClassDef.mergeDefinitions_of_relaxes hrel hlog

/-- Where no class has conflicts, the merged classes have the same names and outlines under relaxed
settings. -/
theorem mergedClasses_of_relaxes (hrel : strict.Relaxes relaxed)
    (hlog : ∀ name ∈ classNames participants,
      conflicts (mergeClass strict participants name).log = []) :
    (mergedClasses relaxed participants).value.map (fun e => (e.1, e.2.outline)) =
      (mergedClasses strict participants).value.map fun e => (e.1, e.2.outline) := by
  have hmap : ∀ settings : Settings,
      (mergedClasses settings participants).value.map (fun e => (e.1, e.2.outline)) =
        (classNames participants).filterMap fun name =>
          ((mergeClass settings participants name).value.map ClassDef.outline).map (name, ·) := by
    intro settings
    rw [value_mergedClasses, List.map_filterMap]
    simp only [Option.map_map]
    rfl
  rw [hmap, hmap]
  refine List.filterMap_congr fun name hname => ?_
  rw [(mergeClass_of_relaxes hrel (hlog name hname)).2]

/-- The merged classes have the same outline before nested classes are reconciled. -/
theorem outline_unreconciled_of_relaxes
    (hclasses : (mergedClasses relaxed participants).value.map (fun e => (e.1, e.2.outline)) =
      (mergedClasses strict participants).value.map fun e => (e.1, e.2.outline)) :
    (unreconciled relaxed participants).outline = (unreconciled strict participants).outline := by
  have hmap : ∀ classes : List (Text × ClassDef), (classes.map (·.2)).map ClassDef.outline =
      (classes.map fun e => (e.1, e.2.outline)).map (·.2) := by
    intro classes
    rw [List.map_map, List.map_map]
    rfl
  rw [unreconciled, Snapshot.outline_ofClasses, hmap, hclasses, ← hmap,
    ← Snapshot.outline_ofClasses, unreconciled]

end Merge

open Merge in
/-- A merge without conflicts has none under relaxed settings, and its snapshot is then the same but
for the exceptions and constants of constructors, methods and fields. -/
theorem relaxed_merge_of_no_conflicts {strict relaxed : Settings} (hrel : strict.Relaxes relaxed)
    {participants : List Snapshot} (h : (merge strict participants).conflicts = []) :
    (merge relaxed participants).conflicts = [] ∧
      (merge relaxed participants).snapshot.outline =
        (merge strict participants).snapshot.outline := by
  rw [conflicts_merge, List.append_eq_nil_iff, List.flatMap_eq_nil_iff] at h
  obtain ⟨hlog, hpackages⟩ := h
  have hclasses := mergedClasses_of_relaxes hrel hlog
  have hunreconciled := outline_unreconciled_of_relaxes hclasses
  have hnames : (mergedClasses relaxed participants).value.map (·.1) =
      (mergedClasses strict participants).value.map (·.1) := by
    simpa only [List.map_map, Function.comp_def] using congrArg (List.map (·.1)) hclasses
  constructor
  · rw [conflicts_merge, List.append_eq_nil_iff, List.flatMap_eq_nil_iff]
    refine ⟨fun name hname => (mergeClass_of_relaxes hrel (hlog name hname)).1, ?_⟩
    rw [← packageCollisions_outline, hunreconciled, packageCollisions_outline, hpackages]
  · rw [snapshot_merge, snapshot_merge, Snapshot.outline_registerNested,
      Snapshot.outline_registerNested, hunreconciled, hnames]

/-- A class with a method that throws and a field with a constant. -/
def classWithConstant (typeParams : Option String) (args : String) : ClassDef where
  header := {
    kind := .header, name := "a.C".toList, typeParams := typeParams.map (·.toList) }
  methods := [{
    kind := .method, declaring := "a.C".toList, name := "m".toList, typeName := "void".toList
    args := args.toList, throws := "a.E".toList }]
  fields := [{
    kind := .field, declaring := "a.C".toList, name := "f".toList, typeName := "int".toList
    constant := some "1".toList }]

/-- Two raw sources and a generic one, whose parameter they erase. -/
def sourcesWithConstant : List Snapshot :=
  [.ofClasses [classWithConstant none "a.B"], .ofClasses [classWithConstant none "a.B"],
    .ofClasses [classWithConstant (some "<%0 extends a.B>") "{a.C%0}"]]

/-- Settings that track nothing. -/
def permissive : Settings where
  merge := {
    binaryCompatibility := true, trackConstantValues := false, trackNonStaticConstants := false }

/-- Relaxed settings drop the exceptions of the method and the constant of the field, and merge the
sources else as strict ones do. -/
theorem permissive_merge_of_sourcesWithConstant :
    Settings.Relaxes {} permissive ∧ (merge {} sourcesWithConstant).conflicts = [] ∧
      (merge permissive sourcesWithConstant).conflicts = [] ∧
      (merge permissive sourcesWithConstant).snapshot.outline =
        (merge {} sourcesWithConstant).snapshot.outline ∧
      (merge permissive sourcesWithConstant).snapshot ≠
        (merge {} sourcesWithConstant).snapshot := by
  have hrel : Settings.Relaxes {} permissive :=
    ⟨⟨fun _ => rfl, fun _ => rfl, fun _ => rfl⟩, rfl⟩
  have hstrict : (merge {} sourcesWithConstant).conflicts = [] := by decide +kernel
  obtain ⟨hrelaxed, houtline⟩ := relaxed_merge_of_no_conflicts hrel hstrict
  exact ⟨hrel, hstrict, hrelaxed, houtline, by decide +kernel⟩

end ApiSurface
