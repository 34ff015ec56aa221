import ApiSurface.Proofs.Merge.Referenced

/-!
# Dropped classes

The definitions of a class either become one class, or one conflict says that they do not
(`mergeDefinitions_cases`): the merge of bodies always has a result, and has nothing to say about
the class as a whole. So the classes that the conflicts of a merge name as dropped are those that
were not merged, each once (`droppedClasses_merge`). What else is missing in the returned snapshot
was removed as a duplicate of a nested class (`classes_accounted_for`).
-/

namespace ApiSurface

open Finding Member

namespace Conflict

/-- The class that is left out because of the conflict. -/
def droppedClass? : Conflict → Option Text
  | classKind name _ | staticModifier (.ofClass name) | unrelatedSuperclasses name _ => some name
  | _ => none

/-- The classes that are left out because of the conflicts of a log. -/
def droppedClasses (log : List Conflict) : List Text := log.filterMap droppedClass?

@[simp] theorem droppedClasses_append (l₁ l₂ : List Conflict) :
    droppedClasses (l₁ ++ l₂) = droppedClasses l₁ ++ droppedClasses l₂ := List.filterMap_append

theorem droppedClasses_flatMap {α : Type _} (f : α → List Conflict) (l : List α) :
    droppedClasses (l.flatMap f) = l.flatMap fun a => droppedClasses (f a) :=
  List.filterMap_flatMap

/-- A conflict about a member leaves out no class. -/
theorem droppedClass?_of_member? {c : Conflict} (h : c.member? ≠ none) :
    c.droppedClass? = none := by
  cases c with
  | staticModifier subject =>
    cases subject with
    | ofClass => exact absurd rfl h
    | ofMember => rfl
  | classKind | unrelatedSuperclasses => exact absurd rfl h
  | typeMismatch | genericsMismatch | throwsMismatch | constantMismatch => rfl
  | erasureCollision | packageCollision => rfl

theorem droppedClasses_of_onMembers {log : List Conflict} (h : OnMembers log) :
    droppedClasses log = [] := h.filterMap_eq_nil fun _ => droppedClass?_of_member?

end Conflict

open Conflict

namespace ClassDef

variable {settings : Settings} {participants : List Snapshot} {first : ClassDef}
  {rest : List ClassDef}

/-- The conflicts about erased signatures of a class. -/
def collisions (policy : UnboundPolicy) (c : ClassDef) : List Conflict :=
  (repeats [] (c.fullErasure policy).value.signatures).map fun k => .erasureCollision c.name k.2

theorem droppedClasses_collisions (policy : UnboundPolicy) (c : ClassDef) :
    droppedClasses (c.collisions policy) = [] := by
  rw [collisions, droppedClasses, List.filterMap_map]
  exact List.filterMap_eq_nil_iff.2 fun _ _ => rfl

/-! ### Definitions of one class -/

theorem droppedClass?_of_resolveSuperclass_eq_error {name : Text} {defs : List ClassDef}
    {c : Conflict} (h : resolveSuperclass participants name defs = .error c) :
    c.droppedClass? = some name := by
  unfold resolveSuperclass at h
  split at h
  next => cases h
  next => cases h
  next =>
    split at h
    next => cases h
    next =>
      cases h
      rfl

/-- Definitions that do not agree on the class itself drop it. -/
theorem droppedClass?_of_agree_eq_error {c : Conflict}
    (h : agree participants first rest = .error c) : c.droppedClass? = some first.name := by
  unfold agree at h
  split at h
  next =>
    cases h
    rfl
  next =>
    split at h
    next =>
      cases h
      rfl
    next =>
      rcases hsuper : resolveSuperclass participants first.name (first :: rest) with c' | m
      · rw [hsuper] at h
        cases h
        exact droppedClass?_of_resolveSuperclass_eq_error hsuper
      · rw [hsuper] at h
        cases h

/-- The definitions of a class become one class, with conflicts about members and then those about
its erased signatures, or one conflict drops it. -/
theorem mergeDefinitions_cases (settings : Settings) (participants : List Snapshot)
    (first : ClassDef) (rest : List ClassDef) :
    ((mergeDefinitions settings participants first rest).value = none ∧
      ∃ c, conflicts (mergeDefinitions settings participants first rest).log = [c] ∧
        c.droppedClass? = some first.name) ∨
    ∃ merged members, (mergeDefinitions settings participants first rest).value = some merged ∧
      OnMembers members ∧ conflicts (mergeDefinitions settings participants first rest).log =
        members ++ merged.collisions settings.unboundPolicy := by
  rcases hagree : agree participants first rest with c | ⟨mods, superclass⟩
  · have hdefs : mergeDefinitions settings participants first rest = ⟨none, [.conflict c]⟩ := by
      rw [mergeDefinitions, hagree]
    rw [hdefs]
    exact .inl ⟨rfl, c, rfl, droppedClass?_of_agree_eq_error hagree⟩
  · obtain ⟨body, merged, rfl, -, hvalue, hlog⟩ := mergeDefinitions_of_agree settings hagree
    have hmembers := onMembers_mergeMixed settings.merge settings.unboundPolicy
      (first.dropUntracked settings.merge) (rest.map (dropUntracked settings.merge))
    refine .inr ⟨merged, _, hvalue, hmembers, ?_⟩
    rw [hlog, conflicts_append, conflicts_reportCollisions]
    rfl

end ClassDef

section Definitions

variable {settings : Settings} {participants : List Snapshot} {name : Text}

theorem name_of_mem_definitions (hnamed : ∀ p ∈ participants, p.Named) {c : ClassDef}
    (h : c ∈ definitions participants name) : c.name = name := by
  obtain ⟨p, hp, hget⟩ := List.mem_filterMap.1 h
  exact Snapshot.name_of_get? (hnamed p hp) hget

theorem definitions_ne_nil_iff :
    definitions participants name ≠ [] ↔ ∃ p ∈ participants, p.contains name = true := by
  rw [Ne, definitions, List.filterMap_eq_nil_iff]
  push Not
  simp only [SortedMap.contains, Option.isSome_iff_ne_none]

/-- The definitions of a name are all dropped, with one conflict, or become one class. -/
theorem droppedClasses_mergeClass (hnamed : ∀ p ∈ participants, p.Named)
    (hdefs : definitions participants name ≠ []) :
    droppedClasses (conflicts (mergeClass settings participants name).log) =
      if (mergeClass settings participants name).value.isNone then [name] else [] := by
  rcases heq : definitions participants name with _ | ⟨first, _ | ⟨second, rest⟩⟩
  · exact absurd heq hdefs
  · rw [mergeClass, heq]
    rfl
  · have hname : first.name = name := name_of_mem_definitions hnamed (by simp [heq])
    rw [mergeClass_eq_mergeDefinitions heq]
    rcases ClassDef.mergeDefinitions_cases settings participants first (second :: rest) with
      ⟨hvalue, c, hlog, hclass⟩ | ⟨merged, members, hvalue, hmembers, hlog⟩
    · rw [hvalue, hlog, droppedClasses, List.filterMap_cons_some hclass, hname]
      rfl
    · rw [hvalue, hlog, droppedClasses_append, droppedClasses_of_onMembers hmembers,
        ClassDef.droppedClasses_collisions]
      rfl

/-- What is neither about a member nor drops a class is found among the conflicts about the erased
signatures of a class with several definitions, if at all. -/
theorem filterMap_mergeClass {β : Type _} {f : Conflict → Option β}
    (hmember : ∀ c : Conflict, c.member? ≠ none → f c = none)
    (hdropped : ∀ c : Conflict, c.droppedClass? ≠ none → f c = none) (settings : Settings)
    (participants : List Snapshot) (name : Text) :
    (conflicts (mergeClass settings participants name).log).filterMap f =
      if 2 ≤ (definitions participants name).length then
        (mergeClass settings participants name).value.toList.flatMap fun merged =>
          (merged.collisions settings.unboundPolicy).filterMap f
      else [] := by
  rcases hdefs : definitions participants name with _ | ⟨first, _ | ⟨second, rest⟩⟩
  · rw [mergeClass, hdefs]
    rfl
  · rw [mergeClass, hdefs]
    rfl
  · have hseveral : 2 ≤ (first :: second :: rest).length := Nat.le_add_left 2 rest.length
    rw [mergeClass_eq_mergeDefinitions hdefs, if_pos hseveral]
    rcases ClassDef.mergeDefinitions_cases settings participants first (second :: rest) with
      ⟨hvalue, c, hlog, hclass⟩ | ⟨merged, members, hvalue, hmembers, hlog⟩
    · have hnone : f c = none := hdropped c (by rw [hclass]; exact Option.some_ne_none _)
      rw [hvalue, hlog, List.filterMap_cons_none hnone]
      rfl
    · rw [hvalue, hlog, List.filterMap_append, hmembers.filterMap_eq_nil hmember, List.nil_append,
        Option.toList_some, List.flatMap_singleton]

end Definitions

/-! ### Merged snapshots -/

namespace Merge

variable {settings : Settings} {participants : List Snapshot} {name : Text}

theorem mem_classNames_iff :
    name ∈ classNames participants ↔ ∃ p ∈ participants, p.contains name = true := by
  simp only [classNames, SortedSet.mem_toList_iff, SortedSet.mem_ofList_iff, List.mem_flatMap,
    SortedMap.contains_iff_mem_keys]

theorem nodup_classNames (participants : List Snapshot) : (classNames participants).Nodup :=
  SortedSet.nodup_toList _

theorem droppedClasses_packageCollisions (s : Snapshot) :
    droppedClasses (packageCollisions s) = [] := by
  rw [packageCollisions, droppedClasses, List.filterMap_map]
  exact List.filterMap_eq_nil_iff.2 fun _ _ => rfl

/-- The classes that the conflicts of a merge name as dropped are those without a merged class, each
once and in the order of their names. -/
theorem droppedClasses_merge (hnamed : ∀ p ∈ participants, p.Named) :
    droppedClasses (merge settings participants).conflicts =
      (classNames participants).filter fun name =>
        (mergeClass settings participants name).value.isNone := by
  have hone : ∀ name ∈ classNames participants,
      droppedClasses (conflicts (mergeClass settings participants name).log) =
        if (mergeClass settings participants name).value.isNone then [name] else [] :=
    fun name hname => droppedClasses_mergeClass hnamed
      (definitions_ne_nil_iff.2 (mem_classNames_iff.1 hname))
  rw [conflicts_merge, droppedClasses_append, droppedClasses_packageCollisions, List.append_nil,
    droppedClasses_flatMap]
  generalize classNames participants = names at hone
  induction names with
  | nil => rfl
  | cons n names ih =>
    obtain ⟨hfirst, hrest⟩ := List.forall_mem_cons.1 hone
    rw [List.flatMap_cons, hfirst, ih hrest, List.filter_cons]
    split <;> rfl

/-- Before nested classes are reconciled, a name has the class that its definitions became. -/
theorem get?_unreconciled (hnamed : ∀ p ∈ participants, p.Named) (name : Text) :
    (unreconciled settings participants).get? name =
      (mergeClass settings participants name).value := by
  have hkey : ∀ {key c}, (mergeClass settings participants key).value = some c → c.name = key :=
    fun hvalue => name_of_mergeClass (fun _ => name_of_mem_definitions hnamed) hvalue
  have hback : ∀ {c}, (unreconciled settings participants).get? name = some c →
      (mergeClass settings participants name).value = some c := by
    intro c hget
    obtain ⟨key, hvalue⟩ := exists_of_get?_unreconciled hget
    obtain rfl : key = name := (hkey hvalue).symm.trans
      (Snapshot.name_of_get? (named_unreconciled settings participants) hget)
    exact hvalue
  refine Option.ext fun c => ⟨hback, fun hvalue => ?_⟩
  obtain rfl := hkey hvalue
  have hne : definitions participants c.name ≠ [] := by
    intro hnil
    rw [mergeClass, hnil] at hvalue
    cases hvalue
  have hmem : c ∈ (mergedClasses settings participants).value.map (·.2) := by
    rw [value_mergedClasses]
    exact List.mem_map.2 ⟨(c.name, c), List.mem_filterMap.2
      ⟨c.name, mem_classNames_iff.2 (definitions_ne_nil_iff.1 hne), by rw [hvalue]; rfl⟩, rfl⟩
  obtain ⟨d, hd⟩ := Option.ne_none_iff_exists'.1 (Snapshot.get?_ofClasses_ne_none hmem)
  rw [← hvalue, hback hd]
  exact hd

/-- The fate of a merged class when nested classes are reconciled. -/
def fateOf (settings : Settings) (participants : List Snapshot) (c : ClassDef) : Snapshot.Fate :=
  (unreconciled settings participants).fate
    (origins participants ((mergedClasses settings participants).value.map (·.1))) c

/-- A merged class is removed as a duplicate. A class of its simple name is nested in a superclass
of the class around it, and some participant defines both. -/
structure Duplicate (settings : Settings) (participants : List Snapshot) (c : ClassDef) : Prop where
  /-- So it was settled when nested classes were reconciled. -/
  fate : fateOf settings participants c = .duplicate
  /-- There is the class for whose sake it is removed. -/
  twin : ∃ outer twin, c.enclosing? = some outer ∧
    Candidate settings participants outer c.simpleName twin ∧ Common participants c.name twin

theorem duplicate_of_fate {c : ClassDef} (h : fateOf settings participants c = .duplicate) :
    Duplicate settings participants c where
  fate := h
  twin := by
    obtain ⟨outer, houter, ancestor, twin, hlinks, htwin, hshare⟩ :=
      Snapshot.of_fate_eq_duplicate (named_unreconciled settings participants) h
    exact ⟨outer, _, houter, ⟨ancestor, hlinks, rfl, by rw [htwin]; rfl⟩, common_of_share hshare⟩

/-- References from a class to merged classes inside it. -/
def RefersTo (settings : Settings) (participants : List Snapshot) (outer : Text)
    (refs : List Member) : Prop :=
  ∀ r ∈ refs, ∃ d ∈ (unreconciled settings participants).values, d.enclosing? = some outer ∧
    r = Snapshot.innerReference outer d

theorem refersTo_references (settings : Settings) (participants : List Snapshot)
    (origins : Origins) (outer : Text) : RefersTo settings participants outer
      ((unreconciled settings participants).references origins outer) := by
  intro r hr
  obtain ⟨d, hd, rfl⟩ := List.mem_map.1 hr
  obtain ⟨hvalue, hfate⟩ := List.mem_filter.1 hd
  exact ⟨d, hvalue, Snapshot.enclosing_of_fate_eq_unlisted (of_decide_eq_true hfate), rfl⟩

/-- A class that its definitions became is returned with references, unless it is a duplicate. -/
theorem get?_merge (settings : Settings) (hnamed : ∀ p ∈ participants, p.Named) (name : Text) :
    ∃ refs, RefersTo settings participants name refs ∧
      (merge settings participants).snapshot.get? name =
        (mergeClass settings participants name).value.bind fun c =>
          if fateOf settings participants c = .duplicate then none
          else some { c with nested := c.nested ++ refs } := by
  refine ⟨_, refersTo_references settings participants
    (origins participants ((mergedClasses settings participants).value.map (·.1))) name, ?_⟩
  rw [snapshot_merge, Snapshot.get?_registerNested (named_unreconciled settings participants),
    get?_unreconciled hnamed]
  rfl

theorem get?_merge_cases (hnamed : ∀ p ∈ participants, p.Named) {c : ClassDef}
    (hvalue : (mergeClass settings participants name).value = some c) :
    Duplicate settings participants c ∧ (merge settings participants).snapshot.get? name = none ∨
      ∃ refs, RefersTo settings participants name refs ∧
        (merge settings participants).snapshot.get? name =
          some { c with nested := c.nested ++ refs } := by
  obtain ⟨refs, hrefs, hget⟩ := get?_merge settings hnamed name
  rw [hvalue, Option.bind_some] at hget
  by_cases hfate : fateOf settings participants c = .duplicate
  · exact .inl ⟨duplicate_of_fate hfate, hget.trans (if_pos hfate)⟩
  · exact .inr ⟨refs, hrefs, hget.trans (if_neg hfate)⟩

/-- What a merge owes to the classes of its participants. -/
structure ClassesAccounted (settings : Settings) (participants : List Snapshot) : Prop where
  /-- A class that some participant defines is returned, or one conflict drops it, or it is removed
  as a duplicate. -/
  defined : ∀ name, (∃ p ∈ participants, p.contains name = true) →
    ((merge settings participants).snapshot.contains name = true ∧
      (droppedClasses (merge settings participants).conflicts).count name = 0) ∨
    ((merge settings participants).snapshot.contains name = false ∧
      (droppedClasses (merge settings participants).conflicts).count name = 1) ∨
    ((merge settings participants).snapshot.contains name = false ∧
      (droppedClasses (merge settings participants).conflicts).count name = 0 ∧
      ∃ c, (mergeClass settings participants name).value = some c ∧
        Duplicate settings participants c)
  /-- A class that one participant defines is not dropped; it is removed as a duplicate, or it is
  returned with references to classes inside it and else as it is. -/
  alone : ∀ name c, definitions participants name = [c] →
    (droppedClasses (merge settings participants).conflicts).count name = 0 ∧
    (Duplicate settings participants c ∧
        (merge settings participants).snapshot.get? name = none ∨
      ∃ refs, RefersTo settings participants name refs ∧
        (merge settings participants).snapshot.get? name =
          some { c with nested := c.nested ++ refs })
  /-- No other class is returned. -/
  returned : ∀ name, (merge settings participants).snapshot.contains name = true →
    ∃ p ∈ participants, p.contains name = true

theorem count_droppedClasses_merge (hnamed : ∀ p ∈ participants, p.Named) (name : Text) :
    (droppedClasses (merge settings participants).conflicts).count name =
      if (∃ p ∈ participants, p.contains name = true) ∧
        (mergeClass settings participants name).value = none then 1 else 0 := by
  have hmem : name ∈ droppedClasses (merge settings participants).conflicts ↔
      (∃ p ∈ participants, p.contains name = true) ∧
        (mergeClass settings participants name).value = none := by
    rw [droppedClasses_merge hnamed, List.mem_filter, mem_classNames_iff, Option.isNone_iff_eq_none]
  have hnodup : (droppedClasses (merge settings participants).conflicts).Nodup := by
    rw [droppedClasses_merge hnamed]
    exact (nodup_classNames participants).filter _
  rw [hnodup.count]
  simp only [hmem]

/-- No class disappears without notice, where participants list classes under their names. -/
theorem classes_accounted_for (settings : Settings) {participants : List Snapshot}
    (hnamed : ∀ p ∈ participants, p.Named) : ClassesAccounted settings participants where
  defined := by
    intro name hdefined
    rw [count_droppedClasses_merge hnamed]
    rcases hvalue : (mergeClass settings participants name).value with _ | c
    · obtain ⟨refs, -, hget⟩ := get?_merge settings hnamed name
      rw [hvalue, Option.bind_none] at hget
      exact .inr (.inl ⟨by rw [SortedMap.contains, hget]; rfl, if_pos ⟨hdefined, rfl⟩⟩)
    · have hcount : (if (∃ p ∈ participants, p.contains name = true) ∧ some c = none
          then 1 else 0) = 0 := if_neg fun h => Option.some_ne_none c h.2
      rcases get?_merge_cases hnamed hvalue with ⟨hduplicate, hget⟩ | ⟨refs, -, hget⟩
      · exact .inr (.inr ⟨by rw [SortedMap.contains, hget]; rfl, hcount, c, rfl, hduplicate⟩)
      · exact .inl ⟨by rw [SortedMap.contains, hget]; rfl, hcount⟩
  alone := by
    intro name c hdefs
    have hvalue : (mergeClass settings participants name).value = some c := by
      rw [mergeClass, hdefs]
      rfl
    refine ⟨?_, get?_merge_cases hnamed hvalue⟩
    rw [count_droppedClasses_merge hnamed, hvalue]
    exact if_neg fun h => Option.some_ne_none c h.2
  returned := by
    intro name hcontains
    obtain ⟨c, hget⟩ := Option.isSome_iff_exists.1 hcontains
    obtain ⟨merged, -, hvalue, -⟩ := get?_merge_of_named hnamed hget
    refine definitions_ne_nil_iff.1 fun hnil => ?_
    rw [mergeClass, hnil] at hvalue
    cases hvalue

/-- Two sources that name unrelated superclasses of `a.C`. The first has a class and one that
extends it, each with a nested class `I` that it does not list. -/
def sourcesOfUnrelated : List Snapshot :=
  [classesExtending [("a.A", none), ("a.A$I", none), ("a.B", some "a.A"), ("a.B$I", none),
      ("a.C", some "a.A")],
    classesExtending [("a.C", some "a.D")]]

/-- One class is dropped, a nested class is removed as a duplicate, and its twin is returned. -/
theorem one_dropped_one_duplicate :
    (∀ p ∈ sourcesOfUnrelated, p.Named) ∧
      (droppedClasses (merge {} sourcesOfUnrelated).conflicts).count "a.C".toList = 1 ∧
      Duplicate {} sourcesOfUnrelated (ClassDef.ofName "a.B$I".toList) ∧
      (merge {} sourcesOfUnrelated).snapshot.get? "a.A$I".toList =
        some (ClassDef.ofName "a.A$I".toList) := by
  have hnamed : ∀ p ∈ sourcesOfUnrelated, p.Named := by decide +kernel
  obtain ⟨hdefined, halone, -⟩ := classes_accounted_for {} hnamed
  refine ⟨hnamed, ?_, ?_, ?_⟩
  · have hmissing : (merge {} sourcesOfUnrelated).snapshot.contains "a.C".toList = false := by
      decide +kernel
    rcases hdefined "a.C".toList (by decide +kernel) with ⟨hin, -⟩ | ⟨-, hone⟩ | ⟨-, -, c, hc, -⟩
    · rw [hmissing] at hin
      cases hin
    · exact hone
    · have hnone : (mergeClass {} sourcesOfUnrelated "a.C".toList).value = none := by
        decide +kernel
      rw [hnone] at hc
      cases hc
  · have hgone : (merge {} sourcesOfUnrelated).snapshot.get? "a.B$I".toList = none := by
      decide +kernel
    rcases halone "a.B$I".toList (ClassDef.ofName "a.B$I".toList) (by decide +kernel) with
      ⟨-, ⟨hduplicate, -⟩ | ⟨_, -, hget⟩⟩
    · exact hduplicate
    · rw [hgone] at hget
      cases hget
  · rcases halone "a.A$I".toList (ClassDef.ofName "a.A$I".toList) (by decide +kernel) with
      ⟨-, ⟨⟨hfate, -⟩, -⟩ | ⟨refs, hrefs, hget⟩⟩
    · exact absurd hfate (by decide +kernel)
    · obtain rfl : refs = [] := by
        refine List.eq_nil_iff_forall_not_mem.2 fun r hr => ?_
        obtain ⟨d, hd, houter, -⟩ := hrefs r hr
        have hnone : ∀ d ∈ (unreconciled {} sourcesOfUnrelated).values,
            d.enclosing? ≠ some "a.A$I".toList := by decide +kernel
        exact hnone d hd houter
      exact hget

end Merge

end ApiSurface
