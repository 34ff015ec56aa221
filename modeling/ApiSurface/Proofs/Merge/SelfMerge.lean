import ApiSurface.Proofs.Merge.Copies
import ApiSurface.Proofs.Merge.Report

/-!
# Merging a snapshot with itself

Every stage of a merge gives copies of a snapshot back as they are, if the snapshot leaves nothing
to be adjusted: `ClassDef.SelfMergeable` lists what that takes of a class and
`Snapshot.SelfMergeable` what it takes of the snapshot as a whole. `merge_replicate_eq_self` is the
result for any number of copies.
-/

namespace ApiSurface

open Finding

/-- What a class has to satisfy for its copies to be merged to itself. -/
structure ClassDef.SelfMergeable (c : ClassDef) : Prop where
  /-- The modifiers of the class and its members are in order. -/
  valid : ∀ m ∈ c.header :: c.ownMembers, m.Valid
  /-- The class and its members have at most one visibility each. -/
  visibility : ∀ m ∈ c.header :: c.ownMembers, m.modifiers.OneVisibility
  /-- The class lists no interfaces but its own. -/
  direct : ∀ m ∈ c.interfaces, m.direct = true
  /-- No interface is listed twice. -/
  interfaces : (c.interfaces.map (·.name)).Nodup
  /-- No list of members has a key twice. -/
  keys : ∀ l ∈ [c.constructors, c.methods, c.fields, c.nested, c.permitted, c.inherited],
    (l.map Member.key).Nodup
  /-- No two constructors, methods or fields have one erased signature. -/
  signatures : (c.fullErasure .unresolved).value.signatures.Nodup

/-- What a snapshot has to satisfy for its copies to be merged to itself. -/
structure Snapshot.SelfMergeable (s : Snapshot) : Prop where
  /-- Classes are listed under their names. -/
  named : s.Named
  /-- Each class can be merged with itself. -/
  classes : ∀ c ∈ s.values, c.SelfMergeable
  /-- A nested class is listed by the class around it, if that is there. -/
  nested : ∀ c ∈ s.values, ∀ name outer, c.enclosing? = some name → s.get? name = some outer →
    lists outer c.name = true
  /-- No package has the name of a class. -/
  packages : ∀ p ∈ s.packages, s.contains p = false

namespace ClassDef

theorem SelfMergeable.bodyMergeable {c : ClassDef} (h : c.SelfMergeable) : c.BodyMergeable where
  valid m hm := h.valid m (List.mem_cons_of_mem _ hm)
  visibility m hm := h.visibility m (List.mem_cons_of_mem _ hm)
  keys := h.keys

/-- The merged body of copies of a class is the class. -/
theorem mergeBody_copies_self {c : ClassDef} (h : c.SelfMergeable) (n : Nat) :
    mergeBody {} c (List.replicate n c) = pure c :=
  mergeBody_eq_pure h.bodyMergeable
    (List.forall_mem_cons.2 ⟨.inl rfl, fun _ hd => .inl (List.eq_of_mem_replicate hd)⟩)
    List.mem_cons_self

theorem dropUntracked_default (c : ClassDef) : c.dropUntracked {} = c := rfl

theorem unionDirectInterfaces_copies {c : ClassDef} (h : c.SelfMergeable) (n : Nat) :
    unionDirectInterfaces (c :: List.replicate n c) = c.interfaces := by
  have hdirect : c.directInterfaces = c.interfaces := List.filter_eq_self.2 h.direct
  rw [unionDirectInterfaces, flatMap_copies, hdirect, distinctBy_copies h.interfaces]

/-- Copies of a class become the class, without conflicts. -/
theorem mergeDefinitions_copies_self {c : ClassDef} (h : c.SelfMergeable)
    (participants : List Snapshot) (n : Nat) :
    (mergeDefinitions {} participants c (List.replicate n c)).value = some c ∧
      conflicts (mergeDefinitions {} participants c (List.replicate n c)).log = [] := by
  obtain ⟨mods, hmods, body, merged, rfl, hmerged, hvalue, hlog⟩ :=
    mergeDefinitions_copies {} participants c n
  have hheader : c.header.withModifiers mods = c.header := by
    rw [hmods (h.visibility _ List.mem_cons_self)]
    exact Member.withModifiers_self (h.valid _ List.mem_cons_self)
  rw [dropUntracked_default, mergeBody_copies_self h, unionDirectInterfaces_copies h] at hmerged
  rw [dropUntracked_default, mergeBody_copies_self h] at hlog
  simp only [Logged.value_pure, hheader] at hmerged
  subst hmerged
  refine ⟨hvalue, ?_⟩
  have hnone : repeats [] (c.fullErasure .unresolved).value.signatures = [] :=
    repeats_eq_nil_iff.2 ⟨h.signatures, fun _ _ => List.not_mem_nil⟩
  rw [hlog, conflicts_reportCollisions, hnone]
  rfl

end ClassDef

/-- The copies of a class in copies of a snapshot become the class, without conflicts. -/
theorem mergeClass_copies {s : Snapshot} {name : Text} {c : ClassDef}
    (hget : s.get? name = some c) (h : c.SelfMergeable) (n : Nat) :
    (mergeClass {} (List.replicate (n + 1) s) name).value = some c ∧
      conflicts (mergeClass {} (List.replicate (n + 1) s) name).log = [] := by
  have hdefs : definitions (List.replicate (n + 1) s) name = c :: List.replicate n c := by
    rw [definitions, List.filterMap_replicate_of_some (f := fun p : Snapshot => p.get? name) hget,
      List.replicate_succ]
  rw [mergeClass, hdefs]
  cases n with
  | zero => exact ⟨rfl, rfl⟩
  | succ n => exact ClassDef.mergeDefinitions_copies_self h _ (n + 1)

namespace Snapshot

/-- Where every nested class is settled, there is nothing to reconcile. -/
theorem registerNested_eq_self {s : Snapshot} {origins : Origins}
    (h : ∀ c ∈ s.values, s.fate origins c = .settled) : s.registerNested origins = s := by
  have hfold : ∀ l : List ClassDef, (∀ c ∈ l, s.fate origins c = .settled) →
      l.foldl (fun t c => t.addReference c (s.fate origins c)) s = s := by
    intro l
    induction l with
    | nil => exact fun _ => rfl
    | cons c l ih =>
      intro hl
      rw [List.foldl_cons, hl c List.mem_cons_self]
      exact ih fun d hd => hl d (List.mem_cons_of_mem _ hd)
  have hnone : s.values.filter (fun c => s.fate origins c = .duplicate) = [] :=
    List.filter_eq_nil_iff.2 fun c hc => by simp [h c hc]
  rw [registerNested, hfold s.values h, hnone]
  rfl

/-- Nothing becomes of a class that the class around it lists, if there is one. -/
theorem fate_eq_settled_of_lists {s : Snapshot} (origins : Origins) {c : ClassDef}
    (h : ∀ name outer, c.enclosing? = some name → s.get? name = some outer →
      lists outer c.name = true) : s.fate origins c = .settled := by
  unfold fate
  rcases houter : c.enclosing? with _ | name
  · rfl
  · rcases hget : s.get? name with _ | outer
    · simp [hget]
    · simp [hget, h name outer houter hget]

theorem fate_eq_settled {s : Snapshot} (h : s.SelfMergeable) (origins : Origins) {c : ClassDef}
    (hc : c ∈ s.values) : s.fate origins c = .settled :=
  fate_eq_settled_of_lists origins (h.nested c hc)

end Snapshot

namespace Merge

theorem classNames_copies (s : Snapshot) (n : Nat) :
    classNames (List.replicate (n + 1) s) = s.keys := by
  have hset : SortedSet.ofList ((List.replicate (n + 1) s).flatMap (·.keys)) = ⟨s.keys, s.sorted⟩ :=
    SortedSet.ext fun k => by
      rw [SortedSet.mem_ofList_iff, List.mem_flatMap]
      constructor
      · rintro ⟨t, ht, hk⟩
        rwa [List.eq_of_mem_replicate ht] at hk
      · exact fun hk => ⟨s, List.mem_replicate.2 ⟨n.succ_ne_zero, rfl⟩, hk⟩
  rw [classNames, hset]

theorem mergedClasses_copies {s : Snapshot} (h : s.SelfMergeable) (n : Nat) :
    (mergedClasses {} (List.replicate (n + 1) s)).value = s.entries ∧
      conflicts (mergedClasses {} (List.replicate (n + 1) s)).log = [] := by
  have hclass : ∀ e ∈ s.entries,
      (mergeClass {} (List.replicate (n + 1) s) e.1).value = some e.2 ∧
        conflicts (mergeClass {} (List.replicate (n + 1) s) e.1).log = [] := fun e he =>
    mergeClass_copies (SortedMap.get?_eq_some_iff.2 he) (h.classes e.2 (List.mem_map_of_mem he)) n
  constructor
  · rw [value_mergedClasses, classNames_copies, SortedMap.keys, List.filterMap_map]
    conv => rhs; rw [← List.filterMap_some (l := s.entries)]
    refine List.filterMap_congr ?_
    intro e he
    simp [(hclass e he).1]
  · rw [mergedClasses, Logged.log_map, Logged.log_traverse, conflicts_flatMap, classNames_copies,
      List.flatMap_eq_nil_iff]
    intro name hname
    obtain ⟨e, he, rfl⟩ := List.mem_map.1 hname
    rw [Logged.log_map, (hclass e he).2]

end Merge

open Merge in
/-- Merging any number of copies of a snapshot gives the snapshot back, without conflicts. -/
theorem merge_replicate_eq_self {s : Snapshot} (h : s.SelfMergeable) {k : Nat} (hk : 1 ≤ k) :
    (merge {} (List.replicate k s)).snapshot = s ∧
      (merge {} (List.replicate k s)).conflicts = [] := by
  obtain ⟨n, rfl⟩ := Nat.exists_eq_add_of_le' hk
  obtain ⟨hvalue, hlog⟩ := mergedClasses_copies h n
  have hclasses : Snapshot.ofClasses (s.entries.map (·.2)) = s := Snapshot.ofClasses_values h.named
  constructor
  · simp only [merge, hvalue, hclasses]
    exact Snapshot.registerNested_eq_self fun c hc => Snapshot.fate_eq_settled h _ hc
  · simp only [merge, hvalue, hlog, hclasses, List.nil_append, packageCollisions]
    rw [List.map_eq_nil_iff, List.filter_eq_nil_iff]
    intro p hp
    rw [h.packages p hp]
    simp

/-- A snapshot with a class around a nested one; both have members. -/
def nestedSnapshot : Snapshot :=
  .ofClasses
    [{ header := { kind := .header, modifiers := .ofList [.pub, .abstract], name := "a.B".toList }
       superclass := some (.typeRef .superclass "a.A".toList)
       interfaces := [{ Member.typeRef .interface "a.I".toList with direct := true }]
       methods := ["int".toList, []].map fun args =>
         { kind := .method, modifiers := .ofList [.pub], declaring := "a.B".toList
           name := "m".toList, typeName := "void".toList, args }
       nested := [{ kind := .inner, declaring := "a.B".toList, name := "C".toList }] },
     { header := { Member.typeRef .header "a.B$C".toList with typeParams := some "<%0>".toList }
       fields := [{ kind := .field, declaring := "a.B$C".toList, name := "f".toList
                    typeName := "{a.B$C%0}".toList }] }]

theorem merge_three_copies :
    nestedSnapshot.SelfMergeable ∧ 1 ≤ 3 ∧
      (merge {} (List.replicate 3 nestedSnapshot)).snapshot = nestedSnapshot ∧
      (merge {} (List.replicate 3 nestedSnapshot)).conflicts = [] := by
  have hclasses : ∀ c ∈ nestedSnapshot.values, c.SelfMergeable := by
    have hall : ∀ c ∈ nestedSnapshot.values,
        (∀ m ∈ c.header :: c.ownMembers, m.Valid) ∧
        (∀ m ∈ c.header :: c.ownMembers, m.modifiers.OneVisibility) ∧
        (∀ m ∈ c.interfaces, m.direct = true) ∧ (c.interfaces.map (·.name)).Nodup ∧
        (∀ l ∈ [c.constructors, c.methods, c.fields, c.nested, c.permitted, c.inherited],
          (l.map Member.key).Nodup) ∧
        (c.fullErasure .unresolved).value.signatures.Nodup := by decide +kernel
    intro c hc
    obtain ⟨hvalid, hvisibility, hdirect, hinterfaces, hkeys, hsignatures⟩ := hall c hc
    exact ⟨hvalid, hvisibility, hdirect, hinterfaces, hkeys, hsignatures⟩
  have hmergeable : nestedSnapshot.SelfMergeable := by
    refine ⟨?_, hclasses, ?_, ?_⟩
    · decide +kernel
    · intro c hc name outer henclosing hget
      have hall : ∀ c ∈ nestedSnapshot.values, (c.enclosing?.bind nestedSnapshot.get?).all
          (Snapshot.lists · c.name) = true := by decide +kernel
      have hlisted := hall c hc
      rwa [henclosing, Option.bind_some, hget, Option.all_some] at hlisted
    · decide +kernel
  exact ⟨hmergeable, by decide, merge_replicate_eq_self hmergeable (by decide)⟩

end ApiSurface
