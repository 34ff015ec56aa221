import ApiSurface.Proofs.Merge.Referenced
import ApiSurface.Proofs.Merge.SelfMerge

/-!
# What reconciling nested classes leaves alone

Reconciling nested classes removes nested classes and puts references behind those that a class has,
and does nothing else (`Snapshot.Reconciled`). Every class that is left is settled: around it there
is no class, or one that lists it (`fate_registerNested`).

Main statement: nothing is left to be done a second time (`reconciled_registerNested`). It takes
classes that are listed under their names; others can lose a class that is not nested, and can be
changed again (`registerNested_misfiled`).
-/

namespace ApiSurface

namespace Snapshot

variable {s : Snapshot} {origins : Origins} {key : Text} {c : ClassDef}

/-- One snapshot is left of another one when nested classes are removed and listed. -/
structure Reconciled (s t : Snapshot) : Prop where
  /-- A class that is left was there, and got references to some of the classes of the snapshot, one
  each: they are nested in it, are called by their references and were not listed before. -/
  kept : ∀ key c', t.get? key = some c' → ∃ (c : ClassDef) (listed : List ClassDef),
    s.get? key = some c ∧ listed.Sublist s.values ∧
    c' = { c with nested := c.nested ++ listed.map (innerReference key) } ∧
    ∀ d ∈ listed, d.enclosing? = some key ∧ (innerReference key d).qualifiedName = d.name ∧
      lists c d.name = false
  /-- A class that is gone is nested in a class of the snapshot. -/
  removed : ∀ key c, s.get? key = some c → t.get? key = none →
    ∃ outer, c.enclosing? = some outer ∧ s.contains outer = true

/-- A class that is left got references to classes that are nested in it and were not listed. -/
theorem exists_listed_of_get?_registerNested (hplaced : ∀ c ∈ s.values, c.PlacedByName)
    {c' : ClassDef} (hget : (s.registerNested origins).get? key = some c') :
    ∃ (c : ClassDef) (listed : List ClassDef), s.get? key = some c ∧ listed.Sublist s.values ∧
      c' = { c with nested := c.nested ++ listed.map (innerReference key) } ∧
      ∀ d ∈ listed, d.enclosing? = some key ∧ (innerReference key d).qualifiedName = d.name ∧
        lists c d.name = false := by
  rw [get?_registerNested_of_keys] at hget
  split at hget
  next => cases hget
  next =>
    obtain ⟨c, hc, rfl⟩ := Option.map_eq_some_iff.1 hget
    refine ⟨c, _, hc, List.filter_sublist, rfl, fun d hd => ?_⟩
    obtain ⟨hvalue, hfate⟩ := List.mem_filter.1 hd
    have hunlisted : s.fate origins d = .unlisted key := of_decide_eq_true hfate
    have houter := enclosing_of_fate_eq_unlisted hunlisted
    refine ⟨houter, qualifiedName_innerReference (hplaced d hvalue) houter, ?_⟩
    rcases fate_cases origins houter hc with ⟨-, hsettled⟩ | ⟨hlists, -⟩
    · cases hunlisted.symm.trans hsettled
    · exact hlists

/-- A class that is gone is a duplicate, which is nested in a class of the snapshot. -/
theorem exists_enclosing_of_get?_registerNested (hs : s.Named) (hget : s.get? key = some c)
    (hgone : (s.registerNested origins).get? key = none) :
    ∃ outer, c.enclosing? = some outer ∧ s.contains outer = true := by
  rw [get?_registerNested hs, hget, Option.bind_some] at hgone
  split at hgone
  next hfate =>
    exact enclosing_of_fate_ne_settled fun hsettled => nomatch hfate.symm.trans hsettled
  next => cases hgone

/-- Around a class that is left there is no class, or one that lists it. -/
theorem fate_registerNested (hs : s.Named) (hplaced : ∀ c ∈ s.values, c.PlacedByName)
    (hc : c ∈ (s.registerNested origins).values) :
    (s.registerNested origins).fate origins c = .settled := by
  obtain ⟨key, hkey⟩ := mem_values_iff.1 hc
  rw [get?_registerNested hs] at hkey
  obtain ⟨before, hbefore, hleft⟩ := Option.bind_eq_some_iff.1 hkey
  split at hleft
  next => cases hleft
  next hfate =>
    obtain rfl := Option.some.inj hleft
    have hvalue : before ∈ s.values := mem_values_iff.2 ⟨key, hbefore⟩
    refine fate_eq_settled_of_lists origins fun outer o' houter hget => ?_
    rw [get?_registerNested hs] at hget
    obtain ⟨o, ho, hleft⟩ := Option.bind_eq_some_iff.1 hget
    split at hleft
    next => cases hleft
    next =>
      obtain rfl := Option.some.inj hleft
      exact (lists_with_references_iff origins hplaced hvalue houter ho).2 hfate

/-- Where classes are listed under their names, as in every snapshot that a merge reconciles
(`Merge.named_unreconciled`), reconciling nested classes only removes nested classes and puts
references to classes of the snapshot behind the nested classes of others, and a second time changes
nothing. -/
theorem reconciled_registerNested (hs : s.Named) (hplaced : ∀ c ∈ s.values, c.PlacedByName)
    (origins : Origins) :
    s.Reconciled (s.registerNested origins) ∧
      (s.registerNested origins).registerNested origins = s.registerNested origins where
  left :=
    { kept := fun _ _ hget => exists_listed_of_get?_registerNested hplaced hget
      removed := fun _ _ hget hgone => exists_enclosing_of_get?_registerNested hs hget hgone }
  right := registerNested_eq_self fun _ hc => fate_registerNested hs hplaced hc

/-- Of two levels of nested classes, one class is removed and others are listed, all at once. -/
theorem reconciled_twoLevels :
    twoLevels.Reconciled
        (twoLevels.registerNested (Merge.origins [twoLevels] twoLevels.keys)) ∧
      twoLevels.registerNested (Merge.origins [twoLevels] twoLevels.keys) ≠ twoLevels ∧
      (twoLevels.registerNested (Merge.origins [twoLevels] twoLevels.keys)).registerNested
          (Merge.origins [twoLevels] twoLevels.keys) =
        twoLevels.registerNested (Merge.origins [twoLevels] twoLevels.keys) := by
  have hplaced : ∀ c ∈ twoLevels.values, c.PlacedByName := by decide +kernel
  obtain ⟨hreconciled, htwice⟩ := reconciled_registerNested (named_ofClasses _) hplaced
    (Merge.origins [twoLevels] twoLevels.keys)
  exact ⟨hreconciled, by decide +kernel, htwice⟩

/-- A class and two that extend it or themselves, with nested classes. Under the name of one of
these is a top-level class, and the nested class itself is under a name of its own. -/
def misfiled : Snapshot :=
  SortedMap.ofList [
    ("a.B".toList, { ClassDef.ofName "a.B".toList with
      superclass := some (.typeRef .superclass "a.B".toList) }),
    ("a.B$I".toList, ClassDef.ofName "a.B$I".toList),
    ("a.C".toList, { ClassDef.ofName "a.C".toList with
      superclass := some (.typeRef .superclass "a.B".toList) }),
    ("a.C$I".toList, ClassDef.ofName "a.D".toList),
    ("a.E".toList, ClassDef.ofName "a.C$I".toList)]

/-- Where classes are not listed under their names, a class that is not nested is removed, and a
second time changes what the first has left. -/
theorem registerNested_misfiled :
    (∀ c ∈ misfiled.values, c.PlacedByName) ∧
      (∃ c, misfiled.get? "a.C$I".toList = some c ∧ c.enclosing? = none ∧
        (misfiled.registerNested (Merge.origins [misfiled] misfiled.keys)).get?
          "a.C$I".toList = none) ∧
      (misfiled.registerNested (Merge.origins [misfiled] misfiled.keys)).registerNested
          (Merge.origins [misfiled] misfiled.keys) ≠
        misfiled.registerNested (Merge.origins [misfiled] misfiled.keys) := by
  refine ⟨by decide +kernel, ⟨ClassDef.ofName "a.D".toList, ?_⟩, by decide +kernel⟩
  decide +kernel

end Snapshot

end ApiSurface
