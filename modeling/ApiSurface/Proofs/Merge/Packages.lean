import ApiSurface.Proofs.Merge.DroppedClasses
import ApiSurface.Proofs.Merge.Kept

/-!
# Packages that are called as a class

The names of packages are compared with those of classes before nested classes are reconciled. No
harm comes of it: a class that is removed leaves behind the class around it, or one further out,
in the same package (`Snapshot.exists_kept_of_package`), and a class that is called as a package
has no `$` in its name and is never removed. So the packages that are reported are those of the
snapshot that is returned (`packagesReported`).
-/

namespace ApiSurface

open Finding

/-! ### Packages of nested classes -/

/-- A nested class is in the package of the class around it. -/
theorem packageOf_append (outer simple : Text) :
    packageOf (outer ++ '$' :: simple) = packageOf outer := by
  have houtermost : ((Text.cutFirst? '$' (outer ++ '$' :: simple)).map (·.1)).getD
      (outer ++ '$' :: simple) = ((Text.cutFirst? '$' outer).map (·.1)).getD outer := by
    rcases hcut : Text.cutFirst? '$' outer with _ | ⟨a, b⟩
    · rw [Text.cutFirst?_eq_some_iff.2 ⟨rfl, Text.cutFirst?_eq_none_iff.1 hcut⟩]
      rfl
    · obtain ⟨rfl, ha⟩ := Text.cutFirst?_eq_some_iff.1 hcut
      have hinner : Text.cutFirst? '$' (a ++ '$' :: b ++ '$' :: simple) =
          some (a, b ++ '$' :: simple) :=
        Text.cutFirst?_eq_some_iff.2 ⟨by rw [List.append_assoc, List.cons_append], ha⟩
      rw [hinner]
      rfl
  unfold packageOf
  rw [houtermost]

/-- A package is not called as a nested class. -/
theorem dollar_notMem_packageOf (name : Text) : '$' ∉ packageOf name := by
  have houtermost : '$' ∉ ((Text.cutFirst? '$' name).map (·.1)).getD name := by
    rcases hcut : Text.cutFirst? '$' name with _ | ⟨a, b⟩
    · exact Text.cutFirst?_eq_none_iff.1 hcut
    · exact (Text.cutFirst?_eq_some_iff.1 hcut).2
  unfold packageOf
  dsimp only
  generalize ((Text.cutFirst? '$' name).map (·.1)).getD name = outermost at houtermost
  rcases hcut : Text.cutLast? (· == '.') outermost with _ | ⟨a, b⟩
  · rw [Option.map_none]
    exact List.not_mem_nil
  · rw [Option.map_some]
    obtain ⟨c, rfl, -⟩ := Text.eq_of_cutLast?_eq_some hcut
    exact fun h => houtermost (List.mem_append_left _ h)

namespace ClassDef

theorem name_of_enclosing? {c : ClassDef} {outer : Text} (h : c.EnclosedByName)
    (houter : c.enclosing? = some outer) : ∃ simple, c.name = outer ++ '$' :: simple := by
  obtain ⟨simple, hcut⟩ := exists_cut_of_enclosing? h houter
  obtain ⟨d, hname, hd, -⟩ := Text.eq_of_cutLast?_eq_some hcut
  obtain rfl : d = '$' := by simpa using hd
  exact ⟨simple, hname⟩

/-- Definitions of classes that are enclosed by their names become such a class. -/
theorem enclosedByName_of_mergeDefinitions {settings : Settings} {participants : List Snapshot}
    {first merged : ClassDef} {rest : List ClassDef} (h : ∀ c ∈ first :: rest, c.EnclosedByName)
    (hmerged : (mergeDefinitions settings participants first rest).value = some merged) :
    merged.EnclosedByName := by
  obtain ⟨c, hc, hkey⟩ := exists_key_header_of_mergeDefinitions hmerged
  obtain ⟨-, hdeclaring, hname, -⟩ := MemberKey.mk.inj hkey
  unfold EnclosedByName ClassDef.name
  rw [hdeclaring, hname]
  exact h c hc

end ClassDef

namespace Snapshot

variable {s : Snapshot} {origins : Origins} {name : Text} {c : ClassDef}

/-! ### What is left of a snapshot -/

/-- In the package of every class there is one that is not removed: the class itself, or one of
those around it. -/
theorem exists_kept_of_package (hs : s.Named) (henclosed : ∀ c ∈ s.values, c.EnclosedByName)
    (origins : Origins) (hget : s.get? name = some c) :
    ∃ name' kept, s.get? name' = some kept ∧ s.fate origins kept ≠ .duplicate ∧
      packageOf name' = packageOf name := by
  -- the class around a nested one has a shorter name
  induction hlength : name.length using Nat.strong_induction_on generalizing name c with
  | _ n ih =>
    by_cases hfate : s.fate origins c = .duplicate
    · have hsettled : s.fate origins c ≠ .settled := by
        rw [hfate]
        exact Fate.noConfusion
      obtain ⟨outer, houter, hcontains⟩ := enclosing_of_fate_ne_settled hsettled
      obtain ⟨o, ho⟩ := Option.isSome_iff_exists.1 hcontains
      obtain ⟨simple, hname⟩ :=
        ClassDef.name_of_enclosing? (henclosed c (mem_values_iff.2 ⟨name, hget⟩)) houter
      rw [name_of_get? hs hget] at hname
      have hshorter : outer.length < n := by
        rw [← hlength, hname, List.length_append, List.length_cons]
        omega
      obtain ⟨name', kept, hkept, hnot, hpackage⟩ := ih outer.length hshorter ho rfl
      exact ⟨name', kept, hkept, hnot, by rw [hpackage, hname, packageOf_append]⟩
    · exact ⟨name, c, hget, hfate, rfl⟩

/-- A class without `$` in its name is not removed. -/
theorem contains_registerNested (hs : s.Named) (henclosed : ∀ c ∈ s.values, c.EnclosedByName)
    (hname : '$' ∉ name) : (s.registerNested origins).contains name = s.contains name := by
  have hkept : ∀ c, s.get? name = some c → s.fate origins c ≠ .duplicate := by
    intro c hget hfate
    obtain ⟨outer, houter, -⟩ := of_fate_eq_duplicate hs hfate
    obtain ⟨simple, heq⟩ :=
      ClassDef.name_of_enclosing? (henclosed c (mem_values_iff.2 ⟨name, hget⟩)) houter
    rw [name_of_get? hs hget] at heq
    exact hname (heq ▸ List.mem_append_right _ List.mem_cons_self)
  rw [Bool.eq_iff_iff, SortedMap.contains, isSome_get?_registerNested_iff hs, SortedMap.contains,
    Option.isSome_iff_exists]
  exact exists_congr fun c => and_iff_left_of_imp (hkept c)

theorem mem_packages_iff {package : Text} :
    package ∈ s.packages ↔
      package ≠ [] ∧ ∃ name, s.contains name = true ∧ packageOf name = package := by
  simp only [packages, SortedSet.mem_ofList_iff, List.mem_filter, List.mem_map, decide_eq_true_eq,
    SortedMap.contains_iff_mem_keys]
  exact and_comm

/-- Reconciling nested classes leaves a class in every package. -/
theorem packages_registerNested (hs : s.Named) (henclosed : ∀ c ∈ s.values, c.EnclosedByName) :
    (s.registerNested origins).packages = s.packages := by
  ext package
  rw [mem_packages_iff, mem_packages_iff]
  refine and_congr_right fun _ => ?_
  constructor
  · rintro ⟨name, hcontains, hpackage⟩
    obtain ⟨c, hget, -⟩ := (isSome_get?_registerNested_iff hs).1 hcontains
    exact ⟨name, Option.isSome_iff_exists.2 ⟨c, hget⟩, hpackage⟩
  · rintro ⟨name, hcontains, hpackage⟩
    obtain ⟨c, hget⟩ := Option.isSome_iff_exists.1 hcontains
    obtain ⟨name', kept, hkept, hfate, hsame⟩ := exists_kept_of_package hs henclosed origins hget
    exact ⟨name', (isSome_get?_registerNested_iff hs).2 ⟨kept, hkept, hfate⟩,
      hsame.trans hpackage⟩

/-- Reconciling nested classes does not change which packages are called as a class. -/
theorem packageCollisions_registerNested (hs : s.Named)
    (henclosed : ∀ c ∈ s.values, c.EnclosedByName) :
    Merge.packageCollisions (s.registerNested origins) = Merge.packageCollisions s := by
  unfold Merge.packageCollisions
  rw [packages_registerNested hs henclosed]
  refine congrArg (List.map _) (List.filter_congr fun package hmem => ?_)
  obtain ⟨-, name, -, rfl⟩ := mem_packages_iff.1 (SortedSet.mem_toList_iff.1 hmem)
  exact contains_registerNested hs henclosed (dollar_notMem_packageOf name)

end Snapshot

namespace Conflict

/-- The package that is called as a class, according to a conflict. -/
def collidingPackage? : Conflict → Option Text
  | packageCollision package => some package
  | _ => none

/-- The packages that are called as a class, according to a log. -/
def collidingPackages (log : List Conflict) : List Text := log.filterMap collidingPackage?

theorem collidingPackage?_of_member? (c : Conflict) (h : c.member? ≠ none) :
    c.collidingPackage? = none := by
  cases c with
  | packageCollision => exact absurd rfl h
  | _ => rfl

theorem collidingPackage?_of_droppedClass? (c : Conflict) (h : c.droppedClass? ≠ none) :
    c.collidingPackage? = none := by
  cases c with
  | packageCollision => exact absurd rfl h
  | _ => rfl

theorem collidingPackages_packageCollisions (s : Snapshot) :
    collidingPackages (Merge.packageCollisions s) = s.packages.toList.filter s.contains := by
  rw [Merge.packageCollisions, collidingPackages, List.filterMap_map]
  exact List.filterMap_some

end Conflict

namespace Merge

open Conflict

variable {settings : Settings} {participants : List Snapshot}

/-- The definitions of a class say nothing about packages. -/
theorem collidingPackages_mergeClass (settings : Settings) (participants : List Snapshot)
    (name : Text) :
    collidingPackages (conflicts (mergeClass settings participants name).log) = [] := by
  rw [collidingPackages, filterMap_mergeClass collidingPackage?_of_member?
    collidingPackage?_of_droppedClass?]
  split
  next =>
    refine List.flatMap_eq_nil_iff.2 fun merged _ => ?_
    rw [ClassDef.collisions, List.filterMap_map]
    exact List.filterMap_eq_nil_iff.2 fun _ _ => rfl
  next => rfl

theorem enclosedByName_unreconciled (h : ∀ p ∈ participants, ∀ c ∈ p.values, c.EnclosedByName) :
    ∀ c ∈ (unreconciled settings participants).values, c.EnclosedByName := by
  intro c hc
  obtain ⟨name, hget⟩ := Snapshot.mem_values_iff.1 hc
  obtain ⟨key, hvalue⟩ := exists_of_get?_unreconciled hget
  exact of_mergeClass_eq_some ClassDef.enclosedByName_of_mergeDefinitions
    (forall_mem_definitions h) hvalue

/-- The packages that are reported are those of the returned snapshot that are called as a class. -/
theorem collidingPackages_merge (h : ∀ p ∈ participants, ∀ c ∈ p.values, c.EnclosedByName) :
    collidingPackages (merge settings participants).conflicts =
      (merge settings participants).snapshot.packages.toList.filter
        (merge settings participants).snapshot.contains := by
  have hclasses : collidingPackages ((classNames participants).flatMap fun name =>
      conflicts (mergeClass settings participants name).log) = [] := by
    rw [collidingPackages, List.filterMap_flatMap]
    exact List.flatMap_eq_nil_iff.2 fun name _ =>
      collidingPackages_mergeClass settings participants name
  rw [conflicts_merge, collidingPackages, List.filterMap_append, ← collidingPackages,
    ← collidingPackages, hclasses, List.nil_append, ← collidingPackages_packageCollisions,
    snapshot_merge, Snapshot.packageCollisions_registerNested (named_unreconciled _ _)
      (enclosedByName_unreconciled h)]

/-- What the conflicts of a merge say about packages. -/
structure PackagesReported (report : Report) : Prop where
  /-- They are in order, and no package is reported twice. -/
  sorted : (collidingPackages report.conflicts).Pairwise fun a b => compare a b = .lt
  /-- They are about the packages of returned classes that are called as a returned class. The
  default package has no name and is never reported. -/
  reported : ∀ package, package ∈ collidingPackages report.conflicts ↔ package ≠ [] ∧
    (∃ c ∈ report.snapshot.values, c.name = package) ∧
    ∃ c ∈ report.snapshot.values, c.package = package

/-- Packages are reported as the returned snapshot has them, where the class around a nested class
is called by the text before the last `$`. -/
theorem packagesReported (settings : Settings) {participants : List Snapshot}
    (h : ∀ p ∈ participants, ∀ c ∈ p.values, c.EnclosedByName) :
    PackagesReported (merge settings participants) where
  sorted := by
    rw [collidingPackages_merge h]
    exact (SortedSet.sorted _).filter _
  reported package := by
    have hs := named_merge settings participants
    have hname : (∃ c ∈ (merge settings participants).snapshot.values, c.name = package) ↔
        (merge settings participants).snapshot.contains package = true :=
      (Snapshot.exists_mem_values_iff hs (· = package)).trans exists_eq_right
    have hpackage : (∃ c ∈ (merge settings participants).snapshot.values, c.package = package) ↔
        ∃ name, (merge settings participants).snapshot.contains name = true ∧
          packageOf name = package :=
      Snapshot.exists_mem_values_iff hs fun name => packageOf name = package
    rw [collidingPackages_merge h, List.mem_filter, SortedSet.mem_toList_iff,
      Snapshot.mem_packages_iff, hname, hpackage]
    exact and_assoc.trans (and_congr_right fun _ => and_comm)

/-- A source with a class called as the package of others, one of which extends another one. Both
of these have a nested class `I`. -/
def classAndPackage : Snapshot :=
  classesExtending [("a.B", none), ("a.B.A", none), ("a.B.A$I", none),
    ("a.B.C", some "a.B.A"), ("a.B.C$I", none)]

/-- A nested class of the package is removed, and the package is reported, but the one around it is
not. -/
theorem packagesReported_classAndPackage :
    (merge {} [classAndPackage]).snapshot.get? "a.B.C$I".toList = none ∧
      "a.B".toList ∈ collidingPackages (merge {} [classAndPackage]).conflicts ∧
      "a".toList ∉ collidingPackages (merge {} [classAndPackage]).conflicts := by
  have henclosed : ∀ p ∈ [classAndPackage], ∀ c ∈ p.values, c.EnclosedByName := by
    decide +kernel
  have hreported := (packagesReported {} henclosed).reported
  refine ⟨by decide +kernel, (hreported _).2 ⟨by decide, by decide +kernel, by decide +kernel⟩, ?_⟩
  intro ha
  obtain ⟨-, hclass, -⟩ := (hreported _).1 ha
  exact absurd hclass (by decide +kernel)

end Merge

end ApiSurface
