import ApiSurface.Proofs.Merge.Nested
import ApiSurface.Proofs.Merge.Order
import Mathlib.Data.List.Find

/-!
# The superclass of a merged class

Definitions that name one superclass keep it. Of several superclasses the merged class has one that
superclass links lead from to all others, in the first participant with a class for each of them
that has such a one; where there is no such participant, the class is dropped
(`superclass_mergeClass`). In a participant whose links run in no circle there is at most one such
superclass (`MostDerived.unique`), so it does not matter there in which order the definitions come.
-/

namespace ApiSurface

open Conflict Finding Member

namespace Snapshot

variable {s : Snapshot} {names : List Text} {a b : Text}

/-- There is a class for each of several names, and superclass links lead from one of the names to
all others. -/
structure MostDerived (s : Snapshot) (names : List Text) (a : Text) : Prop where
  /-- It is one of the names. -/
  mem : a ∈ names
  /-- There is a class for each of them. -/
  known : ∀ b ∈ names, s.contains b = true
  /-- Links lead to every other one. -/
  links : ∀ b ∈ names, b ≠ a → Relation.TransGen s.Extends a b

/-- Paths are what superclass links make up. -/
theorem path_iff : Hierarchy.Path (Hierarchy.ofSnapshot s).links a b ↔
    Relation.ReflTransGen s.Extends a b := by
  constructor
  · intro h
    induction h with
    | refl => exact .refl
    | step _ hlink ih => exact ih.tail hlink
  · intro h
    induction h with
    | refl => exact .refl a
    | tail _ hlink ih => exact ih.step hlink

/-- A class is found to extend another one exactly if superclass links lead to it. -/
theorem isSubclass_iff : (Hierarchy.ofSnapshot s).isSubclass a b = true ↔
    a ≠ b ∧ Relation.TransGen s.Extends a b := by
  rw [Hierarchy.isSubclass_iff_path, path_iff, Relation.reflTransGen_iff_eq_or_transGen]
  exact and_congr_right fun h => or_iff_right h.symm

theorem mostDerived_iff : s.MostDerived names a ↔
    (∀ b ∈ names, s.contains b = true) ∧ a ∈ names ∧
      ∀ b ∈ names, b = a ∨ (Hierarchy.ofSnapshot s).isSubclass a b = true := by
  have hlinks : (∀ b ∈ names, b ≠ a → Relation.TransGen s.Extends a b) ↔
      ∀ b ∈ names, b = a ∨ (Hierarchy.ofSnapshot s).isSubclass a b = true := by
    refine forall₂_congr fun b _ => ?_
    by_cases h : b = a
    · simp [h]
    · simp [h, isSubclass_iff, Ne.symm h]
  rw [← hlinks]
  exact ⟨fun h => ⟨h.known, h.mem, h.links⟩, fun h => ⟨h.2.1, h.1, h.2.2⟩⟩

instance (s : Snapshot) (names : List Text) (a : Text) : Decidable (s.MostDerived names a) :=
  decidable_of_iff _ mostDerived_iff.symm

instance (s : Snapshot) (names : List Text) : Decidable (∃ a, s.MostDerived names a) :=
  decidable_of_iff (∃ a ∈ names, s.MostDerived names a)
    ⟨fun ⟨a, _, h⟩ => ⟨a, h⟩, fun ⟨a, h⟩ => ⟨a, h.mem, h⟩⟩

theorem decides_iff : ClassDef.Decides s names ↔ ∃ a, s.MostDerived names a := by
  simp only [ClassDef.Decides, mostDerived_iff, exists_and_left]

theorem mostDerived_congr {names' : List Text} (h : ∀ a, a ∈ names ↔ a ∈ names') :
    s.MostDerived names a ↔ s.MostDerived names' a := by
  simp only [mostDerived_iff, h]

/-- Where links run in no circle, links lead from at most one name to all others. -/
theorem MostDerived.unique (ha : s.MostDerived names a) (hacyclic : s.Acyclic)
    (hb : s.MostDerived names b) : a = b := by
  by_contra hne
  exact hacyclic a ((ha.links b hb.mem (Ne.symm hne)).trans (hb.links a ha.mem hne))

end Snapshot

namespace ClassDef

variable {participants : List Snapshot} {defs : List ClassDef} {p : Snapshot} {m : Member}

/-! ### What definitions settle on -/

/-- The references to superclasses, in the order of the definitions. -/
def superReferences (defs : List ClassDef) : List Member := defs.filterMap (·.superclass)

/-- The definitions settle on a reference for the sake of a participant. -/
structure SettlesOn (participants : List Snapshot) (defs : List ClassDef) (p : Snapshot)
    (m : Member) : Prop where
  /-- It is the first participant in which links lead from one superclass to all others. -/
  participant : participants.find? (fun q => ∃ a, q.MostDerived (superclassNames defs) a) = some p
  /-- It is the first reference to such a superclass. -/
  reference : (superReferences defs).find?
    (fun r => p.MostDerived (superclassNames defs) r.name) = some m

theorem SettlesOn.mostDerived (h : SettlesOn participants defs p m) :
    p.MostDerived (superclassNames defs) m.name := by
  simpa using List.find?_some h.reference

theorem mem_superclassNames_iff {a : Text} :
    a ∈ superclassNames defs ↔ a ∈ (superclasses defs).map (·.name) := mem_map_distinctBy_iff.symm

theorem mem_superclassNames_perm {defs' : List ClassDef} (h : defs.Perm defs') (a : Text) :
    a ∈ superclassNames defs ↔ a ∈ superclassNames defs' :=
  ((h.filterMap _).map _).mem_iff

/-- A participant is searched for the first reference to a most derived superclass. -/
theorem mostDerivedIn?_superclasses (defs : List ClassDef) (p : Snapshot) :
    mostDerivedIn? (superclasses defs) p = (superReferences defs).find?
      fun r => p.MostDerived (superclassNames defs) r.name := by
  have hfind : mostDerivedIn? (superclasses defs) p = (superclasses defs).find?
      fun r => p.MostDerived (superclassNames defs) r.name := by
    unfold mostDerivedIn?
    split
    next hall =>
      have hknown : ∀ b ∈ superclassNames defs, p.contains b = true := by
        simpa [mem_superclassNames_iff] using hall
      refine List.find?_congr fun r hr => ?_
      have hname : r.name ∈ superclassNames defs :=
        mem_superclassNames_iff.2 (List.mem_map_of_mem hr)
      rw [Bool.eq_iff_iff, decide_eq_true_eq, Snapshot.mostDerived_iff, and_iff_right hknown,
        and_iff_right hname]
      simp [mem_superclassNames_iff]
    next hall =>
      refine (List.find?_eq_none.2 fun r _ hderived => hall ?_).symm
      have hknown := (of_decide_eq_true hderived).known
      simpa [mem_superclassNames_iff] using hknown
  rw [hfind]
  exact find?_distinctBy Member.name (fun a => p.MostDerived (superclassNames defs) a) _

/-- A participant has a result exactly if it has a most derived superclass. -/
theorem isSome_mostDerivedIn?_superclasses_iff :
    (mostDerivedIn? (superclasses defs) p).isSome = true ↔
      ∃ a, p.MostDerived (superclassNames defs) a := by
  rw [isSome_mostDerivedIn?_iff, Snapshot.decides_iff]
  simp only [Snapshot.mostDerived_congr fun a => mem_superclassNames_iff]

theorem findSome?_mostDerivedIn?_eq_some_iff :
    participants.findSome? (mostDerivedIn? (superclasses defs)) = some m ↔
      ∃ p, SettlesOn participants defs p m := by
  have hsome : ∀ q : Snapshot, (mostDerivedIn? (superclasses defs) q).isSome =
      decide (∃ a, q.MostDerived (superclassNames defs) a) := by
    intro q
    rw [Bool.eq_iff_iff, isSome_mostDerivedIn?_superclasses_iff, decide_eq_true_eq]
  rw [findSome?_eq_bind_find?, funext hsome, Option.bind_eq_some_iff]
  simp only [mostDerivedIn?_superclasses]
  exact ⟨fun ⟨p, hp, hm⟩ => ⟨p, hp, hm⟩, fun ⟨p, h⟩ => ⟨p, h.participant, h.reference⟩⟩

/-- Definitions that name at most one superclass keep the first reference to it. -/
theorem resolveSuperclass_of_eq (name : Text)
    (h : ∀ a ∈ superclassNames defs, ∀ b ∈ superclassNames defs, a = b) :
    resolveSuperclass participants name defs = .ok (superReferences defs).head? := by
  have hhead : (superclasses defs).head? = (superReferences defs).head? := head?_distinctBy _ _
  have hnodup : ((superclasses defs).map (·.name)).Nodup := nodup_map_distinctBy _ _
  simp only [mem_superclassNames_iff] at h
  rw [resolveSuperclass, ← hhead]
  rcases hsuper : superclasses defs with _ | ⟨only, _ | ⟨second, others⟩⟩
  · rfl
  · rfl
  · rw [hsuper] at h hnodup
    rw [List.map_cons, List.nodup_cons] at hnodup
    exact absurd (h only.name (by simp) second.name (by simp) ▸ by simp) hnodup.1

/-- Of several superclasses definitions have the one that they settle on. -/
theorem resolveSuperclass_of_ne (name : Text)
    (h : ∃ a ∈ superclassNames defs, ∃ b ∈ superclassNames defs, a ≠ b) :
    resolveSuperclass participants name defs =
      match participants.findSome? (mostDerivedIn? (superclasses defs)) with
      | some m => .ok (some m)
      | none => .error (.unrelatedSuperclasses name ((superclasses defs).map (·.name))) := by
  obtain ⟨a, ha, b, hb, hne⟩ := h
  rw [mem_superclassNames_iff] at ha hb
  rw [resolveSuperclass]
  rcases hsuper : superclasses defs with _ | ⟨only, _ | ⟨second, others⟩⟩
  · rw [hsuper] at ha
    cases ha
  · rw [hsuper, List.map_singleton, List.mem_singleton] at ha hb
    exact absurd (ha.trans hb.symm) hne
  · rfl

/-- Several superclasses are unrelated if links lead from none to all others in any participant. -/
theorem resolveSuperclass_eq_error (name : Text)
    (hne : ∃ a ∈ superclassNames defs, ∃ b ∈ superclassNames defs, a ≠ b)
    (h : ∀ p ∈ participants, ∀ a, ¬ p.MostDerived (superclassNames defs) a) :
    resolveSuperclass participants name defs =
      .error (.unrelatedSuperclasses name ((superclasses defs).map (·.name))) := by
  rw [resolveSuperclass_of_ne name hne]
  rcases hfind : participants.findSome? (mostDerivedIn? (superclasses defs)) with _ | m
  · rfl
  · obtain ⟨p, hsettles⟩ := findSome?_mostDerivedIn?_eq_some_iff.1 hfind
    exact absurd hsettles.mostDerived (h p (List.mem_of_find?_eq_some hsettles.participant) _)

/-- Several superclasses are related if links lead from one to all others in some participant. -/
theorem exists_settlesOn (name : Text)
    (hne : ∃ a ∈ superclassNames defs, ∃ b ∈ superclassNames defs, a ≠ b)
    (h : ∃ p ∈ participants, ∃ a, p.MostDerived (superclassNames defs) a) :
    ∃ p m, SettlesOn participants defs p m ∧
      resolveSuperclass participants name defs = .ok (some m) := by
  rw [resolveSuperclass_of_ne name hne]
  rcases hfind : participants.findSome? (mostDerivedIn? (superclasses defs)) with _ | m
  · obtain ⟨p, hp, hdecides⟩ := h
    have hnone := List.findSome?_eq_none_iff.1 hfind p hp
    rw [← Option.not_isSome_iff_eq_none, isSome_mostDerivedIn?_superclasses_iff] at hnone
    exact absurd hdecides hnone
  · obtain ⟨p, hsettles⟩ := findSome?_mostDerivedIn?_eq_some_iff.1 hfind
    exact ⟨p, m, hsettles, rfl⟩

/-- Definitions in another order settle on a reference to the same superclass, if links run in no
circle in the participant for whose sake they do. -/
theorem SettlesOn.name_eq_of_perm {defs' : List ClassDef} {p' : Snapshot} {m' : Member}
    (h : SettlesOn participants defs p m) (h' : SettlesOn participants defs' p' m')
    (hperm : defs.Perm defs') (hacyclic : p.Acyclic) : m'.name = m.name := by
  have hnames := mem_superclassNames_perm hperm
  have hparticipant := h'.participant
  simp only [← Snapshot.mostDerived_congr hnames] at hparticipant
  obtain rfl : p = p' := Option.some.inj (h.participant.symm.trans hparticipant)
  have hderived : p.MostDerived (superclassNames defs) m'.name :=
    (Snapshot.mostDerived_congr hnames).2 h'.mostDerived
  exact hderived.unique hacyclic h.mostDerived

/-! ### Definitions of one kind of class -/

section Merged

variable {settings : Settings} {first : ClassDef} {rest : List ClassDef}

/-- The definitions are of one kind of class and agree on `static`. -/
structure SameTraits (defs : List ClassDef) : Prop where
  /-- All are interfaces or none is, and all are abstract or none is. -/
  traits : ∀ shared : ClassTrait, ∀ c ∈ defs, ∀ d ∈ defs,
    c.header.has shared.modifier = d.header.has shared.modifier
  /-- All are static or none is. -/
  static : Modifiers.SameStatic (defs.map (·.header.modifiers))

theorem SameTraits.of_perm {defs' : List ClassDef} (h : SameTraits defs) (hperm : defs.Perm defs') :
    SameTraits defs' where
  traits := by simpa only [hperm.mem_iff] using h.traits
  static := (Modifiers.sameStatic_congr fun _ => (hperm.map _).mem_iff).1 h.static

/-- Definitions of one kind of class become one with the superclass that they share. -/
theorem exists_merged_of_resolveSuperclass (h : SameTraits (first :: rest))
    {superclass : Option Member}
    (hresolve : resolveSuperclass participants first.name (first :: rest) = .ok superclass) :
    ∃ merged, (mergeDefinitions settings participants first rest).value = some merged ∧
      merged.superclass = superclass := by
  obtain ⟨mods, hagree⟩ := agree_of_sameTraits participants h.traits h.static
  rw [hresolve] at hagree
  obtain ⟨body, merged, -, rfl, hvalue, -⟩ := mergeDefinitions_of_agree settings hagree
  exact ⟨_, hvalue, rfl⟩

/-- Definitions that share no superclass become no class, and only that is reported. -/
theorem mergeDefinitions_of_resolveSuperclass_eq_error (h : SameTraits (first :: rest))
    {c : Conflict}
    (hresolve : resolveSuperclass participants first.name (first :: rest) = .error c) :
    mergeDefinitions settings participants first rest = ⟨none, [.conflict c]⟩ := by
  obtain ⟨mods, hagree⟩ := agree_of_sameTraits participants h.traits h.static
  rw [hresolve] at hagree
  rw [mergeDefinitions, hagree]
  rfl

end Merged

end ClassDef

/-! ### Merged classes -/

open ClassDef

/-- The superclass of a class with two or more definitions of one kind. If they name at most one, it
is the first reference to it. If they name several, the class is dropped exactly if no participant
knows all of them and has one from which links lead to all others; else its superclass is the first
reference to such a one in the first such participant. Where links run in no circle there, that is
the only one, and it is the superclass whatever the order of the definitions. -/
theorem superclass_mergeClass (settings : Settings) {participants : List Snapshot} {name : Text}
    {defs : List ClassDef} {first second : ClassDef} {rest : List ClassDef}
    (hdefs : definitions participants name = defs) (hseveral : defs = first :: second :: rest)
    (hsame : SameTraits defs) :
    ((∀ a ∈ superclassNames defs, ∀ b ∈ superclassNames defs, a = b) →
      ∃ merged, (mergeClass settings participants name).value = some merged ∧
        merged.superclass = (superReferences defs).head?) ∧
    ((∃ a ∈ superclassNames defs, ∃ b ∈ superclassNames defs, a ≠ b) →
      (mergeClass settings participants name = ⟨none, [.conflict
          (.unrelatedSuperclasses first.name ((superclasses defs).map (·.name)))]⟩ ↔
        ¬ ∃ p ∈ participants, ∃ a, p.MostDerived (superclassNames defs) a) ∧
      ((∃ p ∈ participants, ∃ a, p.MostDerived (superclassNames defs) a) →
        ∃ p m merged, SettlesOn participants defs p m ∧
          (mergeClass settings participants name).value = some merged ∧
          merged.superclass = some m ∧
          (p.Acyclic → (∀ a, p.MostDerived (superclassNames defs) a → a = m.name) ∧
            ∀ first' rest', defs.Perm (first' :: rest') → ∃ merged',
              (mergeDefinitions settings participants first' rest').value = some merged' ∧
                merged'.superclass.map (·.name) = some m.name))) := by
  rw [hseveral] at hdefs
  rw [mergeClass_eq_mergeDefinitions hdefs]
  subst hseveral
  refine ⟨fun heq => ?single, fun hne => ⟨⟨fun hdropped hrelated => ?notDropped,
    fun hunrelated => ?dropped⟩, fun hrelated => ?chosen⟩⟩
  case single =>
    exact exists_merged_of_resolveSuperclass hsame (resolveSuperclass_of_eq first.name heq)
  case notDropped =>
    obtain ⟨p, m, -, hresolve⟩ := exists_settlesOn first.name hne hrelated
    obtain ⟨merged, hvalue, -⟩ : ∃ merged,
        (mergeDefinitions settings participants first (second :: rest)).value = some merged ∧ _ :=
      exists_merged_of_resolveSuperclass hsame hresolve
    rw [hdropped] at hvalue
    cases hvalue
  case dropped =>
    exact mergeDefinitions_of_resolveSuperclass_eq_error hsame
      (resolveSuperclass_eq_error first.name hne fun p hp a ha => hunrelated ⟨p, hp, a, ha⟩)
  case chosen =>
    obtain ⟨p, m, hsettles, hresolve⟩ := exists_settlesOn first.name hne hrelated
    obtain ⟨merged, hvalue, hsuper⟩ := exists_merged_of_resolveSuperclass hsame hresolve
    refine ⟨p, m, merged, hsettles, hvalue, hsuper, fun hacyclic =>
      ⟨fun a ha => ha.unique hacyclic hsettles.mostDerived, fun first' rest' hperm => ?_⟩⟩
    have hnames := mem_superclassNames_perm hperm
    simp only [hnames, Snapshot.mostDerived_congr hnames] at hne hrelated
    obtain ⟨p', m', hsettles', hresolve'⟩ := exists_settlesOn first'.name hne hrelated
    obtain ⟨merged', hvalue', hsuper'⟩ :=
      exists_merged_of_resolveSuperclass (hsame.of_perm hperm) hresolve'
    refine ⟨merged', hvalue', ?_⟩
    rw [hsuper', Option.map_some, hsettles.name_eq_of_perm hsettles' hperm hacyclic]

/-- A class with a superclass. -/
def classExtending (name super : String) : ClassDef :=
  { ClassDef.ofName name.toList with superclass := some (.typeRef .superclass super.toList) }

open Merge (classesExtending) in
/-- Three sources that name different superclasses of `a.E`, of which only the last one knows how
they are related. -/
def relatedSources : List Snapshot :=
  [classesExtending [("a.E", some "a.B")], classesExtending [("a.E", some "a.C")],
    classesExtending [("a.E", some "a.D"), ("a.B", none), ("a.C", some "a.B"),
      ("a.D", some "a.C")]]

/-- The class keeps the superclass that extends the others, in either order of its definitions. -/
theorem superclass_relatedSources :
    definitions relatedSources "a.E".toList =
        [classExtending "a.E" "a.B", classExtending "a.E" "a.C", classExtending "a.E" "a.D"] ∧
      (∃ merged, (mergeClass {} relatedSources "a.E".toList).value = some merged ∧
        merged.superclass.map (·.name) = some "a.D".toList) ∧
      ∃ merged, (mergeDefinitions {} relatedSources (classExtending "a.E" "a.D")
          [classExtending "a.E" "a.C", classExtending "a.E" "a.B"]).value = some merged ∧
        merged.superclass.map (·.name) = some "a.D".toList := by
  have hdefs : definitions relatedSources "a.E".toList =
      [classExtending "a.E" "a.B", classExtending "a.E" "a.C", classExtending "a.E" "a.D"] := by
    decide +kernel
  have hsame : SameTraits
      [classExtending "a.E" "a.B", classExtending "a.E" "a.C", classExtending "a.E" "a.D"] :=
    ⟨fun shared => by cases shared <;> decide, by unfold Modifiers.SameStatic; decide⟩
  obtain ⟨-, hrelated⟩ := (superclass_mergeClass {} hdefs rfl hsame).2 (by decide)
  obtain ⟨p, m, merged, hsettles, hvalue, hsuper, hunique⟩ := hrelated (by decide +kernel)
  have hp : relatedSources.getLast? = some p := by
    rw [← hsettles.participant]
    decide +kernel
  have hacyclic : p.Acyclic := by
    have hfalls : ∀ q ∈ relatedSources.getLast?, ∀ e ∈ (Hierarchy.ofSnapshot q).links,
        (e.2.map Char.toNat).sum < (e.1.map Char.toNat).sum := by
      decide +kernel
    exact Snapshot.acyclic_of_rank (fun t => (t.map Char.toNat).sum) (hfalls p hp)
  have hderived : ∀ q ∈ relatedSources.getLast?, q.MostDerived (superclassNames
      [classExtending "a.E" "a.B", classExtending "a.E" "a.C", classExtending "a.E" "a.D"])
      "a.D".toList := by
    decide +kernel
  obtain ⟨honly, horders⟩ := hunique hacyclic
  have hname : m.name = "a.D".toList := (honly _ (hderived p hp)).symm
  obtain ⟨merged', hvalue', hsuper'⟩ := horders _ _ (List.reverse_perm _).symm
  exact ⟨hdefs, ⟨merged, hvalue, by rw [hsuper, Option.map_some, hname]⟩,
    merged', hvalue', by rw [hsuper', hname]⟩

end ApiSurface
