import ApiSurface.Proofs.Merge.Superclass
import Mathlib.Data.Set.Card
import Mathlib.Order.Preorder.Chain

/-!
# Subclasses

One class is found to extend another one exactly if it is another class and one or more superclass
links lead to it. Links in a circle are followed like all others, but no class is found to extend
itself. What holds of every snapshot is collected in `Snapshot.SubclassOrder`: without circles the
relation is a strict order, and from a class that is listed under its name only one link starts,
so that any two classes that it extends extend one another (`Extends.transGen_total`).
-/

namespace ApiSurface

/-! ### Names of a hierarchy -/

namespace Hierarchy

variable {h : Hierarchy}

/-- The names of the index are those at either end of a link. -/
def Covered (h : Hierarchy) : Prop :=
  ∀ name, name ∈ h.index.names ↔ ∃ other, (name, other) ∈ h.links ∨ (other, name) ∈ h.links

theorem mem_index_link {sub super name : Text} :
    name ∈ (h.link sub super).index.names ↔ name ∈ h.index.names ∨ name = sub ∨ name = super := by
  show name ∈ ((h.index.enter sub).enter super).names ↔ _
  rw [NameTable.mem_enter_iff, NameTable.mem_enter_iff, or_assoc]

/-- A link that is added brings its own ends into the index, and no other names. -/
theorem Covered.link (hcovered : h.Covered) (sub super : Text) : (h.link sub super).Covered := by
  intro name
  rw [mem_index_link, hcovered name, links_link]
  simp only [List.mem_append, List.mem_singleton, Prod.mk.injEq]
  constructor
  · rintro (⟨other, hlink | hlink⟩ | rfl | rfl)
    · exact ⟨other, .inl (.inl hlink)⟩
    · exact ⟨other, .inr (.inl hlink)⟩
    · exact ⟨super, .inl (.inr ⟨rfl, rfl⟩)⟩
    · exact ⟨sub, .inr (.inr ⟨rfl, rfl⟩)⟩
  · rintro ⟨other, (hlink | ⟨rfl, rfl⟩) | (hlink | ⟨rfl, rfl⟩)⟩
    · exact .inl ⟨other, .inl hlink⟩
    · exact .inr (.inl rfl)
    · exact .inl ⟨other, .inr hlink⟩
    · exact .inr (.inr rfl)

theorem Covered.enterClass (hcovered : h.Covered) (c : ClassDef) : (h.enterClass c).Covered := by
  unfold Hierarchy.enterClass
  split
  next => exact hcovered
  next m _ => exact hcovered.link c.name m.name

/-- Whatever classes are entered, the names are those at the ends of links. -/
theorem Covered.foldl_enterClass (hcovered : h.Covered) (l : List ClassDef) :
    (l.foldl Hierarchy.enterClass h).Covered := by
  induction l generalizing h with
  | nil => exact hcovered
  | cons c l ih => exact ih (hcovered.enterClass c)

theorem covered_ofSnapshot (s : Snapshot) : (ofSnapshot s).Covered :=
  Covered.foldl_enterClass (h := empty) (by simp [Covered, empty, links, NameTable.empty]) s.values

end Hierarchy

namespace Snapshot

open Relation (TransGen ReflTransGen)

variable {s : Snapshot} {a b sub : Text}

/-! ### Links -/

/-- A link leads from the name of a class to the name of its superclass. -/
theorem extends_iff : s.Extends a b ↔
    ∃ c ∈ s.values, c.name = a ∧ ∃ m, c.superclass = some m ∧ m.name = b := by
  simp only [Extends, Hierarchy.links_ofSnapshot, List.mem_filterMap, Option.map_eq_some_iff,
    Prod.mk.injEq]
  refine exists_congr fun c => and_congr_right fun _ => ?_
  constructor
  · rintro ⟨m, hm, hname, hsuper⟩
    exact ⟨hname, m, hm, hsuper⟩
  · rintro ⟨hname, m, hm, hsuper⟩
    exact ⟨m, hm, hname, hsuper⟩

/-- Where classes are listed under their names, one link at most starts at each name. -/
theorem Extends.rightUnique (hs : s.Named) : Relator.RightUnique s.Extends := by
  intro a b b' hb hb'
  obtain ⟨c, hc, hname, m, hm, rfl⟩ := extends_iff.1 hb
  obtain ⟨c', hc', hname', m', hm', rfl⟩ := extends_iff.1 hb'
  have hget : ∀ d ∈ s.values, d.name = a → s.get? a = some d := by
    intro d hd hda
    obtain ⟨k, hk⟩ := mem_values_iff.1 hd
    rwa [← name_of_get? hs hk, hda] at hk
  obtain rfl : c = c' := Option.some.inj ((hget c hc hname).symm.trans (hget c' hc' hname'))
  rw [Option.some.inj (hm.symm.trans hm')]

/-- Of two names that links lead to from a third one, links lead from one to the other. -/
theorem Extends.transGen_total (hs : s.Named) (ha : TransGen s.Extends sub a)
    (hb : TransGen s.Extends sub b) (hne : a ≠ b) :
    TransGen s.Extends a b ∨ TransGen s.Extends b a := by
  have hrest : ReflTransGen s.Extends a b ∨ ReflTransGen s.Extends b a :=
    ReflTransGen.total_of_right_unique (Extends.rightUnique hs) ha.to_reflTransGen
      hb.to_reflTransGen
  rcases hrest with h | h
  · exact .inl ((Relation.reflTransGen_iff_eq_or_transGen.1 h).resolve_left hne.symm)
  · exact .inr ((Relation.reflTransGen_iff_eq_or_transGen.1 h).resolve_left hne)

/-! ### Nodes -/

/-- As many nodes are counted as there are names at either end of a link. -/
theorem nodeCount_eq_ncard : (Hierarchy.ofSnapshot s).nodeCount =
    {name | ∃ other, s.Extends name other ∨ s.Extends other name}.ncard := by
  have hnodes : {name | ∃ other, s.Extends name other ∨ s.Extends other name} =
      ((Hierarchy.ofSnapshot s).index.names.toFinset : Set Text) := by
    ext name
    rw [List.coe_toFinset, Set.mem_ofPred_eq, Set.mem_ofPred_eq,
      Hierarchy.covered_ofSnapshot s name]
    rfl
  rw [hnodes, Set.ncard_coe_finset,
    List.toFinset_card_of_nodup (Hierarchy.ofSnapshot s).index.nodup]
  rfl

/-! ### The order of classes -/

/-- One class is found to extend another one in a snapshot. -/
def IsSubclass (s : Snapshot) (sub super : Text) : Prop :=
  (Hierarchy.ofSnapshot s).isSubclass sub super = true

instance (s : Snapshot) (sub super : Text) : Decidable (s.IsSubclass sub super) :=
  inferInstanceAs (Decidable (_ = true))

/-- Which classes of a snapshot are found to extend which others. -/
structure SubclassOrder (s : Snapshot) : Prop where
  /-- A class extends those others that one or more links lead to. -/
  closure : ∀ sub super, s.IsSubclass sub super ↔ sub ≠ super ∧ TransGen s.Extends sub super
  /-- A link leads from the name of a class to the name of its superclass. -/
  link : ∀ sub super, s.Extends sub super ↔
    ∃ c ∈ s.values, c.name = sub ∧ ∃ m, c.superclass = some m ∧ m.name = super
  /-- Without links in a circle the relation is a strict order. -/
  strict : s.Acyclic → IsStrictOrder Text s.IsSubclass
  /-- Of two classes that a third one extends, one extends the other. -/
  chain : s.Named → ∀ sub, IsChain s.IsSubclass {super | s.IsSubclass sub super}
  /-- As many nodes are counted as there are names that extend others or are extended. -/
  nodes : (Hierarchy.ofSnapshot s).nodeCount =
    {name | ∃ other, s.Extends name other ∨ s.Extends other name}.ncard

theorem isStrictOrder_isSubclass (h : s.Acyclic) : IsStrictOrder Text s.IsSubclass where
  irrefl _ hself := (isSubclass_iff.1 hself).1 rfl
  trans a _ c hab hbc := by
    have hac : TransGen s.Extends a c := (isSubclass_iff.1 hab).2.trans (isSubclass_iff.1 hbc).2
    refine isSubclass_iff.2 ⟨?_, hac⟩
    rintro rfl
    exact h a hac

theorem isChain_isSubclass (hs : s.Named) (sub : Text) :
    IsChain s.IsSubclass {super | s.IsSubclass sub super} := by
  intro a ha b hb hne
  have hleads := Extends.transGen_total hs (isSubclass_iff.1 ha).2 (isSubclass_iff.1 hb).2 hne
  exact hleads.imp (fun h => isSubclass_iff.2 ⟨hne, h⟩) fun h => isSubclass_iff.2 ⟨hne.symm, h⟩

/-- The subclasses of every snapshot are in order, whether or not links run in a circle. -/
theorem subclassOrder (s : Snapshot) : s.SubclassOrder where
  closure _ _ := isSubclass_iff
  link _ _ := extends_iff
  strict := isStrictOrder_isSubclass
  chain := isChain_isSubclass
  nodes := nodeCount_eq_ncard

open Merge (layers) in
/-- The last of three layers extends the other two, of which one extends the other. -/
theorem subclassOrder_layers :
    IsStrictOrder Text layers.IsSubclass ∧ layers.IsSubclass "a.C".toList "a.A".toList ∧
      (layers.IsSubclass "a.A".toList "a.B".toList ∨
        layers.IsSubclass "a.B".toList "a.A".toList) ∧
      {name | ∃ other, layers.Extends name other ∨ layers.Extends other name}.ncard = 3 := by
  have hacyclic : layers.Acyclic :=
    acyclic_of_rank (fun t => (t.map Char.toNat).sum) (by decide +kernel)
  have hlink : ∀ sub super, layers.IsSubclass sub super → TransGen layers.Extends sub super :=
    fun sub super h => (((subclassOrder layers).closure sub super).1 h).2
  have hab : layers.IsSubclass "a.B".toList "a.A".toList := by decide +kernel
  have hbc : layers.IsSubclass "a.C".toList "a.B".toList := by decide +kernel
  have hac : layers.IsSubclass "a.C".toList "a.A".toList :=
    ((subclassOrder layers).closure _ _).2
      ⟨by decide, (hlink _ _ hbc).trans (hlink _ _ hab)⟩
  refine ⟨(subclassOrder layers).strict hacyclic, hac,
    (subclassOrder layers).chain (by decide +kernel) "a.C".toList hac hbc (by decide), ?_⟩
  rw [← (subclassOrder layers).nodes]
  decide +kernel

open Merge (classesExtending) in
/-- Classes that extend one another are not found to extend themselves. -/
example : ∀ s ∈ [classesExtending [("a.A", some "a.B"), ("a.B", some "a.A")]],
    s.IsSubclass "a.A".toList "a.B".toList ∧ s.IsSubclass "a.B".toList "a.A".toList ∧
      ¬ s.IsSubclass "a.A".toList "a.A".toList := by
  decide +kernel

end Snapshot

end ApiSurface
