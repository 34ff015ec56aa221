import ApiSurface.Proofs.Merge.Nested

/-!
# Snapshots without exceptions and constants

What is done to a merged snapshot as a whole goes by nothing that `Snapshot.outline` leaves out, the
exceptions and the constants of constructors, methods and fields: nested classes are reconciled in
the outline as they are in the snapshot itself (`Snapshot.outline_registerNested`), and the same
packages have the name of a class (`Merge.packageCollisions_outline`).
-/

namespace ApiSurface

namespace SortedMap

variable {α : Type _} {β γ : Type _} [Ord α]

/-- The map with every value changed. -/
def mapValues (f : β → γ) (m : SortedMap α β) : SortedMap α γ where
  entries := m.entries.map fun e => (e.1, f e.2)
  sorted := by
    rw [List.map_map]
    exact m.sorted

@[simp] theorem keys_mapValues (f : β → γ) (m : SortedMap α β) : (m.mapValues f).keys = m.keys := by
  rw [keys, mapValues, List.map_map]
  rfl

@[simp] theorem values_mapValues (f : β → γ) (m : SortedMap α β) :
    (m.mapValues f).values = m.values.map f := by
  rw [values, mapValues, List.map_map, values, List.map_map]
  rfl

@[simp] theorem get?_mapValues [DecidableEq α] (f : β → γ) (m : SortedMap α β) (k : α) :
    (m.mapValues f).get? k = (m.get? k).map f := by
  rw [get?, mapValues, List.find?_map, Option.map_map, get?, Option.map_map]
  rfl

end SortedMap

/-- A member without its exceptions and its constant. -/
def Member.outline (m : Member) : Member := { m with throws := [], constant := none }

/-- A class with the exceptions and constants of its constructors, methods and fields left out. -/
def ClassDef.outline (c : ClassDef) : ClassDef :=
  { c with
    constructors := c.constructors.map Member.outline
    methods := c.methods.map Member.outline
    fields := c.fields.map Member.outline }

namespace Snapshot

/-- A snapshot with the exceptions and constants of constructors, methods and fields left out. -/
def outline (s : Snapshot) : Snapshot := s.mapValues ClassDef.outline

@[simp] theorem get?_outline (s : Snapshot) (name : Text) :
    s.outline.get? name = (s.get? name).map ClassDef.outline := SortedMap.get?_mapValues _ _ _

@[simp] theorem values_outline (s : Snapshot) : s.outline.values = s.values.map ClassDef.outline :=
  SortedMap.values_mapValues _ _

theorem outline_ofClasses (l : List ClassDef) :
    (ofClasses l).outline = ofClasses (l.map ClassDef.outline) := by
  have hadd : ∀ (s : Snapshot) (c : ClassDef), s.outline.add c.outline = (s.add c).outline := by
    intro s c
    refine SortedMap.ext_get? fun name => ?_
    rw [add, add, SortedMap.get?_insert, get?_outline, get?_outline, SortedMap.get?_insert,
      apply_ite (Option.map ClassDef.outline)]
    rfl
  rw [ofClasses, ofClasses, List.foldl_map]
  exact (List.foldl_hom outline hadd).symm

/-! ### Nested classes -/

variable (s : Snapshot) (origins : Origins)

/-- The search for a twin goes by names and superclasses. -/
theorem twinFrom?_outline (simple : Text) (visited : List Text) (c : ClassDef) :
    s.outline.twinFrom? simple visited c.outline =
      (s.twinFrom? simple visited c).map ClassDef.outline := by
  rw [twinFrom?_eq, twinFrom?_eq, show nextName? visited c.outline = nextName? visited c from rfl]
  rcases hnext : nextName? visited c with _ | a
  · rfl
  · rw [Option.bind_some, Option.bind_some, get?_outline, get?_outline]
    rcases s.get? (a ++ '$' :: simple) with _ | twin
    · rcases hget : s.get? a with _ | next
      · rfl
      · exact twinFrom?_outline simple (a :: visited) next
    · rfl
termination_by (s.unvisited visited).length
decreasing_by
  exact length_unvisited_cons_lt (SortedMap.mem_keys_iff.2 (by rw [hget]; rfl))
    (not_mem_of_nextName? hnext)

theorem fate_outline (c : ClassDef) : s.outline.fate origins c.outline = s.fate origins c := by
  rw [fate, fate, show c.outline.enclosing? = c.enclosing? from rfl]
  rcases c.enclosing? with _ | outerName
  · rfl
  · simp only [get?_outline]
    rcases s.get? outerName with _ | outer
    · rfl
    · have htwin : s.outline.inheritedTwin? outer.outline c.outline.simpleName =
          (s.inheritedTwin? outer c.simpleName).map ClassDef.outline := twinFrom?_outline s _ _ _
      simp only [Option.map_some, htwin]
      rcases s.inheritedTwin? outer c.simpleName with _ | twin <;> rfl

theorem references_outline (outer : Text) :
    s.outline.references origins outer = s.references origins outer := by
  rw [references, values_outline, List.filter_map, List.map_map, references]
  exact congrArg (List.map (innerReference outer))
    (List.filter_congr fun c _ => congrArg (decide <| · = _) (fate_outline s origins c))

theorem duplicates_outline : s.outline.duplicates origins = s.duplicates origins := by
  rw [duplicates, values_outline, List.filter_map, List.map_map, duplicates]
  exact congrArg (List.map ClassDef.name)
    (List.filter_congr fun c _ => congrArg (decide <| · = _) (fate_outline s origins c))

/-- Nested classes are reconciled by nothing that is left out. -/
theorem outline_registerNested :
    (s.registerNested origins).outline = s.outline.registerNested origins := by
  refine SortedMap.ext_get? fun name => ?_
  rw [get?_outline, get?_registerNested_of_keys, get?_registerNested_of_keys, duplicates_outline,
    references_outline, get?_outline]
  split
  next => rfl
  next =>
    rw [Option.map_map, Option.map_map]
    rfl

end Snapshot

/-- The same packages have the name of a class. -/
theorem Merge.packageCollisions_outline (s : Snapshot) :
    packageCollisions s.outline = packageCollisions s := by
  have hpackages : s.outline.packages = s.packages := by
    rw [Snapshot.packages, Snapshot.outline, SortedMap.keys_mapValues, Snapshot.packages]
  have hcontains : s.outline.contains = s.contains := by
    funext name
    rw [SortedMap.contains, Snapshot.get?_outline, Option.isSome_map, SortedMap.contains]
  rw [packageCollisions, hpackages, hcontains, packageCollisions]

end ApiSurface
