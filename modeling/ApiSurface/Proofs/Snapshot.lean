import ApiSurface.Snapshot

/-!
# Snapshots made of lists of classes

A snapshot that lists every class under its own name is made of the list of its classes
(`Snapshot.ofClasses_values`). The package of a class never has the name of the class
(`packageOf_ne`).
-/

namespace ApiSurface

/-- A package is not named as a class in it. -/
theorem packageOf_ne {name : Text} (h : packageOf name ≠ []) : packageOf name ≠ name := by
  have houter : (((Text.cutFirst? '$' name).map (·.1)).getD name).length ≤ name.length := by
    rcases hcut : Text.cutFirst? '$' name with _ | ⟨a, b⟩
    · exact Nat.le_refl _
    · obtain ⟨rfl, -⟩ := Text.cutFirst?_eq_some_iff.1 hcut
      simp
  intro heq
  unfold packageOf at h heq
  generalize ((Text.cutFirst? '$' name).map (·.1)).getD name = outer at h heq houter
  rcases hcut : Text.cutLast? (· == '.') outer with _ | ⟨a, b⟩
  · simp [hcut] at h
  · obtain ⟨c, rfl, -⟩ := Text.eq_of_cutLast?_eq_some hcut
    simp only [hcut, Option.map_some, Option.getD_some] at heq
    subst heq
    simp only [List.length_append, List.length_cons] at houter
    omega

namespace Snapshot

theorem of_get?_ofClasses {l : List ClassDef} {name : Text} {c : ClassDef}
    (h : (ofClasses l).get? name = some c) : c ∈ l ∧ c.name = name := by
  have hstep : ∀ (s : Snapshot) (d : ClassDef), (s.add d).get? name = some c →
      s.get? name = some c ∨ (name = d.name ∧ d = c) := fun s d => SortedMap.of_get?_insert
  rcases SortedMap.of_get?_foldl hstep h with hempty | ⟨_, hmem, hname, rfl⟩
  · cases hempty
  · exact ⟨hmem, hname.symm⟩

theorem name_of_get? {s : Snapshot} (hs : s.Named) {name : Text} {c : ClassDef}
    (h : s.get? name = some c) : c.name = name :=
  (hs _ (SortedMap.mem_entries_of_get? h)).symm

theorem named_ofClasses (l : List ClassDef) : (ofClasses l).Named :=
  fun _ he => (of_get?_ofClasses (SortedMap.get?_eq_some_iff.2 he)).2.symm

/-- A class is added under its own name. -/
theorem Named.add {s : Snapshot} (hs : s.Named) (c : ClassDef) : (s.add c).Named := by
  intro e he
  rcases SortedMap.of_get?_insert (SortedMap.get?_eq_some_iff.2 he) with hold | ⟨hname, hc⟩
  · exact (name_of_get? hs hold).symm
  · rw [hname, hc]

theorem mem_values_iff {s : Snapshot} {c : ClassDef} :
    c ∈ s.values ↔ ∃ name, s.get? name = some c := by
  rw [SortedMap.values, List.mem_map]
  constructor
  · rintro ⟨e, he, rfl⟩
    exact ⟨e.1, SortedMap.get?_eq_some_iff.2 he⟩
  · rintro ⟨name, hget⟩
    exact ⟨(name, c), SortedMap.get?_eq_some_iff.1 hget, rfl⟩

/-- A name of a listed class is one under which a class is listed. -/
theorem exists_mem_values_iff {s : Snapshot} (hs : s.Named) (p : Text → Prop) :
    (∃ c ∈ s.values, p c.name) ↔ ∃ name, s.contains name = true ∧ p name := by
  constructor
  · rintro ⟨c, hc, hp⟩
    obtain ⟨name, hget⟩ := mem_values_iff.1 hc
    rw [name_of_get? hs hget] at hp
    exact ⟨name, Option.isSome_iff_exists.2 ⟨c, hget⟩, hp⟩
  · rintro ⟨name, hcontains, hp⟩
    obtain ⟨c, hget⟩ := Option.isSome_iff_exists.1 hcontains
    exact ⟨c, mem_values_iff.2 ⟨name, hget⟩, (name_of_get? hs hget).symm ▸ hp⟩

theorem get?_ofClasses_ne_none {l : List ClassDef} {c : ClassDef} (h : c ∈ l) :
    (ofClasses l).get? c.name ≠ none := by
  have hadd : ∀ (s : Snapshot) (d : ClassDef), s.get? c.name ≠ none ∨ c.name = d.name →
      (s.add d).get? c.name ≠ none := fun s d => SortedMap.get?_insert_ne_none d
  exact SortedMap.get?_foldl_ne_none (fun s d hget => hadd s d (.inl hget))
    (fun s d hname => hadd s d (.inr hname)) (.inr ⟨c, h, rfl⟩)

theorem get?_ofClasses_singleton (c : ClassDef) (name : Text) :
    (ofClasses [c]).get? name = if c.name = name then some c else none := by
  show ((∅ : Snapshot).insert c.name c).get? name = _
  rw [SortedMap.get?_insert, SortedMap.get?_empty]
  simp only [eq_comm]

/-- A snapshot that lists classes under their names is made of the list of its classes. -/
theorem ofClasses_values {s : Snapshot} (h : s.Named) : ofClasses s.values = s := by
  have hadd : ∀ l : List (Text × ClassDef), (∀ e ∈ l, e.1 = e.2.name) → ∀ s' : Snapshot,
      (l.map (·.2)).foldl add s' = l.foldl (fun s e => s.insert e.1 e.2) s' := by
    intro l hl
    induction l with
    | nil => exact fun _ => rfl
    | cons e l ih =>
      intro s'
      obtain ⟨he, hl⟩ := List.forall_mem_cons.1 hl
      rw [List.map_cons, List.foldl_cons, List.foldl_cons, ih hl, add, he]
  calc ofClasses s.values = SortedMap.ofList s.entries := hadd s.entries h ∅
    _ = s := SortedMap.ofList_entries s

end Snapshot

end ApiSurface
