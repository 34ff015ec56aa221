import ApiSurface.Proofs.Merge.Copies

/-!
# The access that merged modifiers give

Visibility flags stand for four kinds of access, one inside the other. Merged modifiers carry at
most one visibility flag (`oneVisibility_joined`) and give the widest access that one of the sets
gives (`widest_access_joined`). `merge_of_regrouped` says in what the list of the sets does not
matter: it may be written in another order, with repetitions, and be merged in parts.
-/

namespace ApiSurface

/-- From where an entity may be used, from the narrowest to the widest. -/
inductive Access where
  /-- From its class. -/
  | priv
  /-- From its package; no flag stands for it. -/
  | package
  /-- From its package and from subclasses. -/
  | prot
  /-- From everywhere. -/
  | pub
  deriving DecidableEq

/-- How many kinds of access are narrower. -/
def Access.width : Access → Nat
  | priv => 0
  | package => 1
  | prot => 2
  | pub => 3

instance : LE Access := ⟨fun a b => a.width ≤ b.width⟩

instance (a b : Access) : Decidable (a ≤ b) := inferInstanceAs (Decidable (a.width ≤ b.width))

namespace Modifiers

/-- The access that modifiers give; with several visibility flags the widest. -/
def access (s : Modifiers) : Access :=
  if s.has .pub then .pub
  else if s.has .prot then .prot
  else if s.has .priv then .priv
  else .package

variable {kind : Kind} {all : List Modifiers}

theorem oneVisibility_joined (hall : all ≠ []) : (joined kind all).OneVisibility := by
  simp only [OneVisibility, has_joined kind hall]
  cases anyHas all .pub <;> cases anyHas all .prot <;> simp

/-- Merged modifiers are public if one set is, else protected if one is, and private only if all
are. -/
theorem access_joined (hall : all ≠ []) : (joined kind all).access =
    if anyHas all .pub then .pub
    else if anyHas all .prot then .prot
    else if allHave all .priv then .priv
    else .package := by
  simp only [access, has_joined kind hall]
  cases anyHas all .pub <;> cases anyHas all .prot <;> simp

/-- Merged modifiers give the widest access that one of the sets gives. -/
theorem widest_access_joined (hall : all ≠ []) :
    (∃ s ∈ all, s.access = (joined kind all).access) ∧
      ∀ s ∈ all, s.access ≤ (joined kind all).access := by
  have hnot : ∀ {m : Modifier}, anyHas all m = false → ∀ s ∈ all, s.has m = false := by
    intro m h s hs
    simpa using List.any_eq_false.1 h s hs
  rw [access_joined hall]
  rcases hpub : anyHas all .pub with _ | _
  · rcases hprot : anyHas all .prot with _ | _
    · have hneither : ∀ s ∈ all, s.access = if s.has .priv then .priv else .package := by
        intro s hs
        simp [access, hnot hpub s hs, hnot hprot s hs]
      rcases hpriv : allHave all .priv with _ | _
      · obtain ⟨s, hs, hspriv⟩ := List.all_eq_false.1 hpriv
        refine ⟨⟨s, hs, ?_⟩, fun t ht => ?_⟩
        · simp [hneither s hs, hspriv]
        · rw [hneither t ht]
          split <;> decide
      · have hprivate : ∀ s ∈ all, s.access = .priv := by
          intro s hs
          rw [hneither s hs, if_pos (List.all_eq_true.1 hpriv s hs)]
        obtain ⟨s, hs⟩ := List.exists_mem_of_ne_nil all hall
        refine ⟨⟨s, hs, hprivate s hs⟩, fun t ht => ?_⟩
        rw [hprivate t ht]
        decide
    · obtain ⟨s, hs, hsprot⟩ := List.any_eq_true.1 hprot
      refine ⟨⟨s, hs, ?_⟩, fun t ht => ?_⟩
      · simp [access, hnot hpub s hs, hsprot]
      · have hprotected : t.access ≤ .prot := by
          simp only [access, hnot hpub t ht]
          cases t.has .prot <;> cases t.has .priv <;> decide
        exact hprotected
  · obtain ⟨s, hs, hspub⟩ := List.any_eq_true.1 hpub
    refine ⟨⟨s, hs, ?_⟩, fun t _ => ?_⟩
    · simp [access, hspub]
    · show t.access ≤ .pub
      generalize t.access = a
      cases a <;> decide

/-- A set merged with itself is left alone exactly if it has at most one visibility flag. -/
theorem merge_self_iff {s : Modifiers} : merge kind [s, s] = some s ↔ s.OneVisibility := by
  constructor
  · intro h
    obtain ⟨hne, -, hs⟩ := merge_eq_some_iff.1 h
    rw [hs]
    exact oneVisibility_joined hne
  · intro h
    obtain ⟨mods, hmods, hself⟩ := merge_copies kind s 1
    exact hself h ▸ hmods

/-- Merged modifiers do not depend on the order of the sets, nor on how often each comes up, nor on
whether parts are merged first. There are none exactly if two sets differ on `static`, in
particular if there are none for a part. They give the widest access of the sets, with at most one
visibility flag; two equal sets with at most one are left alone. -/
theorem merge_of_regrouped (kind : Kind) {l l' : List Modifiers} (hl : l ≠ []) (hl' : l' ≠ []) :
    (∀ p, p.Perm l → merge kind p = merge kind l) ∧
    (∀ p, (∀ s, s ∈ p ↔ s ∈ l) → merge kind p = merge kind l) ∧
    (∀ mods mods', merge kind l = some mods → merge kind l' = some mods' →
      merge kind (l ++ l') = merge kind [mods, mods']) ∧
    (merge kind (l ++ l') = Option.none ↔
      ∃ s ∈ l ++ l', ∃ t ∈ l ++ l', s.has .static ≠ t.has .static) ∧
    (merge kind l = Option.none ∨ merge kind l' = Option.none →
      merge kind (l ++ l') = Option.none) ∧
    (∀ mods, merge kind l = some mods → mods.OneVisibility ∧
      (∃ s ∈ l, s.access = mods.access) ∧ ∀ s ∈ l, s.access ≤ mods.access) ∧
    ∀ s : Modifiers, merge kind [s, s] = some s ↔ s.OneVisibility := by
  have happend : l ++ l' ≠ [] := List.append_ne_nil_of_left_ne_nil hl l'
  refine ⟨fun p hp => merge_perm kind hp, fun p hp => merge_congr kind hp,
    fun mods mods' => merge_append, merge_eq_none_iff kind happend, fun hpart => ?_,
    fun mods hmods => ?_, fun s => merge_self_iff⟩
  · rw [merge_eq_none_iff kind hl, merge_eq_none_iff kind hl'] at hpart
    rw [merge_eq_none_iff kind happend]
    rcases hpart with ⟨s, hs, t, ht, hstatic⟩ | ⟨s, hs, t, ht, hstatic⟩
    · exact ⟨s, List.mem_append_left l' hs, t, List.mem_append_left l' ht, hstatic⟩
    · exact ⟨s, List.mem_append_right l hs, t, List.mem_append_right l ht, hstatic⟩
  · obtain ⟨-, -, rfl⟩ := merge_eq_some_iff.1 hmods
    exact ⟨oneVisibility_joined hl, widest_access_joined hl⟩

/-- A protected final method and a private one are merged with one that has two visibility flags and
a flag that stands for no modifier. -/
theorem merge_of_regrouped_methods :
    merge .method [.ofList [.prot, .final], .ofList [.priv]] = some (.ofList [.prot]) ∧
    merge .method [⟨0x8003#32⟩] = some ⟨0x8001#32⟩ ∧
    merge .method ([.ofList [.prot, .final], .ofList [.priv]] ++ [⟨0x8003#32⟩]) =
      some ⟨0x8001#32⟩ ∧
    merge .method [.ofList [.prot], ⟨0x8001#32⟩] = some ⟨0x8001#32⟩ := by
  have hl : [ofList [.prot, .final], ofList [.priv]] ≠ [] := List.cons_ne_nil _ _
  have hl' : [(⟨0x8003#32⟩ : Modifiers)] ≠ [] := List.cons_ne_nil _ _
  obtain ⟨-, -, hparts, -⟩ := merge_of_regrouped .method hl hl'
  have hleft : merge .method [.ofList [.prot, .final], .ofList [.priv]] =
      some (.ofList [.prot]) := by decide
  have hright : merge .method [⟨0x8003#32⟩] = some ⟨0x8001#32⟩ := by decide
  have hboth : merge .method [.ofList [.prot], ⟨0x8001#32⟩] = some ⟨0x8001#32⟩ := by decide
  exact ⟨hleft, hright, (hparts _ _ hleft hright).trans hboth, hboth⟩

end Modifiers

end ApiSurface
