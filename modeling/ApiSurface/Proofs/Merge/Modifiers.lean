import Mathlib.Data.List.Perm.Basic
import Mathlib.Tactic.SplitIfs
import ApiSurface.Member
import ApiSurface.Merge.Modifiers

/-!
# Merged modifiers, flag by flag

Sets of modifiers that agree on `static` are always merged (`merge_eq_some_iff`), to the modifiers
that `has_joined` lists. Neither their order nor how often each comes up matters (`merge_congr`),
and they may be merged in parts (`merge_append`). A flag of the merged set is a flag of one of them
(`exists_of_getLsbD_joined`), so the merged modifiers of entities of a kind are modifiers of that
kind (`isSubset_joined`) and need no `abstract` to be added (`closeModifiers_joined`): they are set
as they are (`setModifiers?_joined`).
-/

namespace ApiSurface

namespace Modifiers

/-- Any two of the sets agree on `static`. -/
def SameStatic (all : List Modifiers) : Prop :=
  ∀ s ∈ all, ∀ t ∈ all, s.has .static = t.has .static

/-- What sets that agree on `static` are merged to. -/
def joined (kind : Kind) (all : List Modifiers) : Modifiers :=
  (((unionAll all).diff visibility).union (widestVisibility all)
    |>.eraseUnless (allHave all .final) .final)
    |>.eraseUnless (kind ≠ .method || allHave all .abstract) .abstract

theorem merge_eq_some_iff {kind : Kind} {all : List Modifiers} {mods : Modifiers} :
    merge kind all = some mods ↔ all ≠ [] ∧ SameStatic all ∧ mods = joined kind all := by
  rcases all with _ | ⟨first, rest⟩
  · simp [merge]
  · have hstatic : rest.any (fun s => s.has .static ≠ first.has .static) = false ↔
        SameStatic (first :: rest) := by
      simp only [List.any_eq_false, decide_eq_true_eq, not_not]
      constructor
      · intro h
        have hfirst : ∀ s ∈ first :: rest, s.has .static = first.has .static := by
          intro s hs
          rcases List.mem_cons.1 hs with rfl | hs
          · rfl
          · exact h s hs
        intro s hs t ht
        rw [hfirst s hs, hfirst t ht]
      · exact fun h s hs => h s (List.mem_cons_of_mem _ hs) first List.mem_cons_self
    rw [← hstatic]
    simp only [merge]
    split
    next h => simp only [h, reduceCtorEq, Bool.true_eq_false, false_and, and_false]
    next h =>
      rw [Option.some.injEq, eq_comm]
      simp only [h, ne_eq, reduceCtorEq, not_false_eq_true, true_and]
      rfl

/-! ### Flags -/

theorem getLsbD_foldl_union (all : List Modifiers) (s : Modifiers) (i : Nat) :
    (all.foldl union s).bits.getLsbD i =
      (s.bits.getLsbD i || all.any fun t => t.bits.getLsbD i) := by
  induction all generalizing s with
  | nil => simp
  | cons t all ih =>
    rw [List.foldl_cons, ih, union, BitVec.getLsbD_or, List.any_cons, Bool.or_assoc]

theorem getLsbD_unionAll (all : List Modifiers) (i : Nat) :
    (unionAll all).bits.getLsbD i = all.any fun t => t.bits.getLsbD i := by
  rw [unionAll, getLsbD_foldl_union]
  simp [none]

theorem has_unionAll (all : List Modifiers) (m : Modifier) :
    (unionAll all).has m = anyHas all m := getLsbD_unionAll all m.bitIndex

theorem getLsbD_eraseUnless (s : Modifiers) (keep : Bool) (m : Modifier) {i : Nat} (hi : i < 32) :
    (s.eraseUnless keep m).bits.getLsbD i =
      (s.bits.getLsbD i && (keep || !decide (m.bitIndex = i))) := by
  unfold eraseUnless
  split
  next h => simp [h]
  next h => simp [erase, h, hi, eq_comm (a := i)]

theorem has_eraseUnless (s : Modifiers) (keep : Bool) (m n : Modifier) :
    (s.eraseUnless keep m).has n = (s.has n && (keep || !decide (m = n))) := by
  rw [has, getLsbD_eraseUnless s keep m n.bitIndex_lt]
  simp only [Modifier.bitIndex_inj, has]

/-- What all sets have, some set has. -/
theorem anyHas_of_allHave {all : List Modifiers} (hall : all ≠ []) {m : Modifier}
    (h : allHave all m = true) : anyHas all m = true := by
  obtain ⟨s, rest, rfl⟩ := List.exists_cons_of_ne_nil hall
  exact List.any_eq_true.2 ⟨s, List.mem_cons_self, List.all_eq_true.1 h s List.mem_cons_self⟩

theorem has_widestVisibility (all : List Modifiers) (m : Modifier) :
    (widestVisibility all).has m =
      match m with
      | .pub => anyHas all .pub
      | .prot => !anyHas all .pub && anyHas all .prot
      | .priv => !anyHas all .pub && !anyHas all .prot && allHave all .priv
      | _ => false := by
  unfold widestVisibility
  split_ifs with hpub hprot hpriv <;> cases m <;> simp_all

/-- Which modifiers sets are merged to. -/
theorem has_joined (kind : Kind) {all : List Modifiers} (hall : all ≠ []) (m : Modifier) :
    (joined kind all).has m =
      match m with
      | .pub => anyHas all .pub
      | .prot => !anyHas all .pub && anyHas all .prot
      | .priv => !anyHas all .pub && !anyHas all .prot && allHave all .priv
      | .final => allHave all .final
      | .abstract => if kind = .method then allHave all .abstract else anyHas all .abstract
      | m => anyHas all m := by
  have hmask : ∀ m, visibility.has m = decide (m = .pub ∨ m = .prot ∨ m = .priv) := by
    intro m
    cases m <;> decide
  have hsome := anyHas_of_allHave hall (m := m)
  simp only [joined, has_eraseUnless, has_union, has_diff, has_unionAll, has_widestVisibility,
    hmask]
  cases m
  case final => simpa using hsome
  case abstract =>
    by_cases hkind : kind = .method
    · simpa [hkind] using hsome
    · simp [hkind]
  all_goals simp

/-- A flag that stands for no modifier is left if one of the sets has it. -/
theorem getLsbD_joined_of_other (kind : Kind) (all : List Modifiers) {i : Nat} (hi : i < 32)
    (hother : ∀ m : Modifier, m.bitIndex ≠ i) :
    (joined kind all).bits.getLsbD i = all.any fun s => s.bits.getLsbD i := by
  have hinsert : ∀ (s : Modifiers) (m : Modifier),
      (s.insert m).bits.getLsbD i = s.bits.getLsbD i := by
    intro s m
    simp [insert, BitVec.getLsbD_twoPow, hother m]
  have hmask : visibility.bits.getLsbD i = false := by
    simp only [visibility, ofList, List.foldl_cons, List.foldl_nil, hinsert]
    simp [none]
  have hwidest : (widestVisibility all).bits.getLsbD i = false := by
    unfold widestVisibility
    split_ifs <;> simp [hinsert, none]
  simp only [joined, getLsbD_eraseUnless _ _ _ hi, hother, union, diff, BitVec.getLsbD_or,
    BitVec.getLsbD_and, BitVec.getLsbD_not, hi, getLsbD_unionAll, hmask, hwidest]
  simp

theorem anyHas_of_has_joined {kind : Kind} {all : List Modifiers} (hall : all ≠ []) {m : Modifier}
    (h : (joined kind all).has m = true) : anyHas all m = true := by
  rw [has_joined kind hall] at h
  have hsome := anyHas_of_allHave hall (m := m)
  cases m
  case abstract =>
    by_cases hkind : kind = .method
    · exact hsome (by simpa [hkind] using h)
    · simpa [hkind] using h
  all_goals simp_all

/-- Every flag of the merged modifiers is a flag of one of the sets. -/
theorem exists_of_getLsbD_joined {kind : Kind} {all : List Modifiers} (hall : all ≠ []) {i : Nat}
    (hi : i < 32) (h : (joined kind all).bits.getLsbD i = true) :
    ∃ s ∈ all, s.bits.getLsbD i = true := by
  by_cases hmodifier : ∃ m : Modifier, m.bitIndex = i
  · obtain ⟨m, rfl⟩ := hmodifier
    exact List.any_eq_true.1 (anyHas_of_has_joined hall h)
  · rw [getLsbD_joined_of_other kind all hi fun m hm => hmodifier ⟨m, hm⟩] at h
    exact List.any_eq_true.1 h

/-- Sets that agree on `static` are merged to one that agrees with them. -/
theorem has_static_joined (kind : Kind) {all : List Modifiers} (h : SameStatic all) {s : Modifiers}
    (hs : s ∈ all) : (joined kind all).has .static = s.has .static := by
  rw [has_joined kind (List.ne_nil_of_mem hs), Bool.eq_iff_iff]
  change anyHas all .static = true ↔ _
  rw [anyHas, List.any_eq_true]
  constructor
  · rintro ⟨t, ht, hstatic⟩
    rwa [h s hs t ht]
  · exact fun hstatic => ⟨s, hs, hstatic⟩

theorem isSubset_joined (kind : Kind) {all : List Modifiers} (hall : all ≠ []) {mask : Modifiers}
    (h : ∀ s ∈ all, s.isSubset mask = true) : (joined kind all).isSubset mask = true := by
  rw [isSubset_iff]
  intro i hi hb
  obtain ⟨s, hs, hsb⟩ := exists_of_getLsbD_joined hall hi hb
  exact isSubset_iff.1 (h s hs) i hi hsb

/-- Merged modifiers of an interface have `abstract`, as those of every interface do. -/
theorem closeModifiers_joined (kind : Kind) {all : List Modifiers} (hall : all ≠ [])
    (hmask : ∀ s ∈ all, s.isSubset kind.allowed = true)
    (hclosed : ∀ s ∈ all, s.has .interface = true → s.has .abstract = true) :
    Member.closeModifiers (joined kind all) = joined kind all := by
  unfold Member.closeModifiers
  split
  next hinterface =>
    refine insert_eq_self ?_
    obtain ⟨s, hs, hsi⟩ :=
      exists_of_getLsbD_joined hall (Modifier.bitIndex_lt .interface) hinterface
    -- only on methods `abstract` is taken back, and these are no interfaces
    have hkind : kind ≠ .method := by
      rintro rfl
      have hnot : Kind.method.allowed.has .interface = false := by decide
      have hin : Kind.method.allowed.has .interface = true :=
        isSubset_iff.1 (hmask s hs) _ (Modifier.bitIndex_lt .interface) hsi
      rw [hnot] at hin
      cases hin
    rw [has_joined kind hall]
    exact (if_neg hkind).trans (List.any_eq_true.2 ⟨s, hs, hclosed s hs hsi⟩)
  next => rfl

/-! ### The list of the sets -/

/-- Merged modifiers depend only on which sets there are, not on their order or on how often each
comes up. -/
theorem joined_congr (kind : Kind) {l l' : List Modifiers} (h : ∀ s, s ∈ l ↔ s ∈ l') :
    joined kind l = joined kind l' := by
  have hany : ∀ p : Modifiers → Bool, l.any p = l'.any p := by
    intro p
    rw [Bool.eq_iff_iff, List.any_eq_true, List.any_eq_true]
    simp only [h]
  have hall : ∀ m, allHave l m = allHave l' m := by
    intro m
    rw [Bool.eq_iff_iff, allHave, allHave, List.all_eq_true, List.all_eq_true]
    simp only [h]
  have hunion : unionAll l = unionAll l' := by
    ext i -
    rw [getLsbD_unionAll, getLsbD_unionAll, hany]
  have hsome : ∀ m, anyHas l m = anyHas l' m := fun m => hany (·.has m)
  simp only [joined, widestVisibility, hunion, hsome, hall]

theorem sameStatic_congr {l l' : List Modifiers} (h : ∀ s, s ∈ l ↔ s ∈ l') :
    SameStatic l ↔ SameStatic l' := by
  simp only [SameStatic, h]

theorem merge_congr (kind : Kind) {l l' : List Modifiers} (h : ∀ s, s ∈ l ↔ s ∈ l') :
    merge kind l = merge kind l' := by
  refine Option.ext ?_
  intro mods
  have hnil : l ≠ [] ↔ l' ≠ [] := by simp only [ne_eq, List.eq_nil_iff_forall_not_mem, h]
  rw [merge_eq_some_iff, merge_eq_some_iff, joined_congr kind h, sameStatic_congr h, hnil]

/-- The order of the sets does not matter for the merged modifiers. -/
theorem merge_perm (kind : Kind) {l l' : List Modifiers} (h : l.Perm l') :
    merge kind l = merge kind l' := merge_congr kind fun _ => h.mem_iff

/-- Sets are not merged exactly if two of them differ on `static`. -/
theorem merge_eq_none_iff (kind : Kind) {all : List Modifiers} (hall : all ≠ []) :
    merge kind all = Option.none ↔ ∃ s ∈ all, ∃ t ∈ all, s.has .static ≠ t.has .static := by
  have hsome : (∃ mods, merge kind all = some mods) ↔ SameStatic all := by
    simp only [merge_eq_some_iff, hall, ne_eq, not_false_eq_true, true_and, exists_and_left,
      exists_eq, and_true]
  rw [← not_iff_not, ← ne_eq, Option.ne_none_iff_exists', hsome, SameStatic]
  simp only [not_exists, not_and, ne_eq, not_not]

/-! ### Two parts -/

theorem anyHas_append (l l' : List Modifiers) (m : Modifier) :
    anyHas (l ++ l') m = (anyHas l m || anyHas l' m) := List.any_append

theorem allHave_append (l l' : List Modifiers) (m : Modifier) :
    allHave (l ++ l') m = (allHave l m && allHave l' m) := List.all_append

theorem anyHas_cons (s : Modifiers) (l : List Modifiers) (m : Modifier) :
    anyHas (s :: l) m = (s.has m || anyHas l m) := List.any_cons

theorem allHave_cons (s : Modifiers) (l : List Modifiers) (m : Modifier) :
    allHave (s :: l) m = (s.has m && allHave l m) := List.all_cons

/-- Sets of access flags are the same if they have the same modifiers and the same flags that stand
for none. -/
theorem ext_has {s t : Modifiers} (hhas : ∀ m, s.has m = t.has m)
    (hother : ∀ i < 32, (∀ m : Modifier, m.bitIndex ≠ i) → s.bits.getLsbD i = t.bits.getLsbD i) :
    s = t := by
  ext i hi
  by_cases h : ∃ m : Modifier, m.bitIndex = i
  · obtain ⟨m, rfl⟩ := h
    exact hhas m
  · exact hother i hi fun m hm => h ⟨m, hm⟩

/-- In further merges the merged modifiers of a part count as all its sets do. -/
theorem joined_joined_cons (kind : Kind) {l : List Modifiers} (hl : l ≠ []) (r : List Modifiers) :
    joined kind (joined kind l :: r) = joined kind (l ++ r) := by
  refine ext_has (fun m => ?_) fun i hi hother => ?_
  · rw [has_joined kind (List.cons_ne_nil _ r),
      has_joined kind (List.append_ne_nil_of_left_ne_nil hl r)]
    simp only [anyHas_append, allHave_append, anyHas_cons, allHave_cons, has_joined kind hl]
    cases m
    case prot => cases anyHas l .pub <;> simp
    case priv => cases anyHas l .pub <;> cases anyHas l .prot <;> simp
    case abstract => by_cases hkind : kind = .method <;> simp [hkind]
    all_goals rfl
  · simp [getLsbD_joined_of_other kind _ hi hother]

/-- Two parts that are merged by themselves are then merged to what all sets together are. -/
theorem joined_append (kind : Kind) {l l' : List Modifiers} (hl : l ≠ []) (hl' : l' ≠ []) :
    joined kind (l ++ l') = joined kind [joined kind l, joined kind l'] :=
  calc joined kind (l ++ l')
      = joined kind (l' ++ [joined kind l]) := by
        rw [← joined_joined_cons kind hl, joined_congr kind fun _ => List.perm_append_comm.mem_iff]
        rfl
    _ = joined kind [joined kind l, joined kind l'] := by
        rw [← joined_joined_cons kind hl']
        exact joined_congr kind fun _ => (List.Perm.swap ..).mem_iff

/-- Parts that are merged by themselves agree on `static` if all sets together do. -/
theorem sameStatic_append_iff (kind : Kind) {l l' : List Modifiers} (hl : l ≠ []) (hl' : l' ≠ [])
    (h : SameStatic l) (h' : SameStatic l') :
    SameStatic (l ++ l') ↔ SameStatic [joined kind l, joined kind l'] := by
  have hpart : ∀ s ∈ l, (joined kind l).has .static = s.has .static :=
    fun _ => has_static_joined kind h
  have hpart' : ∀ s ∈ l', (joined kind l').has .static = s.has .static :=
    fun _ => has_static_joined kind h'
  constructor
  · intro hall
    obtain ⟨s, hs⟩ := List.exists_mem_of_ne_nil l hl
    obtain ⟨t, ht⟩ := List.exists_mem_of_ne_nil l' hl'
    have hst := hall s (List.mem_append_left l' hs) t (List.mem_append_right l ht)
    simp only [SameStatic, List.forall_mem_cons, hpart s hs, hpart' t ht, hst]
    simp
  · intro hpair
    have hpair := hpair _ List.mem_cons_self _ (List.mem_cons_of_mem _ List.mem_cons_self)
    have hall : ∀ s ∈ l ++ l', s.has .static = (joined kind l).has .static := by
      refine List.forall_mem_append.2 ⟨fun s hs => (hpart s hs).symm, fun s hs => ?_⟩
      rw [hpair, hpart' s hs]
    intro s hs t ht
    rw [hall s hs, hall t ht]

/-- Two parts that are merged by themselves are then merged as all sets together are. -/
theorem merge_append {kind : Kind} {l l' : List Modifiers} {mods mods' : Modifiers}
    (h : merge kind l = some mods) (h' : merge kind l' = some mods') :
    merge kind (l ++ l') = merge kind [mods, mods'] := by
  obtain ⟨hl, hstatic, rfl⟩ := merge_eq_some_iff.1 h
  obtain ⟨hl', hstatic', rfl⟩ := merge_eq_some_iff.1 h'
  refine Option.ext fun r => ?_
  rw [merge_eq_some_iff, merge_eq_some_iff, joined_append kind hl hl',
    sameStatic_append_iff kind hl hl' hstatic hstatic']
  simp [hl]

end Modifiers

/-- The merged modifiers of valid members of one kind are accepted for a member of that kind, and
set as they are. -/
theorem Member.setModifiers?_joined {kind : Kind} {m : Member} {ms : List Member}
    (hm : m.kind = kind) (hne : ms ≠ []) (hkind : ∀ n ∈ ms, n.kind = kind)
    (hvalid : ∀ n ∈ ms, n.Valid) :
    m.setModifiers? (Modifiers.joined kind (ms.map (·.modifiers))) =
      .ok { m with modifiers := Modifiers.joined kind (ms.map (·.modifiers)) } := by
  have hall : ms.map (·.modifiers) ≠ [] := by simpa using hne
  have hmask : ∀ s ∈ ms.map (·.modifiers), s.isSubset kind.allowed = true := by
    intro s hs
    obtain ⟨n, hn, rfl⟩ := List.mem_map.1 hs
    exact hkind n hn ▸ (hvalid n hn).1
  have hclosed : ∀ s ∈ ms.map (·.modifiers), s.has .interface = true → s.has .abstract = true := by
    intro s hs
    obtain ⟨n, hn, rfl⟩ := List.mem_map.1 hs
    exact (hvalid n hn).2
  refine setModifiers?_eq_ok_iff.2 ⟨?_, ?_⟩
  · rw [hm]
    exact Modifiers.isSubset_joined kind hall hmask
  · rw [Modifiers.closeModifiers_joined kind hall hmask hclosed]

end ApiSurface
