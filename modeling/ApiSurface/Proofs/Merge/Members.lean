import ApiSurface.Merge.Members
import ApiSurface.Proofs.Grouping

/-!
# Merged members, key by key

Merging the members of several definitions treats each key by itself. The members of a key either
clash, and then the key is reported as dropped and no merged member has it, or they become one
member of that key. `mem_keys_mergeAll_iff` and `mem_droppedKeys_mergeAll_iff` say so for all keys
of a list, `nodup_keys_mergeAll` that no key has two merged members.
-/

namespace ApiSurface

namespace Conflict

/-- The members that are left out because of the conflicts of a log. -/
def droppedKeys (log : List Conflict) : List MemberKey := log.filterMap dropped?

@[simp] theorem droppedKeys_nil : droppedKeys [] = [] := rfl

@[simp] theorem droppedKeys_append (l₁ l₂ : List Conflict) :
    droppedKeys (l₁ ++ l₂) = droppedKeys l₁ ++ droppedKeys l₂ := List.filterMap_append

theorem mem_droppedKeys_flatMap {α : Type _} {f : α → List Conflict} {l : List α} {k : MemberKey} :
    k ∈ droppedKeys (l.flatMap f) ↔ ∃ a ∈ l, k ∈ droppedKeys (f a) := by
  simp only [droppedKeys, List.mem_filterMap, List.mem_flatMap]
  constructor
  · rintro ⟨c, ⟨a, ha, hc⟩, hk⟩
    exact ⟨a, ha, c, hc, hk⟩
  · rintro ⟨a, ha, c, hc, hk⟩
    exact ⟨c, ⟨a, ha, hc⟩, hk⟩

/-- The member that a conflict is about. -/
def member? : Conflict → Option MemberKey
  | staticModifier (.ofMember key) => some key
  | typeMismatch key _ _ | genericsMismatch key _ _ | throwsMismatch key _ _
  | constantMismatch key _ _ => some key
  | _ => none

/-- Every conflict of a log is about a member. -/
def OnMembers (log : List Conflict) : Prop := ∀ c ∈ log, c.member? ≠ none

theorem onMembers_nil : OnMembers [] := List.forall_mem_nil _

theorem OnMembers.append {l₁ l₂ : List Conflict} (h₁ : OnMembers l₁) (h₂ : OnMembers l₂) :
    OnMembers (l₁ ++ l₂) := List.forall_mem_append.2 ⟨h₁, h₂⟩

theorem onMembers_flatMap {α : Type _} {f : α → List Conflict} {l : List α}
    (h : ∀ a ∈ l, OnMembers (f a)) : OnMembers (l.flatMap f) := by
  intro c hc
  obtain ⟨a, ha, hc⟩ := List.mem_flatMap.1 hc
  exact h a ha c hc

/-- What only conflicts about other things than members have is not found among them. -/
theorem OnMembers.filterMap_eq_nil {β : Type _} {f : Conflict → Option β} {log : List Conflict}
    (h : OnMembers log) (hf : ∀ c, c.member? ≠ none → f c = none) : log.filterMap f = [] :=
  List.filterMap_eq_nil_iff.2 fun c hc => hf c (h c hc)

/-- A conflict for which a member is left out is about that member. -/
theorem member?_of_dropped? {c : Conflict} {k : MemberKey} (h : c.dropped? = some k) :
    c.member? = some k := by
  cases c with
  | staticModifier subject =>
    cases subject with
    | ofClass => cases h
    | ofMember => exact h
  | typeMismatch | throwsMismatch | constantMismatch => exact h
  | classKind | unrelatedSuperclasses | genericsMismatch => cases h
  | erasureCollision | packageCollision => cases h

theorem onMembers_singleton {c : Conflict} {k : MemberKey} (h : c.dropped? = some k) :
    OnMembers [c] := by
  refine List.forall_mem_singleton.2 ?_
  rw [member?_of_dropped? h]
  exact Option.some_ne_none k

end Conflict

open Conflict

namespace Member

/-! ### One group -/

/-- Setting modifiers changes nothing but the modifiers. -/
theorem withModifiers_eq (m : Member) (mods : Modifiers) :
    m.withModifiers mods =
      { m with
        modifiers :=
          if mods.isSubset m.kind.allowed then closeModifiers mods else m.modifiers } := by
  unfold withModifiers setModifiers?
  split <;> rfl

theorem withModifiers_of_ok {m m' : Member} {mods : Modifiers} (h : m.setModifiers? mods = .ok m') :
    m.withModifiers mods = m' := by
  rw [withModifiers, h]
  rfl

/-- Where modifiers are rejected the member stays as it is. -/
theorem withModifiers_of_error {m : Member} {mods : Modifiers} {e : ModelError}
    (h : m.setModifiers? mods = .error e) : m.withModifiers mods = m := by
  rw [withModifiers, h]
  rfl

@[simp] theorem key_withModifiers (m : Member) (mods : Modifiers) :
    (m.withModifiers mods).key = m.key := by
  rw [withModifiers_eq]
  rfl

theorem droppedKeys_mergeTypeParams (first : Member) (rest : List Member) :
    droppedKeys (mergeTypeParams first rest).log = [] := by
  unfold mergeTypeParams
  split
  next => rfl
  next => split <;> rfl

theorem dropped?_of_agree_eq_error {settings : MergeSettings} {first : Member} {rest : List Member}
    {c : Conflict} (h : agree settings first rest = .error c) : c.dropped? = some first.key := by
  unfold agree at h
  split at h
  next =>
    cases h
    rfl
  next =>
    split at h
    next =>
      cases h
      rfl
    next =>
      split at h
      next => cases h
      next =>
        cases h
        rfl

theorem dropped?_of_agreeThrows_eq_error {settings : MergeSettings} {first : Member}
    {rest : List Member} {c : Conflict} (h : agreeThrows settings first rest = .error c) :
    c.dropped? = some first.key := by
  unfold agreeThrows at h
  split at h
  next =>
    split at h
    next => cases h
    next =>
      split at h
      next =>
        cases h
        rfl
      next => cases h
  next => cases h

/-- Generics declarations that differ are a conflict about the member. -/
theorem onMembers_mergeTypeParams (first : Member) (rest : List Member) :
    OnMembers (mergeTypeParams first rest).log := by
  unfold mergeTypeParams
  split
  next => exact onMembers_nil
  next =>
    split
    next => exact onMembers_nil
    next => exact List.forall_mem_singleton.2 (Option.some_ne_none _)

/-- Members of one key have conflicts about members only. -/
theorem onMembers_mergeGroup (settings : MergeSettings) (first : Member) (rest : List Member) :
    OnMembers (mergeGroup settings first rest).log := by
  unfold mergeGroup
  rcases hagree : agree settings first rest with c | mods
  · exact onMembers_singleton (dropped?_of_agree_eq_error hagree)
  · refine (onMembers_mergeTypeParams first rest).append ?_
    rcases hthrows : agreeThrows settings first rest with c | throws
    · exact onMembers_singleton (dropped?_of_agreeThrows_eq_error hthrows)
    · exact onMembers_nil

/-- The members of one key either clash, and the key is reported once as dropped, or become one
member of that key. -/
theorem mergeGroup_cases (settings : MergeSettings) (first : Member) (rest : List Member) :
    ((mergeGroup settings first rest).value = none ∧
      droppedKeys (mergeGroup settings first rest).log = [first.key]) ∨
    ∃ m, (mergeGroup settings first rest).value = some m ∧ m.key = first.key ∧
      droppedKeys (mergeGroup settings first rest).log = [] := by
  unfold mergeGroup
  rcases hagree : agree settings first rest with c | mods
  · left
    refine ⟨rfl, ?_⟩
    simp [droppedKeys, dropped?_of_agree_eq_error hagree]
  · have hparams := droppedKeys_mergeTypeParams first rest
    rcases hthrows : agreeThrows settings first rest with c | throws
    · left
      refine ⟨rfl, ?_⟩
      simp only [Logged.log_bind, droppedKeys_append, hparams, List.nil_append]
      simp [droppedKeys, dropped?_of_agreeThrows_eq_error hthrows]
    · right
      refine ⟨_, rfl, ?_, ?_⟩
      · exact key_withModifiers first mods
      · simpa using hparams

/-! ### All groups -/

/-- The members of a key, as far as there are several, cannot become one member. -/
def Clash (settings : MergeSettings) (ms : List Member) (k : MemberKey) : Prop :=
  ∃ first rest, ms.filter (·.key = k) = first :: rest ∧ rest ≠ [] ∧
    (mergeGroup settings first rest).value = none

theorem mem_keys_of_clash {settings : MergeSettings} {ms : List Member} {k : MemberKey}
    (h : Clash settings ms k) : k ∈ ms.map key := by
  obtain ⟨first, rest, hf, -⟩ := h
  exact List.mem_map.2 ⟨first, of_filter_key_eq hf first List.mem_cons_self⟩

theorem clash_iff_of_mem_groupsBy {settings : MergeSettings} {ms : List Member} {first : Member}
    {rest : List Member} (h : (first, rest) ∈ groupsBy key ms) :
    Clash settings ms first.key ↔ (mergeOrKeep settings (first, rest)).value = none := by
  have hf := mem_groupsBy_iff.1 h
  constructor
  · rintro ⟨a, r, hf', hne, hnone⟩
    obtain ⟨rfl, rfl⟩ := List.cons.inj (hf.symm.trans hf')
    obtain ⟨b, r', rfl⟩ := List.exists_cons_of_ne_nil hne
    exact hnone
  · intro hnone
    cases rest with
    | nil => cases hnone
    | cons b r => exact ⟨first, b :: r, hf, List.cons_ne_nil _ _, hnone⟩

theorem mergeOrKeep_cases (settings : MergeSettings) (g : Member × List Member) :
    ((mergeOrKeep settings g).value = none ∧
      droppedKeys (mergeOrKeep settings g).log = [g.1.key]) ∨
    ∃ m, (mergeOrKeep settings g).value = some m ∧ m.key = g.1.key ∧
      droppedKeys (mergeOrKeep settings g).log = [] := by
  obtain ⟨first, rest⟩ := g
  cases rest with
  | nil => exact .inr ⟨first, rfl, rfl, rfl⟩
  | cons second rest => exact mergeGroup_cases settings first (second :: rest)

theorem value_mergeAll (settings : MergeSettings) (ms : List Member) :
    (mergeAll settings ms).value =
      (groupsBy key ms).filterMap fun g => (mergeOrKeep settings g).value := by
  simp [mergeAll, List.filterMap_map]

theorem log_mergeAll (settings : MergeSettings) (ms : List Member) :
    (mergeAll settings ms).log =
      (groupsBy key ms).flatMap fun g => (mergeOrKeep settings g).log := by
  simp [mergeAll]

/-- Merging members gives conflicts about members only. -/
theorem onMembers_mergeAll (settings : MergeSettings) (ms : List Member) :
    OnMembers (mergeAll settings ms).log := by
  rw [log_mergeAll]
  refine onMembers_flatMap ?_
  rintro ⟨first, rest⟩ -
  cases rest with
  | nil => exact onMembers_nil
  | cons second rest => exact onMembers_mergeGroup settings first (second :: rest)

/-- A key is dropped exactly if its members clash. -/
theorem mem_droppedKeys_mergeAll_iff {settings : MergeSettings} {ms : List Member}
    {k : MemberKey} : k ∈ droppedKeys (mergeAll settings ms).log ↔ Clash settings ms k := by
  rw [log_mergeAll, mem_droppedKeys_flatMap]
  constructor
  · rintro ⟨g, hg, hk⟩
    rcases mergeOrKeep_cases settings g with ⟨hnone, hdrop⟩ | ⟨m, -, -, hdrop⟩
    · rw [hdrop, List.mem_singleton] at hk
      subst hk
      exact (clash_iff_of_mem_groupsBy hg).2 hnone
    · rw [hdrop] at hk
      cases hk
  · intro hclash
    obtain ⟨m, hm, rfl⟩ := List.mem_map.1 (mem_keys_of_clash hclash)
    obtain ⟨g, hg, hkey, -⟩ := exists_mem_groupsBy key hm
    refine ⟨g, hg, ?_⟩
    rw [← hkey] at hclash ⊢
    have hnone := (clash_iff_of_mem_groupsBy hg).1 hclash
    rcases mergeOrKeep_cases settings g with ⟨-, hdrop⟩ | ⟨m', hsome, -⟩
    · rw [hdrop]
      exact List.mem_singleton_self _
    · rw [hnone] at hsome
      cases hsome

/-- A key has a merged member exactly if it comes up and its members do not clash. -/
theorem mem_keys_mergeAll_iff {settings : MergeSettings} {ms : List Member} {k : MemberKey} :
    k ∈ (mergeAll settings ms).value.map key ↔ k ∈ ms.map key ∧ ¬ Clash settings ms k := by
  rw [value_mergeAll, List.mem_map]
  constructor
  · rintro ⟨m, hm, rfl⟩
    obtain ⟨g, hg, hm⟩ := List.mem_filterMap.1 hm
    rcases mergeOrKeep_cases settings g with ⟨hnone, -⟩ | ⟨m', hsome, hkey, -⟩
    · rw [hnone] at hm
      cases hm
    · rw [hsome, Option.some.injEq] at hm
      subst hm
      rw [hkey]
      refine ⟨List.mem_map.2 ⟨g.1, (of_mem_groupsBy hg).1, rfl⟩, fun hclash => ?_⟩
      rw [(clash_iff_of_mem_groupsBy hg).1 hclash] at hsome
      cases hsome
  · rintro ⟨hk, hclash⟩
    obtain ⟨m, hm, rfl⟩ := List.mem_map.1 hk
    obtain ⟨g, hg, hkey, -⟩ := exists_mem_groupsBy key hm
    rcases mergeOrKeep_cases settings g with ⟨hnone, -⟩ | ⟨m', hsome, hkey', -⟩
    · exact absurd (hkey ▸ (clash_iff_of_mem_groupsBy hg).2 hnone) hclash
    · exact ⟨m', List.mem_filterMap.2 ⟨g, hg, hsome⟩, hkey'.trans hkey⟩

/-- Merged members keep the order in which their keys come up first. -/
theorem keys_mergeAll_sublist (settings : MergeSettings) (ms : List Member) :
    ((mergeAll settings ms).value.map key).Sublist ((distinctBy key ms).map key) := by
  rw [value_mergeAll, ← map_fst_groupsBy, List.map_map]
  induction groupsBy key ms with
  | nil => exact .slnil
  | cons g gs ih =>
    rw [List.filterMap_cons, List.map_cons]
    rcases mergeOrKeep_cases settings g with ⟨hnone, -⟩ | ⟨m, hsome, hkey, -⟩
    · rw [hnone]
      exact ih.cons _
    · rw [hsome]
      simp only [List.map_cons, hkey]
      exact ih.cons_cons _

/-- No key has two merged members. -/
theorem nodup_keys_mergeAll (settings : MergeSettings) (ms : List Member) :
    ((mergeAll settings ms).value.map key).Nodup :=
  (keys_mergeAll_sublist settings ms).nodup (nodup_map_distinctBy key ms)

end Member

end ApiSurface
