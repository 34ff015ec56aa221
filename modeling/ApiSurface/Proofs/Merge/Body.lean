import ApiSurface.Merge.Definitions
import ApiSurface.Proofs.Merge.Members
import ApiSurface.Proofs.Merge.Promotion

/-!
# Merged bodies, round by round

Merging the bodies of several definitions takes one round where all of them are raw or all are
generic, one round where one of each is merged, and three rounds else. The last round decides
which members are left (`declared_mergeMixed`); a member is reported as dropped if it clashes in
any round (`mem_droppedKeys_mergeMixed_iff`).
-/

namespace ApiSurface

open Conflict Finding Member

attribute [ext] ClassDef

namespace ClassDef

/-- The members of one kind of several definitions. -/
def membersOf (defs : List ClassDef) (s : Kind) : List Member := defs.flatMap (·.declared s)

/-- The halves whose bodies are merged before the last round, where there are any. -/
def firstRounds (defs : List ClassDef) : List (List ClassDef) :=
  match planOf defs with
  | .together | .lifted _ _ => []
  | .halves raw raws generic generics => [raw :: raws, generic :: generics]

/-- The definitions whose merged body is the result. -/
def lastRound (settings : MergeSettings) (policy : UnboundPolicy) (defs : List ClassDef) :
    List ClassDef :=
  match planOf defs with
  | .together => defs
  | .lifted raw generic => defs.map (liftTo (promoteOrKeep policy raw generic).value)
  | .halves raw raws generic generics =>
    let halves := (mergeHalves settings policy raw raws generic generics).value
    [halves.1, halves.2]

/-- In some round the members of a key clash. -/
def Clashes (settings : MergeSettings) (policy : UnboundPolicy) (defs : List ClassDef) (s : Kind)
    (k : MemberKey) : Prop :=
  ∃ round ∈ firstRounds defs ++ [lastRound settings policy defs],
    Clash settings (membersOf round s) k

/-! ### The plan -/

/-- Definitions that are all generic, or all raw, are merged at once. -/
theorem planOf_eq_together {defs : List ClassDef}
    (h : (∀ c ∈ defs, c.isGeneralized = true) ∨ ∀ c ∈ defs, c.isGeneralized = false) :
    planOf defs = .together := by
  unfold planOf
  rcases h with h | h
  · have hraws : defs.filter (!·.isGeneralized) = [] :=
      List.filter_eq_nil_iff.2 fun c hc => by simp [h c hc]
    rw [hraws]
  · have hgenerics : defs.filter (·.isGeneralized) = [] :=
      List.filter_eq_nil_iff.2 fun c hc => by simp [h c hc]
    rw [hgenerics]
    generalize defs.filter (fun c => !c.isGeneralized) = raws
    rcases raws with _ | ⟨_, _ | ⟨_, _⟩⟩ <;> rfl

theorem filter_of_planOf_eq_together {defs : List ClassDef} (h : planOf defs = .together) :
    defs.filter (!·.isGeneralized) = [] ∨ defs.filter (·.isGeneralized) = [] := by
  unfold planOf at h
  split at h
  next hraw => exact .inl hraw
  next hgeneric _ => exact .inr hgeneric
  next => cases h
  next => cases h

theorem filter_of_planOf_eq_lifted {defs : List ClassDef} {raw generic : ClassDef}
    (h : planOf defs = .lifted raw generic) :
    defs.filter (!·.isGeneralized) = [raw] ∧ defs.filter (·.isGeneralized) = [generic] := by
  unfold planOf at h
  split at h
  next => cases h
  next => cases h
  next hraw hgeneric =>
    cases h
    exact ⟨hraw, hgeneric⟩
  next => cases h

theorem filter_of_planOf_eq_halves {defs : List ClassDef} {raw generic : ClassDef}
    {raws generics : List ClassDef} (h : planOf defs = .halves raw raws generic generics) :
    defs.filter (!·.isGeneralized) = raw :: raws ∧
      defs.filter (·.isGeneralized) = generic :: generics := by
  unfold planOf at h
  split at h
  next => cases h
  next => cases h
  next => cases h
  next hraw hgeneric =>
    cases h
    exact ⟨hraw, hgeneric⟩

/-! ### One body -/

variable {settings : MergeSettings} {policy : UnboundPolicy} {s : Kind} {k : MemberKey}

theorem declared_mergeBody (hs : s ∈ Kind.own) (first : ClassDef) (rest : List ClassDef) :
    (mergeBody settings first rest).value.declared s =
      (Member.mergeAll settings (membersOf (first :: rest) s)).value := by
  rcases Kind.mem_own_iff.1 hs with rfl | rfl | rfl <;> rfl

theorem log_mergeBody (first : ClassDef) (rest : List ClassDef) :
    (mergeBody settings first rest).log =
      (mergeTypeParams first.header (rest.map (·.header))).log ++
      ((Member.mergeAll settings (membersOf (first :: rest) .constructor)).log ++
      ((Member.mergeAll settings (membersOf (first :: rest) .method)).log ++
        (Member.mergeAll settings (membersOf (first :: rest) .field)).log)) := by
  simp only [mergeBody, Logged.log_bind, Logged.log_pure, List.append_nil]
  rfl

/-- The names that are hidden in a merged body are hidden in all definitions. -/
theorem mem_foldl_inter_iff {f : ClassDef → SortedSet Text} {s : SortedSet Text}
    {rest : List ClassDef} {a : Text} :
    a ∈ rest.foldl (fun t c => t.inter (f c)) s ↔ a ∈ s ∧ ∀ c ∈ rest, a ∈ f c := by
  induction rest generalizing s with
  | nil => simp
  | cons c rest ih =>
    rw [List.foldl_cons, ih, SortedSet.mem_inter_iff, List.forall_mem_cons, and_assoc]

@[simp] theorem value_mergeBodies (first : ClassDef) (rest : List ClassDef) :
    (mergeBodies settings first rest).value = (mergeBody settings first rest).value := rfl

/-- A merged body drops the keys that clash among its constructors, methods or fields. -/
theorem mem_droppedKeys_mergeBody_iff (first : ClassDef) (rest : List ClassDef) :
    k ∈ droppedKeys (mergeBody settings first rest).log ↔
      ∃ s ∈ Kind.own, Clash settings (membersOf (first :: rest) s) k := by
  rw [log_mergeBody, droppedKeys_append, droppedKeys_append, droppedKeys_append,
    droppedKeys_mergeTypeParams, List.nil_append, List.mem_append, List.mem_append,
    mem_droppedKeys_mergeAll_iff, mem_droppedKeys_mergeAll_iff, mem_droppedKeys_mergeAll_iff]
  simp [Kind.own]

theorem mem_droppedKeys_mergeBodies_iff (first : ClassDef) (rest : List ClassDef) :
    k ∈ droppedKeys (conflicts (mergeBodies settings first rest).log) ↔
      ∃ s ∈ Kind.own, Clash settings (membersOf (first :: rest) s) k := by
  rw [mergeBodies, Logged.log_mapLog, conflicts_map_conflict]
  exact mem_droppedKeys_mergeBody_iff first rest

theorem conflicts_mergeBodies (first : ClassDef) (rest : List ClassDef) :
    conflicts (mergeBodies settings first rest).log = (mergeBody settings first rest).log :=
  conflicts_map_conflict _

/-- Merging bodies gives conflicts about members only; the header is one of them. -/
theorem onMembers_mergeBodies (settings : MergeSettings) (first : ClassDef)
    (rest : List ClassDef) : OnMembers (conflicts (mergeBodies settings first rest).log) := by
  rw [conflicts_mergeBodies, log_mergeBody]
  refine (onMembers_mergeTypeParams _ _).append ?_
  refine (onMembers_mergeAll settings _).append ?_
  exact (onMembers_mergeAll settings _).append (onMembers_mergeAll settings _)

theorem conflicts_promoteOrKeep (raw generic : ClassDef) :
    conflicts (promoteOrKeep policy raw generic).log = [] := by
  simp [promoteOrKeep]

/-! ### All rounds -/

/-- The members that are left are those of the last round. -/
theorem declared_mergeMixed (hs : s ∈ Kind.own) (first : ClassDef) (rest : List ClassDef) :
    (mergeMixed settings policy first rest).value.declared s =
      (Member.mergeAll settings
        (membersOf (lastRound settings policy (first :: rest)) s)).value := by
  rcases hplan : planOf (first :: rest) with _ | ⟨raw, generic⟩ | ⟨raw, raws, generic, generics⟩
  · simp only [mergeMixed, lastRound, hplan, value_mergeBodies, declared_mergeBody hs]
  · simp only [mergeMixed, lastRound, hplan, Logged.value_bind, value_mergeBodies,
      declared_mergeBody hs, List.map_cons]
  · simp only [mergeMixed, lastRound, hplan, Logged.value_bind, value_mergeBodies,
      declared_mergeBody hs]

theorem fst_mergeHalves (raw : ClassDef) (raws : List ClassDef) (generic : ClassDef)
    (generics : List ClassDef) :
    (mergeHalves settings policy raw raws generic generics).value.1 =
      if (mergeBody settings generic generics).value.isGeneralized then
        (promoteOrKeep policy (mergeBody settings raw raws).value
          (mergeBody settings generic generics).value).value
      else (mergeBody settings raw raws).value := by
  by_cases h : (mergeBody settings generic generics).value.isGeneralized = true <;>
    simp [mergeHalves, h]

theorem snd_mergeHalves (raw : ClassDef) (raws : List ClassDef) (generic : ClassDef)
    (generics : List ClassDef) :
    (mergeHalves settings policy raw raws generic generics).value.2 =
      (mergeBody settings generic generics).value := by
  by_cases h : (mergeBody settings generic generics).value.isGeneralized = true <;>
    simp [mergeHalves, h]

theorem conflicts_mergeHalves (raw : ClassDef) (raws : List ClassDef) (generic : ClassDef)
    (generics : List ClassDef) :
    conflicts (mergeHalves settings policy raw raws generic generics).log =
      conflicts (mergeBodies settings raw raws).log ++
        conflicts (mergeBodies settings generic generics).log := by
  simp only [mergeHalves, Logged.log_bind, conflicts_append]
  split <;> simp [conflicts_promoteOrKeep]

/-- Merging raw and generic definitions gives conflicts about members only. -/
theorem onMembers_mergeMixed (settings : MergeSettings) (policy : UnboundPolicy)
    (first : ClassDef) (rest : List ClassDef) :
    OnMembers (conflicts (mergeMixed settings policy first rest).log) := by
  rcases hplan : planOf (first :: rest) with _ | ⟨raw, generic⟩ | ⟨raw, raws, generic, generics⟩
  · simp only [mergeMixed, hplan]
    exact onMembers_mergeBodies settings first rest
  · simp only [mergeMixed, hplan, Logged.log_bind, conflicts_append, conflicts_promoteOrKeep,
      List.nil_append]
    exact onMembers_mergeBodies settings _ _
  · simp only [mergeMixed, hplan, Logged.log_bind, conflicts_append, conflicts_mergeHalves]
    refine OnMembers.append ?_ (onMembers_mergeBodies settings _ _)
    exact (onMembers_mergeBodies settings raw raws).append
      (onMembers_mergeBodies settings generic generics)

/-- A key is reported as dropped exactly if its members clash in some round. -/
theorem mem_droppedKeys_mergeMixed_iff (first : ClassDef) (rest : List ClassDef) :
    k ∈ droppedKeys (conflicts (mergeMixed settings policy first rest).log) ↔
      ∃ s ∈ Kind.own, Clashes settings policy (first :: rest) s k := by
  rcases hplan : planOf (first :: rest) with _ | ⟨raw, generic⟩ | ⟨raw, raws, generic, generics⟩
  · simp [mergeMixed, Clashes, firstRounds, lastRound, hplan, mem_droppedKeys_mergeBodies_iff]
  · simp [mergeMixed, Clashes, firstRounds, lastRound, hplan, conflicts_promoteOrKeep,
      mem_droppedKeys_mergeBodies_iff]
  · simp only [mergeMixed, Clashes, firstRounds, lastRound, hplan, Logged.log_bind,
      conflicts_append, conflicts_mergeHalves, droppedKeys_append, List.mem_append,
      mem_droppedKeys_mergeBodies_iff, List.mem_cons, List.not_mem_nil, or_false]
    simp only [exists_eq_or_imp, ← exists_or, ← and_or_left, or_assoc, exists_eq_left]

end ClassDef

end ApiSurface
