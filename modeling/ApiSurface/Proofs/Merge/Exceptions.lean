import ApiSurface.Proofs.Erasure.Exceptions
import ApiSurface.Proofs.Merge.Kept

/-!
# Exceptions of merged members

Promotion and merging take each list of exceptions from one of the members they start from, or
leave it empty (`throwsAll_of_promote?`, `throwsAll_of_merge`), so lists in normal form stay in
normal form. Only erasure changes the text of a list.
-/

namespace ApiSurface

open Member

namespace ClassDef

/-- The lists of exceptions of all members of a class have a property. -/
def ThrowsAll (P : Text → Prop) (c : ClassDef) : Prop := ∀ m ∈ c.members, P m.throws

variable {P : Text → Prop}

theorem throws_adopt {raw generic : Member} (erased : Member) (hraw : P raw.throws)
    (hgeneric : P generic.throws) : P (raw.adopt erased generic).throws := by
  rcases throws_adopt_cases raw erased generic with h | h
  · rwa [h]
  · rwa [h]

/-- A promoted class has its lists of exceptions from the raw and from the generic one. -/
theorem throwsAll_of_promote? {policy : UnboundPolicy} {raw generic c : ClassDef}
    (hraw : raw.ThrowsAll P) (hgeneric : generic.ThrowsAll P)
    (h : (promote? policy raw generic).value = some c) : c.ThrowsAll P := by
  have heq : (promoteOrKeep policy raw generic).value = c := by
    rw [promoteOrKeep, Logged.value_map, Logged.value_mapLog, h, Option.getD_some]
  exact heq ▸ allMembers_promoteOrKeep (Q := fun m => P m.throws)
    (fun erased _ _ => throws_adopt erased) hraw hgeneric

end ClassDef

open ClassDef

variable {P : Text → Prop} {settings : Settings} {participants : List Snapshot}

theorem throws_innerReference (outer : Text) (c : ClassDef) :
    (Snapshot.innerReference outer c).throws = [] := by
  unfold Snapshot.innerReference
  dsimp only
  rcases hset : Member.setModifiers? _ _ with e | m
  · rfl
  · obtain ⟨-, rfl⟩ := setModifiers?_eq_ok_iff.1 hset
    rfl

/-- A merge takes lists of exceptions over, or leaves them empty. -/
theorem kept_throws (hnil : P []) (settings : MergeSettings) :
    Kept settings fun m => P m.throws where
  adopt erased _ _ := throws_adopt erased
  untracked h := h
  joined := by
    intro first rest _ h
    rw [joined]
    dsimp only
    split
    next => exact hnil
    next => exact h first List.mem_cons_self

/-- A merged snapshot has its lists of exceptions from the participants. -/
theorem throwsAll_of_merge (hnil : P []) (h : ∀ p ∈ participants, ∀ c ∈ p.values, c.ThrowsAll P) :
    ∀ c ∈ (merge settings participants).snapshot.values, c.ThrowsAll P :=
  allMembers_of_merge (kept_throws hnil settings.merge)
    (fun outer c => (throws_innerReference outer c).symm ▸ hnil) h

/-! ### Normal form -/

/-- The lists of exceptions of an erased class have a property if they all have it, one by one. -/
theorem throwsAll_erasure_iff {policy : UnboundPolicy} {c : ClassDef} :
    (c.erasure policy).value.ThrowsAll P ↔
      ∀ m ∈ c.members, P (m.erased policy (c.params policy)).throws := by
  have hmembers : (c.erasure policy).value.members =
      c.members.map (·.erased policy (c.params policy)) := members_mapMembers _ c
  rw [ThrowsAll, hmembers, List.forall_mem_map]

/-- Full erasure goes over the declared members only. -/
theorem throwsAll_fullErasure_iff {policy : UnboundPolicy} {c : ClassDef} (h : c.ThrowsAll P) :
    (c.fullErasure policy).value.ThrowsAll P ↔
      ∀ m ∈ c.declaredMembers, P (m.erased policy (c.params policy)).throws := by
  have hmembers : (c.fullErasure policy).value.members =
      c.superclass.toList ++ c.interfaces ++
        c.declaredMembers.map (·.erased policy (c.params policy)) ++ c.inherited :=
    congrArg (c.superclass.toList ++ c.interfaces ++ · ++ c.inherited)
      (declaredMembers_mapDeclared _ c)
  simp only [ThrowsAll, members, List.forall_mem_append] at h
  obtain ⟨⟨hsuper, -⟩, hinherited⟩ := h
  rw [ThrowsAll, hmembers]
  simp only [List.forall_mem_append, List.forall_mem_map]
  exact ⟨fun hall => hall.1.2, fun hall => ⟨⟨hsuper, hall⟩, hinherited⟩⟩

/-- Where the exceptions of a class are in normal form and no name leaves a bracket or a brace open,
erasure keeps them in normal form exactly if the erased names of every member ascend. Promotion and
merging always do. -/
theorem normalised_exceptions (policy : UnboundPolicy) (settings : Settings) :
    (∀ c : ClassDef, c.ThrowsAll Normalised →
      (∀ m ∈ c.members, ∀ n ∈ m.throwsList, SelfContained n) →
      ((c.erasure policy).value.ThrowsAll Normalised ↔ ∀ m ∈ c.members,
        (m.erasedExceptions policy (c.params policy)).Pairwise (compare · · = .lt)) ∧
      ((c.fullErasure policy).value.ThrowsAll Normalised ↔ ∀ m ∈ c.declaredMembers,
        (m.erasedExceptions policy (c.params policy)).Pairwise (compare · · = .lt))) ∧
    (∀ raw generic c : ClassDef, (promote? policy raw generic).value = some c →
      raw.ThrowsAll Normalised → generic.ThrowsAll Normalised → c.ThrowsAll Normalised) ∧
    ∀ participants : List Snapshot, (∀ p ∈ participants, ∀ c ∈ p.values, c.ThrowsAll Normalised) →
      ∀ c ∈ (merge settings participants).snapshot.values, c.ThrowsAll Normalised := by
  refine ⟨fun c hnormal hnames => ?_, fun raw generic c h hraw hgeneric => ?_,
    fun participants h => ?_⟩
  · have herased : ∀ m ∈ c.members, Normalised (m.erased policy (c.params policy)).throws ↔
        (m.erasedExceptions policy (c.params policy)).Pairwise (compare · · = .lt) := fun m hm =>
      normalised_erased_iff (hnormal m hm) (hnames m hm)
    have hdeclared : c.declaredMembers ⊆ c.members := fun m hm =>
      List.mem_append_left _ (List.mem_append_right _ hm)
    rw [throwsAll_erasure_iff, throwsAll_fullErasure_iff hnormal]
    exact ⟨forall₂_congr herased, forall₂_congr fun m hm => herased m (hdeclared hm)⟩
  · exact throwsAll_of_promote? hraw hgeneric h
  · exact throwsAll_of_merge normalised_nil h

/-- A generic class with a method that throws its parameter, which is bounded by `a.B`, and another
exception. -/
def throwing (other : String) : ClassDef where
  header :=
    { kind := .header, name := "a.C".toList, typeParams := some "<%0 extends a.B>".toList }
  methods :=
    [{ kind := .method, declaring := "a.C".toList, name := "m".toList, typeName := "void".toList
       throws := other.toList ++ ",{a.C%0}".toList }]

theorem throwing_normalised {other : String}
    (h : [other.toList, "{a.C%0}".toList].Pairwise (compare · · = .lt))
    (hname : (∃ c ∈ other.toList, Text.isBlank c = false) ∧ ',' ∉ other.toList) :
    (throwing other).ThrowsAll Normalised := by
  refine List.forall_mem_singleton.2 ⟨[other.toList, "{a.C%0}".toList], h, ?_, ?_⟩
  · have hparam : '{' ∈ "{a.C%0}".toList ∧ ',' ∉ "{a.C%0}".toList := by decide
    exact List.forall_mem_cons.2 ⟨hname, List.forall_mem_singleton.2
      ⟨⟨'{', hparam.1, by decide⟩, hparam.2⟩⟩
  · rw [List.intercalate_cons_cons, List.intercalate_singleton, List.append_assoc]
    rfl

/-- Where the bound comes behind the other exception, erasure keeps the exceptions in normal form,
and so does a merge. -/
theorem throwing_in_order :
    (throwing "a.A").ThrowsAll Normalised ∧
      ((throwing "a.A").erasure .unresolved).value.ThrowsAll Normalised ∧
      ((throwing "a.A").fullErasure .unresolved).value.ThrowsAll Normalised ∧
      ∀ c ∈ (merge {} [.ofClasses [throwing "a.A"], .ofClasses [throwing "a.A"]]).snapshot.values,
        c.ThrowsAll Normalised := by
  have hnormal : (throwing "a.A").ThrowsAll Normalised :=
    throwing_normalised (by decide +kernel) ⟨⟨'a', by decide, by decide⟩, by decide⟩
  obtain ⟨herasure, -, hmerge⟩ := normalised_exceptions .unresolved {}
  obtain ⟨hall, hfull⟩ := herasure (throwing "a.A") hnormal (by decide +kernel)
  refine ⟨hnormal, hall.2 (by decide +kernel), hfull.2 (by decide +kernel), ?_⟩
  refine hmerge _ fun p hp c hc => ?_
  obtain rfl : p = .ofClasses [throwing "a.A"] := by simpa using hp
  obtain rfl : c = throwing "a.A" := List.mem_singleton.1 hc
  exact hnormal

/-- Where the bound comes in front of the other exception, the erased exceptions are out of
order. -/
theorem throwing_out_of_order :
    (throwing "a.Z").ThrowsAll Normalised ∧ ∀ policy,
      ¬ ((throwing "a.Z").erasure policy).value.ThrowsAll Normalised ∧
      ¬ ((throwing "a.Z").fullErasure policy).value.ThrowsAll Normalised := by
  have hdescend : ¬ Normalised "a.Z,a.B".toList := by
    have hiff : Normalised ([','].intercalate ["a.Z".toList, "a.B".toList]) ↔ _ :=
      normalised_intercalate_iff (List.forall_mem_cons.2
        ⟨⟨⟨'Z', by decide, by decide⟩, by decide⟩,
          List.forall_mem_singleton.2 ⟨⟨'B', by decide, by decide⟩, by decide⟩⟩)
    exact fun h => absurd (hiff.1 h) (by decide +kernel)
  have herased : ∀ policy, ∀ c ∈ [((throwing "a.Z").erasure policy).value,
      ((throwing "a.Z").fullErasure policy).value],
      c.members.map (·.throws) = ["a.Z,a.B".toList] := by
    intro policy
    cases policy <;> decide +kernel
  have hnot : ∀ c : ClassDef, c.members.map (·.throws) = ["a.Z,a.B".toList] →
      ¬ c.ThrowsAll Normalised := by
    intro c hc hall
    have hmem : "a.Z,a.B".toList ∈ c.members.map (·.throws) := hc ▸ List.mem_cons_self
    obtain ⟨m, hm, heq⟩ := List.mem_map.1 hmem
    exact hdescend (heq ▸ hall m hm)
  refine ⟨throwing_normalised (by decide +kernel) ⟨⟨'Z', by decide, by decide⟩, by decide⟩,
    fun policy => ⟨?_, ?_⟩⟩
  · exact hnot _ (herased policy _ (by simp))
  · exact hnot _ (herased policy _ (by simp))

end ApiSurface
