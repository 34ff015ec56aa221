import Mathlib.Data.List.Perm.Subperm
import ApiSurface.Proofs.Merge.MemberOrder

/-!
# Promotion and erasure

A raw class is to be put in the terms of a generic one exactly where its members are the erasures of
the generic ones, each generic member being used once (`PromotesExactly`). Promotion compares only
the numbers of members, and looks for each raw one by itself: a raw member that comes twice takes
the place of one that is missing, and of generic members with one erasure only the first is found.
`promotion_exact` tells where that does not matter, `repeated_method_promoted` where it does.
-/

namespace ApiSurface

/-- Two lists look the same up to their order exactly if the elements of the one go with those of
the other, put in some order. -/
theorem perm_map_iff_exists {α β γ : Type _} {f : α → γ} {g : β → γ} {l : List α} {l' : List β} :
    (l.map f).Perm (l'.map g) ↔ ∃ m, m.Perm l' ∧ List.Forall₂ (fun a b => f a = g b) l m := by
  constructor
  · intro h
    have hself : List.Forall₂ (fun c b => c = g b) (l'.map g) l' :=
      List.forall₂_map_left_iff.2 (List.forall₂_same.2 fun _ _ => rfl)
    obtain ⟨m, hforall, hperm⟩ := List.perm_comp_forall₂ h hself
    exact ⟨m, hperm, List.forall₂_map_left_iff.1 hforall⟩
  · rintro ⟨m, hperm, hforall⟩
    have hmap : l.map f = m.map g :=
      List.forall₂_eq_eq_eq ▸ List.forall₂_map_left_iff.2 (List.forall₂_map_right_iff.2 hforall)
    exact hmap ▸ hperm.map g

namespace Member

/-- What a raw member and the erasure of a generic one are compared on. -/
def profile (m : Member) : MemberKey × Text := (m.key, m.typeName)

/-- What a promoted member has of a generic one. -/
def terms (m : Member) : MemberKey × Text × Option Text := (m.key, m.typeName, m.typeParams)

/-- What a member is erased to is told by its terms. -/
theorem profile_erased_of_terms_eq {g g' : Member} (h : g.terms = g'.terms)
    (policy : UnboundPolicy) (outer : Params) :
    (g.erased policy outer).profile = (g'.erased policy outer).profile := by
  obtain ⟨hkey, htype, hparams⟩ : g.key = g'.key ∧ g.typeName = g'.typeName ∧
    g.typeParams = g'.typeParams := by simpa [terms] using h
  obtain ⟨hkind, hdeclaring, hname, hargs⟩ := MemberKey.mk.inj hkey
  simp only [profile, key, erased, erasure, Logged.value_bind, Logged.value_pure, hkind, hdeclaring,
    hname, hargs, hparams, htype]

/-- A raw member has the terms of the generic one that it adopts. -/
theorem terms_adopt {raw generic : Member} {policy : UnboundPolicy} {outer : Params}
    (h : (generic.erased policy outer).profile = raw.profile) :
    (raw.adopt (generic.erased policy outer) generic).terms = generic.terms := by
  have hkey : (generic.erased policy outer).key = raw.key := congrArg Prod.fst h
  have hkind : generic.kind = raw.kind := congrArg MemberKey.kind hkey
  have hdeclaring : generic.declaring = raw.declaring := congrArg MemberKey.declaring hkey
  have hname : generic.name = raw.name := congrArg MemberKey.name hkey
  simp only [terms, key, adopt, hkind, hdeclaring, hname]

end Member

open Member

namespace ClassDef

/-- The raw class is put in the terms of the generic one exactly where it is its erasure, and then
the generic members are used once each. -/
structure PromotesExactly (policy : UnboundPolicy) (raw generic : ClassDef) : Prop where
  /-- There is a promotion exactly if the raw members are the erasures of the generic ones, apart
  from their order. -/
  promotes_iff_perm : Promotes policy raw generic ↔ ∀ s ∈ Kind.own,
    ((raw.declared s).map profile).Perm
      (((generic.fullErasure policy).value.declared s).map profile)
  /-- Every promoted member has the terms of a generic one of its own, and none is left over. -/
  one_each : ∀ p, (promote? policy raw generic).value = some p → ∀ s ∈ Kind.own,
    ∃ gs, gs.Perm (generic.declared s) ∧
      List.Forall₂ (fun m g => m.terms = g.terms) (p.declared s) gs
  /-- Modifiers, annotations and constants are those of the raw members. -/
  kept : ∀ p, (promote? policy raw generic).value = some p → ∀ s ∈ Kind.own,
    List.Forall₂ (fun m r => m.modifiers = r.modifiers ∧ m.annots = r.annots ∧
      m.constant = r.constant) (p.declared s) (raw.declared s)

variable {policy : UnboundPolicy} {raw generic p : ClassDef} {s : Kind}

/-- A raw member adopts the terms of the first generic one whose erasure it is. -/
theorem promote?_withErasures (policy : UnboundPolicy) (generic : ClassDef) (s : Kind)
    (m : Member) :
    Member.promote? (generic.withErasures policy s) m =
      ((generic.declared s).find? fun g =>
        (g.erased policy (generic.params policy)).profile = m.profile).map fun g =>
          m.adopt (g.erased policy (generic.params policy)) g := by
  simp only [Member.promote?, withErasures, List.find?_map, Option.map_map, profile, Prod.mk.injEq]
  rfl

/-- The members of a promoted class are the raw ones, each in the terms of the first generic member
whose erasure it is. -/
theorem exists_of_promoted (hp : (promote? policy raw generic).value = some p) (hs : s ∈ Kind.own) :
    ∃ f : Member → Member, p.declared s = (raw.declared s).map f ∧ ∀ m ∈ raw.declared s,
      ∃ g ∈ generic.declared s, (generic.declared s).find? (fun g =>
          (g.erased policy (generic.params policy)).profile = m.profile) = some g ∧
        (g.erased policy (generic.params policy)).profile = m.profile ∧
        f m = m.adopt (g.erased policy (generic.params policy)) g := by
  obtain ⟨hdeclared, hfound⟩ := promote?_value_eq_some hs hp
  refine ⟨_, hdeclared, fun m hm => ?_⟩
  obtain ⟨m', hm'⟩ := Option.isSome_iff_exists.1 (hfound m hm)
  have hfirst := promote?_withErasures policy generic s m
  rw [hm'] at hfirst
  obtain ⟨g, hg, heq⟩ := Option.map_eq_some_iff.1 hfirst.symm
  refine ⟨g, List.mem_of_find?_eq_some hg, hg, ?_, ?_⟩
  · simpa using List.find?_some hg
  · rw [hm', Option.getD_some, heq]

/-- Generic members with one erasure have the same terms, so that it does not matter which of them a
raw member adopts. -/
def SameTerms (policy : UnboundPolicy) (generic : ClassDef) (s : Kind) : Prop :=
  ∀ g ∈ generic.declared s, ∀ g' ∈ generic.declared s,
    (g.erased policy (generic.params policy)).profile =
      (g'.erased policy (generic.params policy)).profile → g.terms = g'.terms

theorem profiles_fullErasure (hs : s ∈ Kind.own) :
    ((generic.fullErasure policy).value.declared s).map profile =
      (generic.declared s).map fun g => (g.erased policy (generic.params policy)).profile := by
  rw [declared_fullErasure hs, List.map_map]
  rfl

/-- Where every promoted member has the terms of a generic one of its own, generic members with one
erasure have the same terms: all raw members with that erasure adopt the first of them. -/
theorem sameTerms_of_one_each (hp : (promote? policy raw generic).value = some p)
    (hs : s ∈ Kind.own) (h : ((p.declared s).map terms).Perm ((generic.declared s).map terms)) :
    SameTerms policy generic s := by
  obtain ⟨f, hdeclared, hfirst⟩ := exists_of_promoted hp hs
  -- a generic member is adopted, if not itself then as one that is the first with its erasure
  have hterms : ∀ g ∈ generic.declared s, ∃ g₀, (generic.declared s).find? (fun g' =>
      (g'.erased policy (generic.params policy)).profile =
        (g.erased policy (generic.params policy)).profile) = some g₀ ∧ g₀.terms = g.terms := by
    intro g hg
    have hmem : g.terms ∈ (p.declared s).map terms := h.symm.subset (List.mem_map_of_mem hg)
    rw [hdeclared, List.map_map] at hmem
    obtain ⟨m, hm, heq⟩ := List.mem_map.1 hmem
    obtain ⟨g₀, -, hfind, hprofile, hadopt⟩ := hfirst m hm
    have hsame : g₀.terms = g.terms := by
      rw [← heq, Function.comp_apply, hadopt, terms_adopt hprofile]
    refine ⟨g₀, ?_, hsame⟩
    rw [← profile_erased_of_terms_eq hsame, hprofile]
    exact hfind
  intro g hg g' hg' hprofile
  obtain ⟨g₀, hfind, hsame⟩ := hterms g hg
  obtain ⟨g₁, hfind', hsame'⟩ := hterms g' hg'
  rw [← hprofile, hfind] at hfind'
  rw [← hsame, ← hsame', Option.some.inj hfind']

/-- Where the raw members are the erasures of the generic ones, and those with one erasure have the
same terms, every promoted member has the terms of a generic one of its own. -/
theorem one_each_of_perm (hp : (promote? policy raw generic).value = some p) (hs : s ∈ Kind.own)
    (hperm : ((raw.declared s).map profile).Perm
      (((generic.fullErasure policy).value.declared s).map profile))
    (hsame : SameTerms policy generic s) :
    ((p.declared s).map terms).Perm ((generic.declared s).map terms) := by
  obtain ⟨f, hdeclared, hfirst⟩ := exists_of_promoted hp hs
  rw [hdeclared, List.map_map]
  rw [profiles_fullErasure hs] at hperm
  refine perm_map_of_perm_map hperm fun m hm g hg hprofile => ?_
  obtain ⟨g₀, hg₀, -, hprofile₀, hadopt⟩ := hfirst m hm
  rw [Function.comp_apply, hadopt, terms_adopt hprofile₀]
  exact hsame g₀ hg₀ g hg (hprofile₀.trans hprofile)

/-- A raw class whose members are the erasures of the generic ones is promoted. -/
theorem promotes_of_perm (h : ∀ s ∈ Kind.own, ((raw.declared s).map profile).Perm
      (((generic.fullErasure policy).value.declared s).map profile)) :
    Promotes policy raw generic := by
  refine promotes_iff.2 fun s hs => ?_
  have hperm := h s hs
  rw [profiles_fullErasure hs] at hperm
  refine ⟨by simpa using hperm.length_eq, fun m hm => ?_⟩
  obtain ⟨g, hg, heq⟩ := List.mem_map.1 (hperm.subset (List.mem_map_of_mem hm))
  exact ⟨g, hg, congrArg Prod.fst heq, congrArg Prod.snd heq⟩

/-- Raw members that are all different and are promoted are the erasures of the generic ones, which
are all different then. -/
theorem perm_of_nodup (hp : Promotes policy raw generic) (hs : s ∈ Kind.own)
    (hnodup : ((raw.declared s).map profile).Nodup) :
    ((raw.declared s).map profile).Perm
        (((generic.fullErasure policy).value.declared s).map profile) ∧
      SameTerms policy generic s := by
  obtain ⟨hlength, hfound⟩ := promotes_iff.1 hp s hs
  rw [profiles_fullErasure hs]
  have hsub : (raw.declared s).map profile ⊆ (generic.declared s).map fun g =>
      (g.erased policy (generic.params policy)).profile := by
    intro x hx
    obtain ⟨m, hm, rfl⟩ := List.mem_map.1 hx
    obtain ⟨g, hg, hkey, htype⟩ := hfound m hm
    exact List.mem_map.2 ⟨g, hg, Prod.ext hkey htype⟩
  have hperm := (List.subperm_of_subset hnodup hsub).perm_of_length_le (by simp [hlength])
  refine ⟨hperm, fun g hg g' hg' hprofile => ?_⟩
  exact congrArg terms (List.inj_on_of_nodup_map (hperm.nodup_iff.1 hnodup) hg hg' hprofile)

/-- Promotion is exact if, where it takes place, the raw members are the erasures of the generic
ones, apart from their order, and generic members with one erasure have the same terms; else it is
not. In particular it is exact where no raw member comes twice. -/
theorem promotion_exact (policy : UnboundPolicy) (raw generic : ClassDef) :
    (PromotesExactly policy raw generic ↔
      (Promotes policy raw generic → ∀ s ∈ Kind.own,
        ((raw.declared s).map profile).Perm
            (((generic.fullErasure policy).value.declared s).map profile) ∧
          SameTerms policy generic s)) ∧
    ((∀ s ∈ Kind.own, ((raw.declared s).map profile).Nodup) →
      PromotesExactly policy raw generic) := by
  have hiff : PromotesExactly policy raw generic ↔
      (Promotes policy raw generic → ∀ s ∈ Kind.own,
        ((raw.declared s).map profile).Perm
            (((generic.fullErasure policy).value.declared s).map profile) ∧
          SameTerms policy generic s) := by
    constructor
    · intro h hpromotes s hs
      obtain ⟨p, hp⟩ := Option.isSome_iff_exists.1 hpromotes
      exact ⟨h.promotes_iff_perm.1 hpromotes s hs,
        sameTerms_of_one_each hp hs (perm_map_iff_exists.2 (h.one_each p hp s hs))⟩
    · intro h
      have hpromotes : ∀ p, (promote? policy raw generic).value = some p →
          Promotes policy raw generic := fun p hp => Option.isSome_iff_exists.2 ⟨p, hp⟩
      constructor
      case promotes_iff_perm => exact ⟨fun hp s hs => (h hp s hs).1, promotes_of_perm⟩
      case one_each =>
        intro p hp s hs
        obtain ⟨hperm, hsame⟩ := h (hpromotes p hp) s hs
        exact perm_map_iff_exists.1 (one_each_of_perm hp hs hperm hsame)
      case kept =>
        intro p hp s hs
        obtain ⟨f, hdeclared, hfirst⟩ := exists_of_promoted hp hs
        rw [hdeclared, List.forall₂_map_left_iff, List.forall₂_same]
        intro m hm
        obtain ⟨g, -, -, -, hadopt⟩ := hfirst m hm
        rw [hadopt]
        exact ⟨rfl, rfl, rfl⟩
  exact ⟨hiff, fun hnodup => hiff.2 fun hp s hs => perm_of_nodup hp hs (hnodup s hs)⟩

/-! ### A raw member that comes twice -/

/-- The method `m` of `a.C` with given arguments and no result. -/
def methodTaking (name args : String) : Member where
  kind := .method
  declaring := "a.C".toList
  name := name.toList
  typeName := "void".toList
  args := args.toList

/-- A raw class that lists a method twice. -/
def rawRepeating : ClassDef where
  header := { kind := .header, name := "a.C".toList }
  methods := [methodTaking "m" "a.B", methodTaking "m" "a.B"]

/-- A generic class with that method, and another one. -/
def genericOfTwo : ClassDef where
  header := { kind := .header, name := "a.C".toList, typeParams := some "<%0 extends a.B>".toList }
  methods := [methodTaking "m" "{a.C%0}", methodTaking "n" ""]

/-- The raw class takes the terms of the generic one although no raw method is the erasure of the
other generic method. -/
theorem repeated_method_promoted :
    Promotes .unresolved rawRepeating genericOfTwo ∧
      ¬ PromotesExactly .unresolved rawRepeating genericOfTwo := by
  have hpromotes : Promotes .unresolved rawRepeating genericOfTwo := by decide +kernel
  refine ⟨hpromotes, fun h => ?_⟩
  have hperm := h.promotes_iff_perm.1 hpromotes .method (by decide)
  have hmem : (methodTaking "n" "").profile ∈
      ((genericOfTwo.fullErasure .unresolved).value.declared .method).map profile := by
    decide +kernel
  exact absurd (hperm.symm.subset hmem) (by decide +kernel)

/-- A raw class with both methods is promoted exactly. -/
theorem promotion_exact_of_two :
    Promotes .unresolved { rawRepeating with
        methods := [methodTaking "n" "", methodTaking "m" "a.B"] } genericOfTwo ∧
      PromotesExactly .unresolved { rawRepeating with
        methods := [methodTaking "n" "", methodTaking "m" "a.B"] } genericOfTwo :=
  ⟨by decide +kernel, (promotion_exact _ _ _).2 (by decide)⟩

end ClassDef

end ApiSurface
