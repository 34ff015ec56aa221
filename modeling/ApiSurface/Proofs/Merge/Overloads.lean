import ApiSurface.Proofs.Merge.Copies

/-!
# Overloads

Methods and constructors of one class are told apart by their keys, not by their erased
signatures. Overloads whose arguments are written alike but whose type parameters have different
bounds have one key, and a merge makes one member of them. `overloads_collapsed_iff` says that it
never makes one member of other overloads, and what that means for copies of a class.
-/

namespace ApiSurface

open Conflict Finding Member

namespace Member

/-- The first member is one of `ms`, and the second is what the members of its key become. -/
def MergedInto (settings : MergeSettings) (ms : List Member) (m r : Member) : Prop :=
  m ∈ ms ∧ r ∈ (mergeAll settings ms).value ∧ r.key = m.key

end Member

namespace ClassDef

/-- The erased signature of a member of a class. -/
def erasedSignature (policy : UnboundPolicy) (c : ClassDef) (m : Member) : Text :=
  (m.erased policy (c.params policy)).signature

/-- What a member of the raw half becomes when that is put in the terms of the generic half. -/
def liftHalf (policy : UnboundPolicy) (raw generic : ClassDef) (s : Kind) (m : Member) : Member :=
  if generic.isGeneralized then liftMember policy raw generic s m else m

/-- The member `m` of a definition goes into the last round as `m'` or as a part of it. -/
def Enters (settings : MergeSettings) (policy : UnboundPolicy) (defs : List ClassDef) (s : Kind)
    (d : ClassDef) (m m' : Member) : Prop :=
  match planOf defs with
  | .together => m' = m
  | .lifted raw generic => m' = if d.isGeneralized then m else liftMember policy raw generic s m
  | .halves raw raws generic generics =>
    if d.isGeneralized then MergedInto settings (membersOf (generic :: generics) s) m m'
    else ∃ q, MergedInto settings (membersOf (raw :: raws) s) m q ∧
      m' = liftHalf policy (mergeBody settings raw raws).value
        (mergeBody settings generic generics).value s q

/-- The member `m` of a definition is merged into `r`. -/
def Contributes (settings : MergeSettings) (policy : UnboundPolicy) (defs : List ClassDef)
    (s : Kind) (d : ClassDef) (m r : Member) : Prop :=
  ∃ m', Enters settings policy defs s d m m' ∧
    MergedInto settings (membersOf (lastRound settings policy defs) s) m' r

variable {settings : MergeSettings} {policy : UnboundPolicy} {s : Kind}

/-! ### Where merged members come from -/

theorem exists_mergedInto {ms : List Member} {r : Member}
    (hr : r ∈ (Member.mergeAll settings ms).value) : ∃ m, MergedInto settings ms m r := by
  have hkey := (mem_keys_mergeAll_iff.1 (List.mem_map_of_mem hr)).1
  obtain ⟨m, hm, hmr⟩ := List.mem_map.1 hkey
  exact ⟨m, hm, hr, hmr.symm⟩

theorem mem_membersOf_iff {defs : List ClassDef} {m : Member} :
    m ∈ membersOf defs s ↔ ∃ d ∈ defs, m ∈ d.declared s := List.mem_flatMap

theorem declared_fst_mergeHalves (hs : s ∈ Kind.own) (raw : ClassDef) (raws : List ClassDef)
    (generic : ClassDef) (generics : List ClassDef) :
    (mergeHalves settings policy raw raws generic generics).value.1.declared s =
      ((mergeBody settings raw raws).value.declared s).map
        (liftHalf policy (mergeBody settings raw raws).value
          (mergeBody settings generic generics).value s) := by
  rw [fst_mergeHalves]
  unfold liftHalf
  split
  next => exact declared_promoteOrKeep hs
  next => exact (List.map_id' _).symm

/-- Every member of the last round comes from a member of a definition. -/
theorem exists_enters (hs : s ∈ Kind.own) {defs : List ClassDef} {m' : Member}
    (hm' : m' ∈ membersOf (lastRound settings policy defs) s) :
    ∃ d ∈ defs, ∃ m ∈ d.declared s, Enters settings policy defs s d m m' := by
  unfold lastRound at hm'
  simp only [Enters]
  rcases hplan : planOf defs with _ | ⟨raw, generic⟩ | ⟨raw, raws, generic, generics⟩ <;>
    simp only [hplan] at hm' ⊢
  case together =>
    obtain ⟨d, hd, hm⟩ := mem_membersOf_iff.1 hm'
    exact ⟨d, hd, m', hm, rfl⟩
  case lifted =>
    obtain ⟨c, hc, hm⟩ := mem_membersOf_iff.1 hm'
    obtain ⟨d, hd, rfl⟩ := List.mem_map.1 hc
    unfold liftTo at hm
    split at hm
    next hgeneralized => exact ⟨d, hd, m', hm, (if_pos hgeneralized).symm⟩
    next hraw =>
      have hmem : raw ∈ defs.filter (!·.isGeneralized) := by
        rw [(filter_of_planOf_eq_lifted hplan).1]
        exact List.mem_cons_self
      obtain ⟨hdefs, hnot⟩ := List.mem_filter.1 hmem
      rw [declared_promoteOrKeep hs] at hm
      obtain ⟨m, hmraw, rfl⟩ := List.mem_map.1 hm
      exact ⟨raw, hdefs, m, hmraw, (if_neg (by simpa using hnot)).symm⟩
  case halves =>
    obtain ⟨hraws, hgenerics⟩ := filter_of_planOf_eq_halves hplan
    have hm : m' ∈ (mergeHalves settings policy raw raws generic generics).value.1.declared s ∨
        m' ∈ (mergeHalves settings policy raw raws generic generics).value.2.declared s := by
      simpa [membersOf] using hm'
    rcases hm with hm | hm
    · rw [declared_fst_mergeHalves hs] at hm
      obtain ⟨q, hq, rfl⟩ := List.mem_map.1 hm
      rw [declared_mergeBody hs] at hq
      obtain ⟨m, hmq⟩ := exists_mergedInto hq
      obtain ⟨d, hd, hmd⟩ := mem_membersOf_iff.1 hmq.1
      rw [← hraws, List.mem_filter] at hd
      refine ⟨d, hd.1, m, hmd, ?_⟩
      rw [if_neg (by simpa using hd.2)]
      exact ⟨q, hmq, rfl⟩
    · rw [snd_mergeHalves, declared_mergeBody hs] at hm
      obtain ⟨m, hmm'⟩ := exists_mergedInto hm
      obtain ⟨d, hd, hmd⟩ := mem_membersOf_iff.1 hmm'.1
      rw [← hgenerics, List.mem_filter] at hd
      refine ⟨d, hd.1, m, hmd, ?_⟩
      rwa [if_pos hd.2]

/-- The members of the merged class are those that members of the definitions are merged into. -/
theorem mem_declared_mergeClass_iff {settings : Settings} {participants : List Snapshot}
    {name : Text} {first second : ClassDef} {rest : List ClassDef} {merged : ClassDef}
    (hdefs : definitions participants name = first :: second :: rest)
    (hmerged : (mergeClass settings participants name).value = some merged)
    (hs : s ∈ Kind.own) {r : Member} :
    r ∈ merged.declared s ↔
      ∃ d ∈ preparedDefinitions settings.merge participants name, ∃ m ∈ d.declared s,
        Contributes settings.merge settings.unboundPolicy
          (preparedDefinitions settings.merge participants name) s d m r := by
  rw [declared_mergeClass hdefs hmerged hs]
  constructor
  · intro hr
    obtain ⟨m', hm'⟩ := exists_mergedInto hr
    obtain ⟨d, hd, m, hm, henters⟩ := exists_enters hs hm'.1
    exact ⟨d, hd, m, hm, m', henters, hm'⟩
  · rintro ⟨d, -, m, -, m', -, hm'⟩
    exact hm'.2.1

/-! ### Overloads that become one member -/

/-- Two members of one definition, with different erased signatures, are merged into `r`. -/
def Collapsed (settings : MergeSettings) (policy : UnboundPolicy) (defs : List ClassDef)
    (s : Kind) (d : ClassDef) (m₁ m₂ r : Member) : Prop :=
  d ∈ defs ∧ m₁ ∈ d.declared s ∧ m₂ ∈ d.declared s ∧
    d.erasedSignature policy m₁ ≠ d.erasedSignature policy m₂ ∧
    Contributes settings policy defs s d m₁ r ∧ Contributes settings policy defs s d m₂ r

/-- Members of one key have erasures of one key if these have one signature. -/
theorem key_erased_eq {c d : ClassDef} {m n : Member} (hkey : m.key = n.key)
    (hsig : c.erasedSignature policy m = d.erasedSignature policy n)
    (hcallable : m.kind.isCallable = true) :
    (m.erased policy (c.params policy)).key = (n.erased policy (d.params policy)).key := by
  have hkind : m.kind = n.kind := congrArg MemberKey.kind hkey
  have hdeclaring : m.declaring = n.declaring := congrArg MemberKey.declaring hkey
  have hname : m.name = n.name := congrArg MemberKey.name hkey
  have hargs : (m.erased policy (c.params policy)).args =
      (n.erased policy (d.params policy)).args := by
    have hm : (m.erased policy (c.params policy)).kind.isCallable = true := hcallable
    have hn : (n.erased policy (d.params policy)).kind.isCallable = true := hkind ▸ hcallable
    rw [erasedSignature, erasedSignature, signature, signature, if_pos hm, if_pos hn] at hsig
    have htexts : m.name ++ '(' :: (m.erased policy (c.params policy)).args ++ [')'] =
      n.name ++ '(' :: (n.erased policy (d.params policy)).args ++ [')'] := hsig
    simpa [hname] using htexts
  change MemberKey.mk m.kind m.declaring m.name _ = MemberKey.mk n.kind n.declaring n.name _
  rw [hkind, hdeclaring, hname, hargs]

theorem erasedSignature_of_not_callable {c : ClassDef} {m : Member}
    (h : ¬ m.kind.isCallable = true) : c.erasedSignature policy m = m.name := by
  have hm : ¬ (m.erased policy (c.params policy)).kind.isCallable = true := h
  rw [erasedSignature, signature, if_neg hm]
  rfl

/-- Raw members that get one key when they are put in generic terms have one key, or they are the
erasures of generic members of one key. -/
theorem of_key_liftMember_eq (hs : s ∈ Kind.own) {raw generic : ClassDef} {m₁ m₂ : Member}
    (hm₁ : m₁ ∈ raw.declared s) (hm₂ : m₂ ∈ raw.declared s)
    (hkey : (liftMember policy raw generic s m₁).key = (liftMember policy raw generic s m₂).key) :
    m₁.key = m₂.key ∨ ∃ g₁ ∈ generic.declared s, ∃ g₂ ∈ generic.declared s,
      g₁.key = g₂.key ∧ (liftMember policy raw generic s m₁).key = g₁.key ∧
      (g₁.erased policy (generic.params policy)).key = m₁.key ∧
      (g₂.erased policy (generic.params policy)).key = m₂.key := by
  by_cases hprom : Promotes policy raw generic
  · obtain ⟨g₁, hg₁, herased₁, hlift₁⟩ := exists_generic_of_promoted hs hprom hm₁
    obtain ⟨g₂, hg₂, herased₂, hlift₂⟩ := exists_generic_of_promoted hs hprom hm₂
    have hg : g₁.key = g₂.key := by rw [← hlift₁, hkey, hlift₂]
    exact .inr ⟨g₁, hg₁, g₂, hg₂, hg, hlift₁, herased₁, herased₂⟩
  · rw [liftMember_of_not_promoted hprom, liftMember_of_not_promoted hprom] at hkey
    exact .inl hkey

/-- Where the members of the other class have no key twice, only the first case is left. -/
theorem key_eq_of_key_liftMember_eq (hs : s ∈ Kind.own) {raw generic : ClassDef} {m₁ m₂ : Member}
    (hgeneric : ((generic.declared s).map key).Nodup)
    (hm₁ : m₁ ∈ raw.declared s) (hm₂ : m₂ ∈ raw.declared s)
    (hkey : (liftMember policy raw generic s m₁).key = (liftMember policy raw generic s m₂).key) :
    m₁.key = m₂.key := by
  rcases of_key_liftMember_eq hs hm₁ hm₂ hkey with h | ⟨g₁, hg₁, g₂, hg₂, hg, -, herased₁, herased₂⟩
  · exact h
  · obtain rfl := List.inj_on_of_nodup_map hgeneric hg₁ hg₂ hg
    exact herased₁.symm.trans herased₂

/-- A member of the generic definition goes into the last round as it is. -/
theorem contributes_of_lifted {defs : List ClassDef} {raw generic : ClassDef}
    (hplan : planOf defs = .lifted raw generic) {g r : Member} (hg : g ∈ generic.declared s)
    (hr : r ∈ (Member.mergeAll settings
      (membersOf (lastRound settings policy defs) s)).value) (hkey : r.key = g.key) :
    generic ∈ defs ∧ Contributes settings policy defs s generic g r := by
  have hmem : generic ∈ defs.filter (·.isGeneralized) := by
    rw [(filter_of_planOf_eq_lifted hplan).2]
    exact List.mem_cons_self
  obtain ⟨hdefs, hgeneralized⟩ := List.mem_filter.1 hmem
  refine ⟨hdefs, g, ?_, ?_, hr, hkey⟩
  · simp only [Enters, hplan, if_pos hgeneralized]
  · simp only [lastRound, hplan, membersOf, List.mem_flatMap, List.mem_map]
    exact ⟨_, ⟨generic, hdefs, rfl⟩, by rwa [liftTo, if_pos hgeneralized]⟩

/-- Members with different erased signatures that are the erasures of members of one key and one
erased signature have one key. -/
theorem key_eq_of_erasures {raw generic : ClassDef} {m₁ m₂ g₁ g₂ : Member}
    (hsig : raw.erasedSignature policy m₁ ≠ raw.erasedSignature policy m₂)
    (hg : g₁.key = g₂.key)
    (hgsig : generic.erasedSignature policy g₁ = generic.erasedSignature policy g₂)
    (herased₁ : (g₁.erased policy (generic.params policy)).key = m₁.key)
    (herased₂ : (g₂.erased policy (generic.params policy)).key = m₂.key) : m₁.key = m₂.key := by
  by_cases hcallable : g₁.kind.isCallable = true
  · rw [← herased₁, ← herased₂]
    exact key_erased_eq hg hgsig hcallable
  · -- only the names of fields and the like count, and those are the same
    have hkind₁ : g₁.kind = m₁.kind := congrArg MemberKey.kind herased₁
    have hkind₂ : g₂.kind = m₂.kind := congrArg MemberKey.kind herased₂
    have hkind : g₁.kind = g₂.kind := congrArg MemberKey.kind hg
    have hname₁ : g₁.name = m₁.name := congrArg MemberKey.name herased₁
    have hname₂ : g₂.name = m₂.name := congrArg MemberKey.name herased₂
    have hname : g₁.name = g₂.name := congrArg MemberKey.name hg
    refine absurd ?_ hsig
    rw [erasedSignature_of_not_callable (hkind₁ ▸ hcallable),
      erasedSignature_of_not_callable (hkind₂ ▸ hkind ▸ hcallable), ← hname₁, hname, hname₂]

/-- Members of one of the halves that go into the last round under one key have one key. -/
theorem key_eq_of_enters_of_halves (hs : s ∈ Kind.own) {defs : List ClassDef}
    {raw generic : ClassDef} {raws generics : List ClassDef}
    (hplan : planOf defs = .halves raw raws generic generics)
    {d : ClassDef} {m₁ m₂ m₁' m₂' : Member} (he₁ : Enters settings policy defs s d m₁ m₁')
    (he₂ : Enters settings policy defs s d m₂ m₂') (hkey : m₁'.key = m₂'.key) :
    m₁.key = m₂.key := by
  simp only [Enters, hplan] at he₁ he₂
  split at he₁
  next hgeneralized =>
    rw [if_pos hgeneralized] at he₂
    exact he₁.2.2.symm.trans (hkey.trans he₂.2.2)
  next hraw =>
    rw [if_neg hraw] at he₂
    obtain ⟨q₁, hq₁, rfl⟩ := he₁
    obtain ⟨q₂, hq₂, rfl⟩ := he₂
    have hmem : ∀ {m q}, MergedInto settings (membersOf (raw :: raws) s) m q →
        q ∈ (mergeBody settings raw raws).value.declared s := by
      intro m q hq
      rw [declared_mergeBody hs]
      exact hq.2.1
    have hnodup : (((mergeBody settings generic generics).value.declared s).map key).Nodup := by
      rw [declared_mergeBody hs]
      exact nodup_keys_mergeAll _ _
    have hqkey : q₁.key = q₂.key := by
      unfold liftHalf at hkey
      split at hkey
      next => exact key_eq_of_key_liftMember_eq hs hnodup (hmem hq₁) (hmem hq₂) hkey
      next => exact hkey
    exact hq₁.2.2.symm.trans (hqkey.trans hq₂.2.2)

/-- Where overloads are collapsed, some overloads of one key are: themselves, or those of the
generic definition in whose terms they were put. -/
theorem exists_collapsed_of_one_key (hs : s ∈ Kind.own) {defs : List ClassDef} {d : ClassDef}
    {m₁ m₂ r : Member} (h : Collapsed settings policy defs s d m₁ m₂ r) :
    ∃ d' n₁ n₂, Collapsed settings policy defs s d' n₁ n₂ r ∧ n₁.key = n₂.key := by
  have hsame : m₁.key = m₂.key →
      ∃ d' n₁ n₂, Collapsed settings policy defs s d' n₁ n₂ r ∧ n₁.key = n₂.key :=
    fun hkey => ⟨d, m₁, m₂, h, hkey⟩
  obtain ⟨hd, hm₁, hm₂, hsig, ⟨m₁', he₁, hr₁⟩, m₂', he₂, hr₂⟩ := h
  have hkey' : m₁'.key = m₂'.key := hr₁.2.2.symm.trans hr₂.2.2
  rcases hplan : planOf defs with _ | ⟨raw, generic⟩ | ⟨raw, raws, generic, generics⟩
  case together =>
    simp only [Enters, hplan] at he₁ he₂
    exact hsame (he₁ ▸ he₂ ▸ hkey')
  case lifted =>
    simp only [Enters, hplan] at he₁ he₂
    by_cases hgeneralized : d.isGeneralized = true
    · rw [if_pos hgeneralized] at he₁ he₂
      exact hsame (he₁ ▸ he₂ ▸ hkey')
    · rw [if_neg hgeneralized] at he₁ he₂
      have hmem : d ∈ defs.filter (!·.isGeneralized) :=
        List.mem_filter.2 ⟨hd, by simpa using hgeneralized⟩
      rw [(filter_of_planOf_eq_lifted hplan).1] at hmem
      obtain rfl := List.mem_singleton.1 hmem
      rw [he₁, he₂] at hkey'
      rcases of_key_liftMember_eq hs hm₁ hm₂ hkey' with
        hkey | ⟨g₁, hg₁, g₂, hg₂, hg, hlift, herased₁, herased₂⟩
      · exact hsame hkey
      · by_cases hgsig : generic.erasedSignature policy g₁ = generic.erasedSignature policy g₂
        · exact hsame (key_eq_of_erasures hsig hg hgsig herased₁ herased₂)
        · have hr₁' : r.key = g₁.key := by rw [hr₁.2.2, he₁, hlift]
          obtain ⟨hdefs, hc₁⟩ := contributes_of_lifted hplan hg₁ hr₁.2.1 hr₁'
          obtain ⟨-, hc₂⟩ := contributes_of_lifted hplan hg₂ hr₁.2.1 (hr₁'.trans hg)
          exact ⟨generic, g₁, g₂, ⟨hdefs, hg₁, hg₂, hgsig, hc₁, hc₂⟩, hg⟩
  case halves => exact hsame (key_eq_of_enters_of_halves hs hplan he₁ he₂ hkey')

end ClassDef

open ClassDef

/-- Two sources with the same definition of a class keep its constructors, methods and fields and
report no generics declarations that differ, exactly if none of the lists has a key twice. -/
theorem copies_kept_iff {settings : Settings} {participants : List Snapshot} {name : Text}
    {c : ClassDef} {n : Nat}
    (hdefs : definitions participants name = c :: List.replicate (n + 1) c) :
    ∃ merged, (mergeClass settings participants name).value = some merged ∧
      ((∀ s ∈ Kind.own, (merged.declared s).map key = (c.declared s).map key) ∧
          (∀ k expected found, .genericsMismatch k expected found ∉
            conflicts (mergeClass settings participants name).log) ↔
        ∀ s ∈ Kind.own, ((c.declared s).map key).Nodup) := by
  have hclass : mergeClass settings participants name =
      mergeDefinitions settings participants c (List.replicate (n + 1) c) :=
    mergeClass_eq_mergeDefinitions hdefs
  obtain ⟨mods, -, body, merged, rfl, hmerged, hvalue, hlog⟩ :=
    mergeDefinitions_copies settings participants c (n + 1)
  rw [← hclass] at hvalue hlog
  refine ⟨merged, hvalue, ⟨fun h s hs => ?_, fun h => ?_⟩⟩
  · rw [← h.1 s hs, declared_mergeClass hdefs hvalue hs]
    exact nodup_keys_mergeAll _ _
  · have hprepared : ∀ s ∈ Kind.own,
        (((c.dropUntracked settings.merge).declared s).map key).Nodup := by
      intro s hs
      rw [keys_dropUntracked settings.merge c hs]
      exact h s hs
    obtain ⟨hnone, hkeys⟩ := mergeBody_copies settings.merge hprepared (n + 1)
    constructor
    · intro s hs
      rw [← keys_dropUntracked settings.merge c hs, ← hkeys s hs, hmerged]
      rcases Kind.mem_own_iff.1 hs with rfl | rfl | rfl <;> rfl
    · intro k expected found hmem
      rw [hlog, hnone, List.nil_append, conflicts_reportCollisions] at hmem
      obtain ⟨_, -, heq⟩ := List.mem_map.1 hmem
      cases heq

/-- Every member of a merged class is what members of its definitions were merged into. Overloads
with different erased signatures are merged into one member only where some of them have one key.
Sources with the same definition of a class keep what it declares and report no generics
declarations that differ exactly if no key comes twice, whatever the erased signatures are. -/
theorem overloads_collapsed_iff (settings : Settings) (participants : List Snapshot)
    (name : Text) :
    (∀ first second rest merged, definitions participants name = first :: second :: rest →
      (mergeClass settings participants name).value = some merged → ∀ s ∈ Kind.own, ∀ r,
        (r ∈ merged.declared s ↔
          ∃ d ∈ preparedDefinitions settings.merge participants name, ∃ m ∈ d.declared s,
            Contributes settings.merge settings.unboundPolicy
              (preparedDefinitions settings.merge participants name) s d m r) ∧
        ((∃ d m₁ m₂, Collapsed settings.merge settings.unboundPolicy
            (preparedDefinitions settings.merge participants name) s d m₁ m₂ r) ↔
          ∃ d m₁ m₂, Collapsed settings.merge settings.unboundPolicy
            (preparedDefinitions settings.merge participants name) s d m₁ m₂ r ∧
              m₁.key = m₂.key)) ∧
    ∀ c n, definitions participants name = c :: List.replicate (n + 1) c →
      ∃ merged, (mergeClass settings participants name).value = some merged ∧
        ((∀ s ∈ Kind.own, (merged.declared s).map key = (c.declared s).map key) ∧
            (∀ k expected found, .genericsMismatch k expected found ∉
              conflicts (mergeClass settings participants name).log) ↔
          ∀ s ∈ Kind.own, ((c.declared s).map key).Nodup) := by
  refine ⟨?_, fun c n hdefs => copies_kept_iff hdefs⟩
  intro first second rest merged hdefs hmerged s hs r
  refine ⟨mem_declared_mergeClass_iff hdefs hmerged hs, ?_, ?_⟩
  · rintro ⟨d, m₁, m₂, h⟩
    exact exists_collapsed_of_one_key hs h
  · rintro ⟨d, m₁, m₂, h, -⟩
    exact ⟨d, m₁, m₂, h⟩

/-! ### Overloads with one key -/

/-- A class with two methods of one name that take an instance of their own type parameter; the
parameters have different bounds. -/
def classWithOverloads : ClassDef where
  header := { kind := .header, name := "a.C".toList }
  methods := ["a.A", "a.B"].map fun bound =>
    { kind := .method, declaring := "a.C".toList, name := "m".toList, typeName := "void".toList,
      args := "{%0}".toList
      typeParams := some ("<%0 extends ".toList ++ bound.toList ++ ">".toList) }

/-- That class with the one method that its overloads become; it declares no generics. -/
def classWithOneOverload : ClassDef :=
  { classWithOverloads with
    methods := [{ kind := .method, declaring := "a.C".toList, name := "m".toList,
                  typeName := "void".toList, args := "{%0}".toList }] }

/-- Two sources with the class of two overloads. -/
def overloadedSources : List Snapshot := List.replicate 2 (.ofClasses [classWithOverloads])

/-- The erased signatures of the class are distinct, and yet its two methods become one, and their
generics declarations are reported to differ. -/
theorem distinct_overloads_collapse :
    (classWithOverloads.fullErasure .unresolved).value.signatures.Nodup ∧
      ∃ merged, (mergeClass {} overloadedSources "a.C".toList).value = some merged ∧
        merged.methods.length = 1 ∧
        conflicts (mergeClass {} overloadedSources "a.C".toList).log =
          [.genericsMismatch ⟨.method, "a.C".toList, "m".toList, "{%0}".toList⟩
            "<%0 extends a.A>".toList "<%0 extends a.B>".toList] := by
  refine ⟨by decide +kernel, classWithOneOverload, ?_, rfl, ?_⟩
  · decide +kernel
  · decide +kernel

theorem overloads_of_one_key_not_kept :
    ∃ merged, (mergeClass {} overloadedSources "a.C".toList).value = some merged ∧
      ¬ ((∀ s ∈ Kind.own, (merged.declared s).map key = (classWithOverloads.declared s).map key) ∧
        ∀ k expected found, .genericsMismatch k expected found ∉
          conflicts (mergeClass {} overloadedSources "a.C".toList).log) := by
  obtain ⟨merged, hvalue, hiff⟩ :=
    (overloads_collapsed_iff {} overloadedSources "a.C".toList).2 classWithOverloads 0
      (by decide +kernel)
  exact ⟨merged, hvalue, fun h => absurd (hiff.1 h .method (by decide)) (by decide)⟩

end ApiSurface
