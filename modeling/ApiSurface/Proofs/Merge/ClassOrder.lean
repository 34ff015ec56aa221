import ApiSurface.Proofs.Merge.Definitions
import ApiSurface.Proofs.Merge.MemberOrder

/-!
# Definitions in another order

`ClassDef.SameSources` says that two lists of definitions are the same, up to their order and up
to what the order decides. It holds of a list in another order, and every step of a merge keeps it:
a merged body (`sameSources_mergeBody`), a promotion (`sameSources_promoteOrKeep`), and so all
rounds together (`sameSources_mergeMixed`).
-/

namespace ApiSurface

open Conflict Finding Member

namespace ClassDef

/-- The definitions have the same of everything that a merge keeps, in whatever order. -/
structure SameSources (settings : MergeSettings) (defs defs' : List ClassDef) : Prop where
  /-- The generics declarations. -/
  typeParams : (defs.map (·.typeParams)).Perm (defs'.map (·.typeParams))
  /-- The annotations of the class. -/
  annots : ∀ a, (∃ c ∈ defs, a ∈ c.header.annots) ↔ ∃ c ∈ defs', a ∈ c.header.annots
  /-- The constructors, methods and fields. -/
  members : ∀ s ∈ Kind.own, ((membersOf defs s).map (Member.api settings)).Perm
    ((membersOf defs' s).map (Member.api settings))
  /-- Their modifiers are in order. -/
  valid : ∀ s ∈ Kind.own, ∀ m ∈ membersOf defs s, m.Valid
  /-- The keys of references and of inherited members. -/
  references : ∀ f ∈ [nested, permitted, inherited], ∀ k,
    k ∈ (defs.flatMap f).map key ↔ k ∈ (defs'.flatMap f).map key
  /-- The hidden names. -/
  hidden : ∀ f ∈ [hiddenFields, hiddenClasses], ∀ a,
    (∀ c ∈ defs, a ∈ f c) ↔ ∀ c ∈ defs', a ∈ f c

variable {settings : MergeSettings} {policy : UnboundPolicy}
  {defs defs' others others' : List ClassDef} {s : Kind}

namespace SameSources

theorem symm (h : SameSources settings defs defs') : SameSources settings defs' defs where
  typeParams := h.typeParams.symm
  annots a := (h.annots a).symm
  members s hs := (h.members s hs).symm
  valid s hs := valid_of_perm (h.members s hs) (h.valid s hs)
  references f hf k := (h.references f hf k).symm
  hidden f hf a := (h.hidden f hf a).symm

/-- A list of definitions in another order. -/
theorem of_perm (h : defs.Perm defs') (hvalid : ∀ s ∈ Kind.own, ∀ m ∈ membersOf defs s, m.Valid) :
    SameSources settings defs defs' where
  typeParams := h.map _
  annots a := by simp only [h.mem_iff]
  members s _ := (h.flatMap_right _).map _
  valid := hvalid
  references f _ k := ((h.flatMap_right f).map key).mem_iff
  hidden f _ a := by simp only [h.mem_iff]

theorem append (h : SameSources settings defs defs') (h' : SameSources settings others others') :
    SameSources settings (defs ++ others) (defs' ++ others') where
  typeParams := by
    rw [List.map_append, List.map_append]
    exact h.typeParams.append h'.typeParams
  annots a := by simp only [List.mem_append, or_and_right, exists_or, h.annots a, h'.annots a]
  members s hs := by
    simp only [membersOf, List.flatMap_append, List.map_append]
    exact (h.members s hs).append (h'.members s hs)
  valid s hs m hm := by
    rw [membersOf, List.flatMap_append, List.mem_append] at hm
    rcases hm with hm | hm
    · exact h.valid s hs m hm
    · exact h'.valid s hs m hm
  references f hf k := by
    simp only [List.flatMap_append, List.map_append, List.mem_append, h.references f hf k,
      h'.references f hf k]
  hidden f hf a := by
    simp only [List.forall_mem_append, h.hidden f hf a, h'.hidden f hf a]

end SameSources

/-! ### Single classes -/

theorem membersOf_singleton (c : ClassDef) (s : Kind) : membersOf [c] s = c.declared s :=
  List.append_nil _

section Singletons

variable {c c' : ClassDef}

theorem SameSources.singletons (typeParams : c.typeParams = c'.typeParams)
    (annots : c.header.annots = c'.header.annots)
    (members : ∀ s ∈ Kind.own, ((c.declared s).map (Member.api settings)).Perm
      ((c'.declared s).map (Member.api settings)))
    (valid : ∀ s ∈ Kind.own, ∀ m ∈ c.declared s, m.Valid)
    (references : ∀ f ∈ [nested, permitted, inherited], ∀ k,
      k ∈ (f c).map key ↔ k ∈ (f c').map key)
    (hidden : ∀ f ∈ [hiddenFields, hiddenClasses], f c = f c') :
    SameSources settings [c] [c'] where
  typeParams := .of_eq (congrArg (fun p => [p]) typeParams)
  annots a := by simp only [List.mem_singleton, exists_eq_left, annots]
  members s hs := by
    rw [membersOf_singleton, membersOf_singleton]
    exact members s hs
  valid s hs := by
    rw [membersOf_singleton]
    exact valid s hs
  references f hf k := by
    rw [List.flatMap_singleton, List.flatMap_singleton]
    exact references f hf k
  hidden f hf a := by rw [List.forall_mem_singleton, List.forall_mem_singleton, hidden f hf]

theorem typeParams_of_singletons (h : SameSources settings [c] [c']) :
    c.typeParams = c'.typeParams := by
  have := h.typeParams
  simpa using this

theorem annots_of_singletons (h : SameSources settings [c] [c']) :
    c.header.annots = c'.header.annots := by
  refine SortedSet.ext fun a => ?_
  have := h.annots a
  simpa only [List.mem_singleton, exists_eq_left] using this

theorem members_of_singletons (h : SameSources settings [c] [c']) (hs : s ∈ Kind.own) :
    ((c.declared s).map (Member.api settings)).Perm
      ((c'.declared s).map (Member.api settings)) := by
  have := h.members s hs
  rwa [membersOf_singleton, membersOf_singleton] at this

theorem valid_of_singletons (h : SameSources settings [c] [c']) (hs : s ∈ Kind.own) :
    ∀ m ∈ c.declared s, m.Valid := by
  have := h.valid s hs
  rwa [membersOf_singleton] at this

theorem references_of_singletons (h : SameSources settings [c] [c']) :
    ∀ f ∈ [nested, permitted, inherited], ∀ k, k ∈ (f c).map key ↔ k ∈ (f c').map key := by
  intro f hf k
  have := h.references f hf k
  rwa [List.flatMap_singleton, List.flatMap_singleton] at this

theorem hidden_of_singletons (h : SameSources settings [c] [c']) :
    ∀ f ∈ [hiddenFields, hiddenClasses], f c = f c' := by
  intro f hf
  refine SortedSet.ext fun a => ?_
  have := h.hidden f hf a
  rwa [List.forall_mem_singleton, List.forall_mem_singleton] at this

theorem params_of_singletons (h : SameSources settings [c] [c']) (hname : c.name = c'.name)
    (policy : UnboundPolicy) : c.params policy = c'.params policy := by
  rw [params, params, hname, typeParams_of_singletons h]

theorem ownMembers_of_singletons (h : SameSources settings [c] [c']) :
    (c.ownMembers.map (Member.api settings)).Perm (c'.ownMembers.map (Member.api settings)) := by
  simp only [ownMembers, List.map_append]
  exact ((members_of_singletons h (s := .constructor) (by decide)).append
    (members_of_singletons h (s := .method) (by decide))).append
    (members_of_singletons h (s := .field) (by decide))

theorem isGeneralized_of_singletons (h : SameSources settings [c] [c'])
    (hname : c.name = c'.name) : c.isGeneralized = c'.isGeneralized := by
  have hmember : (∃ m ∈ c.ownMembers, m.declaring = c'.name ∧ m.typeParams.isSome = true) ↔
      ∃ m ∈ c'.ownMembers, m.declaring = c'.name ∧ m.typeParams.isSome = true := by
    refine exists_mem_iff (ownMembers_of_singletons h) fun {m m'} hmm' => ?_
    have hdeclaring : m.declaring = m'.declaring :=
      congrArg MemberKey.declaring (key_of_api_eq hmm')
    rw [hdeclaring, typeParams_of_api_eq hmm']
  rw [Bool.eq_iff_iff]
  simp only [isGeneralized, Bool.or_eq_true, List.any_eq_true, Bool.and_eq_true, decide_eq_true_eq,
    hname, hmember, isGeneric, typeParams_of_singletons h]

end Singletons

/-! ### Merged bodies -/

section Bodies

variable (first : ClassDef) (rest : List ClassDef)

/-- A merged body has the annotations of all definitions. -/
theorem mem_annots_mergeBody {a : Annot} :
    a ∈ (mergeBody settings first rest).value.header.annots ↔
      ∃ c ∈ first :: rest, a ∈ c.header.annots := by
  rw [header_mergeBody, mem_allAnnots_iff]
  simp only [List.mem_map, exists_exists_and_eq_and]

/-- A merged body has the references and inherited members of all definitions. -/
theorem mem_keys_mergeBody {f : ClassDef → List Member} (hf : f ∈ [nested, permitted, inherited])
    {k : MemberKey} : k ∈ (f (mergeBody settings first rest).value).map key ↔
      k ∈ ((first :: rest).flatMap f).map key := by
  rw [← mem_map_distinctBy_iff (l := (first :: rest).flatMap f)]
  simp only [List.mem_cons, List.not_mem_nil, or_false] at hf
  rcases hf with rfl | rfl | rfl <;> rfl

/-- A merged body hides what all definitions hide. -/
theorem mem_hidden_mergeBody {f : ClassDef → SortedSet Text}
    (hf : f ∈ [hiddenFields, hiddenClasses]) {a : Text} :
    a ∈ f (mergeBody settings first rest).value ↔ ∀ c ∈ first :: rest, a ∈ f c := by
  rw [List.forall_mem_cons, ← mem_foldl_inter_iff]
  simp only [List.mem_cons, List.not_mem_nil, or_false] at hf
  rcases hf with rfl | rfl <;> rfl

end Bodies

/-- Bodies that are merged from the same definitions in another order are the same, and nothing is
reported for one of them exactly if nothing is for the other. -/
theorem sameSources_mergeBody {first first' : ClassDef} {rest rest' : List ClassDef}
    (h : SameSources settings (first :: rest) (first' :: rest')) :
    SameSources settings [(mergeBody settings first rest).value]
        [(mergeBody settings first' rest').value] ∧
      ((mergeBody settings first rest).log = [] ↔ (mergeBody settings first' rest').log = []) := by
  have hheaders : ((first.header :: rest.map (·.header)).map (·.typeParams)).Perm
      ((first'.header :: rest'.map (·.header)).map (·.typeParams)) := by
    have hmap : ∀ l : List ClassDef, (l.map (·.header)).map (·.typeParams) = l.map typeParams :=
      fun _ => List.map_map
    rw [← List.map_cons (f := fun c : ClassDef => c.header),
      ← List.map_cons (f := fun c : ClassDef => c.header), hmap, hmap]
    exact h.typeParams
  obtain ⟨hparams, hparamsLog⟩ := mergeTypeParams_perm hheaders
  have hmembers := fun s hs => mergeAll_perm (h.valid s hs) (h.members s hs)
  refine ⟨.singletons hparams (SortedSet.ext fun a => ?annots) (fun s hs => ?members)
    (fun s hs m hm => ?valid) (fun f hf k => ?references)
    (fun f hf => SortedSet.ext fun a => ?hidden), ?log⟩
  case annots =>
    rw [mem_annots_mergeBody, mem_annots_mergeBody]
    exact h.annots a
  case members =>
    rw [declared_mergeBody hs, declared_mergeBody hs]
    exact (hmembers s hs).1
  case valid =>
    rw [declared_mergeBody hs] at hm
    exact valid_of_mem_mergeAll (h.valid s hs) hm
  case references =>
    rw [mem_keys_mergeBody _ _ hf, mem_keys_mergeBody _ _ hf]
    exact h.references f hf k
  case hidden =>
    rw [mem_hidden_mergeBody _ _ hf, mem_hidden_mergeBody _ _ hf]
    exact h.hidden f hf a
  case log =>
    rw [log_mergeBody, log_mergeBody]
    simp only [List.append_eq_nil_iff, hparamsLog, (hmembers .constructor (by decide)).2,
      (hmembers .method (by decide)).2, (hmembers .field (by decide)).2]

/-! ### Promotion -/

variable {raw raw' generic generic' : ClassDef}

theorem promotes_of_same (hraw : SameSources settings [raw] [raw'])
    (hgeneric : SameSources settings [generic] [generic']) (hname : generic.name = generic'.name)
    (h : Promotes policy raw generic) : Promotes policy raw' generic' := by
  rw [promotes_iff] at h ⊢
  intro s hs
  obtain ⟨hlength, hfind⟩ := h s hs
  have hr := members_of_singletons hraw hs
  have hg := members_of_singletons hgeneric hs
  constructor
  · have hrl := hr.length_eq
    have hgl := hg.length_eq
    simp only [List.length_map] at hrl hgl
    omega
  · intro m' hm'
    obtain ⟨m, hm, hmm'⟩ := exists_of_mem hr.symm hm'
    obtain ⟨g, hg', hkey, htype⟩ := hfind m hm
    obtain ⟨g', hg'', hgg'⟩ := exists_of_mem hg hg'
    have herased := api_erased policy (generic.params policy) hgg'
    rw [← params_of_singletons hgeneric hname]
    exact ⟨g', hg'', by rw [key_of_api_eq herased, hkey, key_of_api_eq hmm'],
      by rw [typeName_of_api_eq herased, htype, typeName_of_api_eq hmm']⟩

/-- Where a raw class without repeated keys is promoted, no two generic members are erased to one
key. -/
theorem nodup_erased_of_promotes (hs : s ∈ Kind.own) (h : Promotes policy raw generic)
    (hnodup : ((raw.declared s).map key).Nodup) :
    ((generic.declared s).map fun g =>
      (g.erased policy (generic.params policy)).key).Nodup := by
  obtain ⟨hlength, hfind⟩ := promotes_iff.1 h s hs
  have hsubset : (raw.declared s).map key ⊆ (generic.declared s).map fun g =>
      (g.erased policy (generic.params policy)).key := by
    intro k hk
    obtain ⟨m, hm, rfl⟩ := List.mem_map.1 hk
    obtain ⟨g, hg, hkey, -⟩ := hfind m hm
    exact List.mem_map.2 ⟨g, hg, hkey⟩
  have hle : ((generic.declared s).map fun g =>
      (g.erased policy (generic.params policy)).key).length ≤
        ((raw.declared s).map key).length := by
    simp only [List.length_map, hlength, Nat.le_refl]
  have hperm := (List.subperm_of_subset hnodup hsubset).perm_of_length_le hle
  exact hperm.nodup_iff.1 hnodup

/-- Members that are the same but for the order are promoted to such members. -/
theorem api_liftMember (hs : s ∈ Kind.own) (hraw : SameSources settings [raw] [raw'])
    (hgeneric : SameSources settings [generic] [generic']) (hname : generic.name = generic'.name)
    (hnodup : ((raw.declared s).map key).Nodup) {m m' : Member} (hm : m ∈ raw.declared s)
    (hm' : m' ∈ raw'.declared s) (hmm' : m.api settings = m'.api settings) :
    (liftMember policy raw generic s m).api settings =
      (liftMember policy raw' generic' s m').api settings := by
  by_cases h : Promotes policy raw generic
  · have h' : Promotes policy raw' generic' := promotes_of_same hraw hgeneric hname h
    obtain ⟨g, hg, hkey, htype, hlift⟩ := exists_adopt_of_promoted hs h hm
    obtain ⟨g', hg', hkey', htype', hlift'⟩ := exists_adopt_of_promoted hs h' hm'
    have hparams := params_of_singletons hgeneric hname policy
    -- the counterpart of `g'` is erased to the key of `m`, as `g` is, so it is `g`
    obtain ⟨x, hx, hxg'⟩ := exists_of_mem (members_of_singletons hgeneric hs).symm hg'
    have herased := api_erased policy (generic.params policy) hxg'
    have hxkey : (x.erased policy (generic.params policy)).key =
        (g.erased policy (generic.params policy)).key := by
      rw [hkey, key_of_api_eq herased, hparams, hkey', key_of_api_eq hmm']
    obtain rfl : x = g :=
      List.inj_on_of_nodup_map (nodup_erased_of_promotes hs h hnodup) hx hg hxkey
    have hkind : (x.erased policy (generic.params policy)).kind = m.kind := kind_of_key_eq hkey
    rw [hlift, hlift', ← hparams]
    exact api_adopt hmm' herased hxg' hkind hkind
  · have h' : ¬ Promotes policy raw' generic' := fun h' =>
      h (promotes_of_same hraw.symm hgeneric.symm hname.symm h')
    rw [liftMember_of_not_promoted h, liftMember_of_not_promoted h', hmm']

/-- Classes that are the same but for the order are promoted to such classes. -/
theorem sameSources_promoteOrKeep (hraw : SameSources settings [raw] [raw'])
    (hgeneric : SameSources settings [generic] [generic']) (hname : generic.name = generic'.name)
    (hnodup : ∀ s ∈ Kind.own, ((raw.declared s).map key).Nodup) :
    SameSources settings [(promoteOrKeep policy raw generic).value]
      [(promoteOrKeep policy raw' generic').value] := by
  have hmembers : ∀ s ∈ Kind.own,
      (((promoteOrKeep policy raw generic).value.declared s).map (Member.api settings)).Perm
        (((promoteOrKeep policy raw' generic').value.declared s).map (Member.api settings)) := by
    intro s hs
    rw [declared_promoteOrKeep hs, declared_promoteOrKeep hs, List.map_map, List.map_map]
    exact perm_map_of_perm_map (members_of_singletons hraw hs) fun m hm m' hm' hmm' =>
      api_liftMember hs hraw hgeneric hname (hnodup s hs) hm hm' hmm'
  obtain ⟨_, _, _, heq⟩ := exists_promoteOrKeep_eq policy raw generic
  obtain ⟨_, _, _, heq'⟩ := exists_promoteOrKeep_eq policy raw' generic'
  have htypeParams := typeParams_of_singletons hraw
  have hannots := annots_of_singletons hraw
  have hreferences := references_of_singletons hraw
  have hhidden := hidden_of_singletons hraw
  refine .singletons ?typeParams ?annots hmembers (fun s hs m hm => ?valid)
    (fun f hf k => ?references) (fun f hf => ?hidden)
  case typeParams =>
    rw [heq, heq']
    exact htypeParams
  case annots =>
    rw [heq, heq']
    exact hannots
  case valid =>
    rw [declared_promoteOrKeep hs] at hm
    obtain ⟨r, hr, rfl⟩ := List.mem_map.1 hm
    exact valid_liftMember (valid_of_singletons hraw hs r hr)
  case references =>
    have hkeys := hreferences f hf k
    rw [heq, heq']
    simp only [List.mem_cons, List.not_mem_nil, or_false] at hf
    rcases hf with rfl | rfl | rfl <;> exact hkeys
  case hidden =>
    have hnames := hhidden f hf
    rw [heq, heq']
    simp only [List.mem_cons, List.not_mem_nil, or_false] at hf
    rcases hf with rfl | rfl <;> exact hnames

/-! ### All rounds -/

theorem planOf_eq_together_of_perm (h : defs.Perm defs') (hplan : planOf defs = .together) :
    planOf defs' = .together := by
  refine planOf_eq_together ?_
  rcases filter_of_planOf_eq_together hplan with hnil | hnil
  · refine .inl fun c hc => ?_
    simpa using List.filter_eq_nil_iff.1 hnil c (h.symm.subset hc)
  · refine .inr fun c hc => ?_
    simpa using List.filter_eq_nil_iff.1 hnil c (h.symm.subset hc)

theorem planOf_eq_lifted_of_perm {raw generic : ClassDef} (h : defs.Perm defs')
    (hplan : planOf defs = .lifted raw generic) : planOf defs' = .lifted raw generic := by
  obtain ⟨hraw, hgeneric⟩ := filter_of_planOf_eq_lifted hplan
  have hraw' : defs'.filter (!·.isGeneralized) = [raw] :=
    List.perm_singleton.1 (hraw ▸ (h.filter _).symm)
  have hgeneric' : defs'.filter (·.isGeneralized) = [generic] :=
    List.perm_singleton.1 (hgeneric ▸ (h.filter _).symm)
  rw [planOf, hraw', hgeneric']

theorem exists_planOf_eq_halves_of_perm {raw generic : ClassDef} {raws generics : List ClassDef}
    (h : defs.Perm defs') (hplan : planOf defs = .halves raw raws generic generics) :
    ∃ raw' raws' generic' generics', planOf defs' = .halves raw' raws' generic' generics' ∧
      (raw :: raws).Perm (raw' :: raws') ∧ (generic :: generics).Perm (generic' :: generics') := by
  rcases hplan' : planOf defs' with _ | ⟨raw', generic'⟩ | ⟨raw', raws', generic', generics'⟩
  · rw [planOf_eq_together_of_perm h.symm hplan'] at hplan
    cases hplan
  · rw [planOf_eq_lifted_of_perm h.symm hplan'] at hplan
    cases hplan
  · obtain ⟨hraw, hgeneric⟩ := filter_of_planOf_eq_halves hplan
    obtain ⟨hraw', hgeneric'⟩ := filter_of_planOf_eq_halves hplan'
    refine ⟨raw', raws', generic', generics', rfl, ?_, ?_⟩
    · rw [← hraw, ← hraw']
      exact h.filter _
    · rw [← hgeneric, ← hgeneric']
      exact h.filter _

/-- Both halves of definitions in another order are the same, and nothing is reported for one pair
of halves exactly if nothing is for the other. -/
theorem sameSources_mergeHalves (policy : UnboundPolicy) {raw raw' generic generic' : ClassDef}
    {raws raws' generics generics' : List ClassDef} {name : Text}
    (hraws : SameSources settings (raw :: raws) (raw' :: raws'))
    (hgenerics : SameSources settings (generic :: generics) (generic' :: generics'))
    (hname : generic.name = name) (hname' : generic'.name = name) :
    SameSources settings [(mergeHalves settings policy raw raws generic generics).value.1]
        [(mergeHalves settings policy raw' raws' generic' generics').value.1] ∧
      SameSources settings [(mergeHalves settings policy raw raws generic generics).value.2]
        [(mergeHalves settings policy raw' raws' generic' generics').value.2] ∧
      (conflicts (mergeHalves settings policy raw raws generic generics).log = [] ↔
        conflicts (mergeHalves settings policy raw' raws' generic' generics').log = []) := by
  obtain ⟨hraw, hrawLog⟩ := sameSources_mergeBody hraws
  obtain ⟨hgeneric, hgenericLog⟩ := sameSources_mergeBody hgenerics
  have hnames : (mergeBody settings generic generics).value.name =
      (mergeBody settings generic' generics').value.name := by
    rw [name_mergeBody, name_mergeBody, hname, hname']
  refine ⟨?_, ?_, ?_⟩
  · rw [fst_mergeHalves, fst_mergeHalves, ← isGeneralized_of_singletons hgeneric hnames]
    split
    next =>
      refine sameSources_promoteOrKeep hraw hgeneric hnames fun s hs => ?_
      rw [declared_mergeBody hs]
      exact nodup_keys_mergeAll _ _
    next => exact hraw
  · rw [snd_mergeHalves, snd_mergeHalves]
    exact hgeneric
  · simp only [conflicts_mergeHalves, conflicts_mergeBodies, List.append_eq_nil_iff, hrawLog,
      hgenericLog]

/-- Fewer definitions have fewer members. -/
theorem membersOf_subset (h : defs ⊆ others) (s : Kind) : membersOf defs s ⊆ membersOf others s := by
  intro m hm
  obtain ⟨c, hc, hm⟩ := List.mem_flatMap.1 hm
  exact List.mem_flatMap.2 ⟨c, h hc, hm⟩

/-- Where one raw definition is lifted to the generic ones, modifiers stay in order. -/
theorem valid_of_mem_lifted {raw generic : ClassDef} (hplan : planOf defs = .lifted raw generic)
    (hvalid : ∀ s ∈ Kind.own, ∀ m ∈ membersOf defs s, m.Valid) :
    ∀ s ∈ Kind.own,
      ∀ m ∈ membersOf (defs.map (liftTo (promoteOrKeep policy raw generic).value)) s, m.Valid := by
  intro s hs m hm
  obtain ⟨c, hc, hm⟩ := List.mem_flatMap.1 hm
  obtain ⟨d, hd, rfl⟩ := List.mem_map.1 hc
  unfold liftTo at hm
  split at hm
  next => exact hvalid s hs m (List.mem_flatMap.2 ⟨d, hd, hm⟩)
  next =>
    rw [declared_promoteOrKeep hs] at hm
    obtain ⟨m, hmem, rfl⟩ := List.mem_map.1 hm
    have hraw : raw ∈ defs.filter (!·.isGeneralized) := by
      rw [(filter_of_planOf_eq_lifted hplan).1]
      exact List.mem_cons_self
    exact valid_liftMember
      (hvalid s hs m (List.mem_flatMap.2 ⟨raw, (List.mem_filter.1 hraw).1, hmem⟩))

/-- The merged bodies of definitions in another order are the same, and nothing is reported for one
of them exactly if nothing is for the other. -/
theorem sameSources_mergeMixed {first first' : ClassDef} {rest rest' : List ClassDef} {name : Text}
    (h : (first :: rest).Perm (first' :: rest'))
    (hvalid : ∀ s ∈ Kind.own, ∀ m ∈ membersOf (first :: rest) s, m.Valid)
    (hname : ∀ c ∈ first :: rest, c.name = name) :
    SameSources settings [(mergeMixed settings policy first rest).value]
        [(mergeMixed settings policy first' rest').value] ∧
      (conflicts (mergeMixed settings policy first rest).log = [] ↔
        conflicts (mergeMixed settings policy first' rest').log = []) := by
  rcases hplan : planOf (first :: rest) with _ | ⟨raw, generic⟩ | ⟨raw, raws, generic, generics⟩
  case together =>
    have hplan' := planOf_eq_together_of_perm h hplan
    simp only [mergeMixed, hplan, hplan', value_mergeBodies, conflicts_mergeBodies]
    exact sameSources_mergeBody (.of_perm h hvalid)
  case lifted =>
    have hplan' := planOf_eq_lifted_of_perm h hplan
    simp only [mergeMixed, hplan, hplan', Logged.value_bind, Logged.log_bind, conflicts_append,
      conflicts_promoteOrKeep, List.nil_append, value_mergeBodies, conflicts_mergeBodies]
    exact sameSources_mergeBody (.of_perm (h.map _) (valid_of_mem_lifted hplan hvalid))
  case halves =>
    obtain ⟨raw', raws', generic', generics', hplan', hraws, hgenerics⟩ :=
      exists_planOf_eq_halves_of_perm h hplan
    obtain ⟨hraw, hgeneric⟩ := filter_of_planOf_eq_halves hplan
    have hvalidOf : ∀ defs : List ClassDef, defs ⊆ first :: rest →
        ∀ s ∈ Kind.own, ∀ m ∈ membersOf defs s, m.Valid :=
      fun defs hdefs s hs m hm => hvalid s hs m (membersOf_subset hdefs s hm)
    have hrawsSubset : raw :: raws ⊆ first :: rest := hraw ▸ List.filter_sublist.subset
    have hgenericsSubset : generic :: generics ⊆ first :: rest :=
      hgeneric ▸ List.filter_sublist.subset
    obtain ⟨hfst, hsnd, hlog⟩ := sameSources_mergeHalves policy
      (.of_perm hraws (hvalidOf _ hrawsSubset) : SameSources settings _ _)
      (.of_perm hgenerics (hvalidOf _ hgenericsSubset))
      (hname generic (hgenericsSubset List.mem_cons_self))
      (hname generic' (hgenericsSubset (hgenerics.symm.subset List.mem_cons_self)))
    obtain ⟨hlast, hlastLog⟩ := sameSources_mergeBody (hfst.append hsnd)
    simp only [mergeMixed, hplan, hplan', Logged.value_bind, Logged.log_bind, conflicts_append,
      value_mergeBodies, conflicts_mergeBodies, List.append_eq_nil_iff, hlog]
    exact ⟨hlast, and_congr_right fun _ => hlastLog⟩

end ClassDef

end ApiSurface
