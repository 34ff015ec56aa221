import ApiSurface.Proofs.Merge.SelfMerge

/-!
# Merging a class with its erasure

An old source may have the erasure of a class that a newer source has in generic form. Merged in
any number and order they give the generic class back: promotion finds for every erased member the
generic one that it is the erasure of (`promoteOrKeep_fullErasure`), and what is merged then are
copies of the class, some of them without its generics declaration (`mergeMixed_eq`).
`merge_erasure_eq_self` is the result for the merged class and for the snapshot.
-/

namespace ApiSurface

open Finding

/-- What a class has to satisfy for copies of it and of its erasure to be merged to the class. -/
structure ClassDef.ErasureMergeable (policy : UnboundPolicy) (g : ClassDef) : Prop where
  /-- The class or one of its members has a generics declaration. -/
  generalized : g.isGeneralized = true
  /-- The modifiers of the class and its members are in order. -/
  valid : ∀ m ∈ g.header :: g.ownMembers, m.Valid
  /-- The class and its members have at most one visibility each. -/
  visibility : ∀ m ∈ g.header :: g.ownMembers, m.modifiers.OneVisibility
  /-- The class lists no interfaces but its own. -/
  direct : ∀ m ∈ g.interfaces, m.direct = true
  /-- No interface is listed twice. -/
  interfaces : (g.interfaces.map (·.name)).Nodup
  /-- No list of members has a key twice. -/
  keys : ∀ l ∈ [g.constructors, g.methods, g.fields, g.nested, g.permitted, g.inherited],
    (l.map Member.key).Nodup
  /-- No two constructors, methods or fields are erased to one key. -/
  erasedKeys : ∀ s ∈ Kind.own, (((g.fullErasure policy).value.declared s).map Member.key).Nodup
  /-- References to nested types and permitted subtypes have no type arguments and no types. -/
  references : ∀ m ∈ g.nested ++ g.permitted,
    m.typeParams = none ∧ m.typeName = [] ∧ m.args = [] ∧ m.throws = []

namespace Member

/-- Where no two generic members are erased to one key, promotion finds for the erasure of each
the member itself. -/
theorem promote?_erased {policy : UnboundPolicy} {outer : Params} {ms : List Member}
    (h : ((ms.map (·.erased policy outer)).map key).Nodup) {m : Member} (hm : m ∈ ms) :
    promote? (ms.map fun g => (g.erased policy outer, g)) (m.erased policy outer) = some m := by
  have hfind : (ms.map fun g => (g.erased policy outer, g)).find?
      (fun e => e.1.key = (m.erased policy outer).key ∧
        e.1.typeName = (m.erased policy outer).typeName) = some (m.erased policy outer, m) := by
    refine find?_eq_some_of_nodup_map (fun e => e.1.key) ?_ (List.mem_map_of_mem hm)
      (by simp) ?_
    · rwa [List.map_map] at h ⊢
    · intro e _ he
      exact And.left (by simpa using he)
  rw [promote?, hfind, Option.map_some]
  have hadopt : (m.erased policy outer).adopt (m.erased policy outer) m = m := by
    rw [adopt, if_pos rfl]
    rfl
  rw [hadopt]

/-- A signature tells a name and its arguments, if names can be told from lists of arguments. -/
theorem key_eq_of_signature_eq {m n : Member} (hkind : m.kind = n.kind)
    (hdeclaring : m.declaring = n.declaring) (hm : '(' ∉ m.name) (hn : '(' ∉ n.name)
    (hargs : m.kind.isCallable = false → m.args = n.args) (h : m.signature = n.signature) :
    m.key = n.key := by
  have htexts : m.name = n.name ∧ m.args = n.args := by
    rw [signature, signature, ← hkind] at h
    split at h
    next =>
      have htext : m.name ++ '(' :: (m.args ++ [')']) = n.name ++ '(' :: (n.args ++ [')']) := by
        simpa using h
      have hcut := congrArg (Text.cutFirst? '(') htext
      rw [Text.cutFirst?_eq_some_iff.2 ⟨rfl, hm⟩, Text.cutFirst?_eq_some_iff.2 ⟨rfl, hn⟩,
        Option.some.injEq, Prod.mk.injEq] at hcut
      exact ⟨hcut.1, List.append_cancel_right hcut.2⟩
    next hcallable => exact ⟨h, hargs (eq_false_of_ne_true hcallable)⟩
  rw [key, key, hkind, hdeclaring, htexts.1, htexts.2]

theorem mapM_eq_some_self {α : Type _} {f : α → Option α} {l : List α}
    (h : ∀ a ∈ l, f a = some a) : l.mapM f = some l := by
  induction l with
  | nil => rfl
  | cons a l ih =>
    rw [List.mapM_cons, h a List.mem_cons_self, ih fun b hb => h b (List.mem_cons_of_mem _ hb)]
    rfl

/-- The erasures of the members of a list are promoted to the members. -/
theorem promoteAll?_erased {policy : UnboundPolicy} {outer : Params} {ms : List Member}
    (h : ((ms.map (·.erased policy outer)).map key).Nodup) :
    promoteAll? (ms.map (·.erased policy outer)) (ms.map (·.erased policy outer)) ms = some ms := by
  have hzip : (ms.map (·.erased policy outer)).zip ms =
      ms.map fun g => (g.erased policy outer, g) := by
    have := List.zip_map' (f := (·.erased policy outer)) (g := id) (l := ms)
    rwa [List.map_id] at this
  rw [promoteAll?, if_pos rfl, hzip, List.mapM_map]
  exact mapM_eq_some_self fun m hm => promote?_erased h hm

theorem erased_eq_self {policy : UnboundPolicy} {outer : Params} {m : Member}
    (h : m.typeParams = none ∧ m.typeName = [] ∧ m.args = [] ∧ m.throws = []) :
    m.erased policy outer = m := by
  obtain ⟨hparams, htype, hargs, hthrows⟩ := h
  cases m
  cases hparams
  cases htype
  cases hargs
  cases hthrows
  rfl

end Member

namespace ClassDef

variable {policy : UnboundPolicy} {g : ClassDef}

/-! ### The erasure -/

theorem isGeneralized_fullErasure (policy : UnboundPolicy) (g : ClassDef) :
    (g.fullErasure policy).value.isGeneralized = false := by
  have hmembers : ∀ m ∈ (g.fullErasure policy).value.ownMembers, m.typeParams = none := by
    intro m hm
    obtain ⟨s, hs, hm⟩ := mem_ownMembers_iff.1 hm
    rw [declared_fullErasure hs] at hm
    obtain ⟨m, -, rfl⟩ := List.mem_map.1 hm
    rfl
  rw [isGeneralized, List.any_eq_false.2 fun m hm => by simp [hmembers m hm]]
  rfl

/-- The references of the class are those of its erasure. -/
theorem ErasureMergeable.fullErasure_eq (h : g.ErasureMergeable policy) :
    (g.fullErasure policy).value = { g.dropTypeParams with
      constructors := g.constructors.map (·.erased policy (g.params policy))
      methods := g.methods.map (·.erased policy (g.params policy))
      fields := g.fields.map (·.erased policy (g.params policy)) } := by
  have hself : ∀ ms : List Member, (∀ m ∈ ms, m ∈ g.nested ++ g.permitted) →
      ms.map (·.erased policy (g.params policy)) = ms := by
    intro ms hms
    conv => rhs; rw [← List.map_id ms]
    exact List.map_congr_left fun m hm => Member.erased_eq_self (h.references m (hms m hm))
  simp only [fullErasure, mapDeclared, dropTypeParams,
    hself g.nested (fun m hm => List.mem_append_left _ hm),
    hself g.permitted (fun m hm => List.mem_append_right _ hm)]

/-- The erasure is promoted to the class without its own generics declaration. -/
theorem ErasureMergeable.promoteOrKeep_fullErasure (h : g.ErasureMergeable policy) :
    (promoteOrKeep policy (g.fullErasure policy).value g).value = g.dropTypeParams := by
  have hpromoteAll : ∀ s ∈ Kind.own, Member.promoteAll? ((g.fullErasure policy).value.declared s)
      ((g.fullErasure policy).value.declared s) (g.declared s) = some (g.declared s) := by
    intro s hs
    have hkeys := h.erasedKeys s hs
    rw [declared_fullErasure hs] at hkeys ⊢
    exact Member.promoteAll?_erased hkeys
  have hpromoteBy : promoteBy? (g.fullErasure policy).value (g.fullErasure policy).value g =
      some g.dropTypeParams := by
    have hconstructors := hpromoteAll .constructor (by decide)
    have hmethods := hpromoteAll .method (by decide)
    have hfields := hpromoteAll .field (by decide)
    simp only [declared] at hconstructors hmethods hfields
    rw [promoteBy?, hconstructors, hmethods, hfields]
    simp only [Option.bind_eq_bind, Option.bind_some, Option.pure_def, h.fullErasure_eq]
    rfl
  rw [promoteOrKeep, Logged.value_map, Logged.value_mapLog, promote?, Logged.value_map, hpromoteBy]
  rfl

theorem ErasureMergeable.bodyMergeable (h : g.ErasureMergeable policy) : g.BodyMergeable where
  valid m hm := h.valid m (List.mem_cons_of_mem _ hm)
  visibility m hm := h.visibility m (List.mem_cons_of_mem _ hm)
  keys := h.keys

/-- The erasure has the modifiers of the class, and its lists have no key twice either. -/
theorem ErasureMergeable.bodyMergeable_fullErasure (h : g.ErasureMergeable policy) :
    (g.fullErasure policy).value.BodyMergeable := by
  have hown : ∀ m ∈ (g.fullErasure policy).value.ownMembers,
      ∃ m' ∈ g.ownMembers, m = m'.erased policy (g.params policy) := by
    intro m hm
    obtain ⟨s, hs, hm⟩ := mem_ownMembers_iff.1 hm
    rw [declared_fullErasure hs] at hm
    obtain ⟨m', hm', rfl⟩ := List.mem_map.1 hm
    exact ⟨m', mem_ownMembers_iff.2 ⟨s, hs, hm'⟩, rfl⟩
  constructor
  case valid =>
    intro m hm
    obtain ⟨m', hm', rfl⟩ := hown m hm
    exact h.valid m' (List.mem_cons_of_mem _ hm')
  case visibility =>
    intro m hm
    obtain ⟨m', hm', rfl⟩ := hown m hm
    exact h.visibility m' (List.mem_cons_of_mem _ hm')
  case keys =>
    have hkeys := h.keys
    have hconstructors := h.erasedKeys .constructor (by decide)
    have hmethods := h.erasedKeys .method (by decide)
    have hfields := h.erasedKeys .field (by decide)
    simp only [declared, h.fullErasure_eq, List.forall_mem_cons]
      at hconstructors hmethods hfields hkeys ⊢
    exact ⟨hconstructors, hmethods, hfields, hkeys.2.2.2⟩

/-! ### The merge -/

variable {first : ClassDef} {rest : List ClassDef}

/-- A raw definition that is the erasure of the only generic one is put in generic terms. -/
theorem ErasureMergeable.mergeMixed_lifted (h : g.ErasureMergeable policy)
    (hdefs : ∀ c ∈ first :: rest, c = (g.fullErasure policy).value ∨ c = g)
    (hg : g ∈ first :: rest)
    (hplan : planOf (first :: rest) = .lifted (g.fullErasure policy).value g) :
    (mergeMixed {} policy first rest).value = g ∧
      conflicts (mergeMixed {} policy first rest).log = [] := by
  have hlift : ∀ d ∈ (first :: rest).map (liftTo g.dropTypeParams),
      d = g ∨ d = g.dropTypeParams := by
    intro d hd
    obtain ⟨c, hc, rfl⟩ := List.mem_map.1 hd
    rcases hdefs c hc with rfl | rfl
    · exact .inr (if_neg (by simp [isGeneralized_fullErasure]))
    · exact .inl (if_pos h.generalized)
  have hmem : g ∈ (first :: rest).map (liftTo g.dropTypeParams) :=
    List.mem_map.2 ⟨g, hg, if_pos h.generalized⟩
  have hbody := mergeBody_eq_pure h.bodyMergeable hlift hmem
  simp only [mergeMixed, hplan, Logged.value_bind, Logged.log_bind, conflicts_append,
    conflicts_promoteOrKeep, h.promoteOrKeep_fullErasure, value_mergeBodies,
    conflicts_mergeBodies, hbody, Logged.value_pure, Logged.log_pure, List.append_nil, and_self]

/-- Copies of the erasure and copies of the class are merged by themselves, and then the erasure is
put in generic terms. -/
theorem ErasureMergeable.mergeMixed_halves (h : g.ErasureMergeable policy)
    {raws generics : List ClassDef} (hraws : ∀ d ∈ raws, d = (g.fullErasure policy).value)
    (hgenerics : ∀ d ∈ generics, d = g)
    (hplan : planOf (first :: rest) = .halves (g.fullErasure policy).value raws g generics) :
    (mergeMixed {} policy first rest).value = g ∧
      conflicts (mergeMixed {} policy first rest).log = [] := by
  have hrawBody : mergeBody {} (g.fullErasure policy).value raws =
      pure (g.fullErasure policy).value :=
    mergeBody_eq_pure h.bodyMergeable_fullErasure
      (List.forall_mem_cons.2 ⟨.inl rfl, fun d hd => .inl (hraws d hd)⟩) List.mem_cons_self
  have hgenericBody : mergeBody {} g generics = pure g :=
    mergeBody_eq_pure h.bodyMergeable
      (List.forall_mem_cons.2 ⟨.inl rfl, fun d hd => .inl (hgenerics d hd)⟩) List.mem_cons_self
  have hlast : mergeBody {} g.dropTypeParams [g] = pure g :=
    mergeBody_eq_pure h.bodyMergeable (by simp) (by simp)
  simp only [mergeMixed, hplan, Logged.value_bind, Logged.log_bind, conflicts_append,
    conflicts_mergeHalves, fst_mergeHalves, snd_mergeHalves, value_mergeBodies,
    conflicts_mergeBodies, hrawBody, hgenericBody, Logged.value_pure, Logged.log_pure,
    h.generalized, if_true, h.promoteOrKeep_fullErasure, hlast, List.append_nil, and_self]

/-- The merged bodies of copies of a class and of its erasure are the class. -/
theorem ErasureMergeable.mergeMixed_eq (h : g.ErasureMergeable policy)
    (hdefs : ∀ c ∈ first :: rest, c = (g.fullErasure policy).value ∨ c = g)
    (hr : (g.fullErasure policy).value ∈ first :: rest) (hg : g ∈ first :: rest) :
    (mergeMixed {} policy first rest).value = g ∧
      conflicts (mergeMixed {} policy first rest).log = [] := by
  have hraws : ∀ c ∈ (first :: rest).filter (!·.isGeneralized),
      c = (g.fullErasure policy).value := by
    intro c hc
    obtain ⟨hc, hnot⟩ := List.mem_filter.1 hc
    refine (hdefs c hc).resolve_right ?_
    rintro rfl
    simp [h.generalized] at hnot
  have hgenerics : ∀ c ∈ (first :: rest).filter (·.isGeneralized), c = g := by
    intro c hc
    obtain ⟨hc, hgeneralized⟩ := List.mem_filter.1 hc
    refine (hdefs c hc).resolve_left ?_
    rintro rfl
    simp [isGeneralized_fullErasure] at hgeneralized
  rcases hplan : planOf (first :: rest) with _ | ⟨raw, generic⟩ | ⟨raw, raws, generic, generics⟩
  case together =>
    -- both halves have a definition, so this is not the plan
    rcases filter_of_planOf_eq_together hplan with hnil | hnil
    · have hmem : (g.fullErasure policy).value ∈ (first :: rest).filter (!·.isGeneralized) :=
        List.mem_filter.2 ⟨hr, by simp [isGeneralized_fullErasure]⟩
      rw [hnil] at hmem
      cases hmem
    · have hmem : g ∈ (first :: rest).filter (·.isGeneralized) :=
        List.mem_filter.2 ⟨hg, h.generalized⟩
      rw [hnil] at hmem
      cases hmem
  case lifted =>
    obtain ⟨hraw, hgeneric⟩ := filter_of_planOf_eq_lifted hplan
    rw [hraw] at hraws
    rw [hgeneric] at hgenerics
    rw [hraws raw List.mem_cons_self, hgenerics generic List.mem_cons_self] at hplan
    exact h.mergeMixed_lifted hdefs hg hplan
  case halves =>
    obtain ⟨hraw, hgeneric⟩ := filter_of_planOf_eq_halves hplan
    rw [hraw] at hraws
    rw [hgeneric] at hgenerics
    rw [hraws raw List.mem_cons_self, hgenerics generic List.mem_cons_self] at hplan
    exact h.mergeMixed_halves (fun d hd => hraws d (List.mem_cons_of_mem _ hd))
      (fun d hd => hgenerics d (List.mem_cons_of_mem _ hd)) hplan

/-- Definitions that are copies of a class and of its erasure become the class. -/
theorem ErasureMergeable.mergeDefinitions_eq (h : g.ErasureMergeable policy)
    (participants : List Snapshot)
    (hdefs : ∀ c ∈ first :: rest, c = (g.fullErasure policy).value ∨ c = g)
    (hr : (g.fullErasure policy).value ∈ first :: rest) (hg : g ∈ first :: rest) :
    (mergeDefinitions { unboundPolicy := policy } participants first rest).value = some g ∧
      conflicts (mergeDefinitions { unboundPolicy := policy } participants first rest).log =
        (repeats [] (g.fullErasure policy).value.signatures).map
          fun k => .erasureCollision g.name k.2 := by
  have hshared : ∀ {β : Type} (f : ClassDef → β), f (g.fullErasure policy).value = f g →
      ∀ d ∈ first :: rest, f d = f g := by
    intro β f hf d hd
    rcases hdefs d hd with rfl | rfl
    · exact hf
    · rfl
  obtain ⟨mods, hagree, hmods⟩ := agree_eq_ok participants
    (hshared (·.header.modifiers) rfl) (hshared (·.superclass) rfl)
  obtain ⟨body, merged, rfl, hmerged, hvalue, hlog⟩ :=
    mergeDefinitions_of_agree { unboundPolicy := policy } hagree
  have hprepared : rest.map (dropUntracked {}) = rest := List.map_id rest
  obtain ⟨hbody, hconflicts⟩ := h.mergeMixed_eq hdefs hr hg
  have hinterfaces : unionDirectInterfaces (first :: rest) = g.interfaces := by
    have hdirect : g.directInterfaces = g.interfaces := List.filter_eq_self.2 h.direct
    rw [unionDirectInterfaces, flatMap_eq_copies (hshared (·.directInterfaces) rfl), hdirect,
      distinctBy_copies h.interfaces]
  have hheader : g.header.withModifiers mods = g.header := by
    rw [hmods (h.visibility _ List.mem_cons_self)]
    exact Member.withModifiers_self (h.valid _ List.mem_cons_self)
  rw [hprepared, dropUntracked_default, hbody, hheader, hinterfaces] at hmerged
  obtain rfl : merged = g := hmerged
  refine ⟨hvalue, ?_⟩
  rw [hlog, conflicts_append, hprepared, dropUntracked_default, hconflicts, List.nil_append,
    conflicts_reportCollisions]

/-- The signatures of a class are distinct if each list holds members of its own kind with distinct
signatures. -/
theorem nodup_signatures_of_own {c : ClassDef}
    (hkind : ∀ s ∈ Kind.own, ∀ m ∈ c.declared s, m.kind = s)
    (hnodup : ∀ s ∈ Kind.own, ((c.declared s).map Member.signature).Nodup) :
    c.signatures.Nodup := by
  have hlist : ∀ s ∈ Kind.own, ((c.declared s).map fun m => (m.kind, m.signature)).Nodup := by
    intro s hs
    refine List.Nodup.map_on ?_ (List.Nodup.of_map _ (hnodup s hs))
    exact fun m hm n hn heq => List.inj_on_of_nodup_map (hnodup s hs) hm hn (Prod.mk.inj heq).2
  have hdisjoint : ∀ s ∈ Kind.own, ∀ t ∈ Kind.own, s ≠ t → ∀ m ∈ c.declared s,
      ∀ n ∈ c.declared t, (m.kind, m.signature) ≠ (n.kind, n.signature) := by
    intro s hs t ht hst m hm n hn heq
    refine hst ?_
    rw [← hkind s hs m hm, ← hkind t ht n hn]
    exact (Prod.mk.inj heq).1
  rw [signatures, ownMembers, List.map_append, List.map_append, List.nodup_append,
    List.nodup_append]
  refine ⟨⟨hlist .constructor (by decide), hlist .method (by decide), ?_⟩,
    hlist .field (by decide), ?_⟩
  · simp only [List.forall_mem_map]
    exact hdisjoint .constructor (by decide) .method (by decide) (by decide)
  · simp only [List.forall_mem_append, List.forall_mem_map]
    exact ⟨hdisjoint .constructor (by decide) .field (by decide) (by decide),
      hdisjoint .method (by decide) .field (by decide) (by decide)⟩

/-- The erased signatures are distinct if names can be told from lists of arguments, each list holds
members of its own kind that the class declares itself, and fields have no arguments. -/
theorem ErasureMergeable.nodup_signatures (h : g.ErasureMergeable policy)
    (hown : ∀ s ∈ Kind.own, ∀ m ∈ g.declared s, m.kind = s ∧ m.declaring = g.name ∧ '(' ∉ m.name)
    (hargs : ∀ m ∈ g.fields, m.args = []) : (g.fullErasure policy).value.signatures.Nodup := by
  have herased : ∀ s ∈ Kind.own, ∀ m ∈ (g.fullErasure policy).value.declared s,
      m.kind = s ∧ m.declaring = g.name ∧ '(' ∉ m.name ∧ (s = .field → m.args = []) := by
    intro s hs m hm
    rw [declared_fullErasure hs] at hm
    obtain ⟨m, hm', rfl⟩ := List.mem_map.1 hm
    obtain ⟨hkind, hdeclaring, hname⟩ := hown s hs m hm'
    refine ⟨hkind, hdeclaring, hname, ?_⟩
    rintro rfl
    show (substituteText _ _ m.args).value = []
    rw [hargs m hm']
    rfl
  have hkey : ∀ s ∈ Kind.own, ∀ m ∈ (g.fullErasure policy).value.declared s,
      ∀ n ∈ (g.fullErasure policy).value.declared s, m.signature = n.signature → m.key = n.key := by
    intro s hs m hm n hn hsig
    obtain ⟨hkind, hdeclaring, hname, hfield⟩ := herased s hs m hm
    obtain ⟨hkind', hdeclaring', hname', hfield'⟩ := herased s hs n hn
    refine Member.key_eq_of_signature_eq (hkind.trans hkind'.symm)
      (hdeclaring.trans hdeclaring'.symm) hname hname' (fun hcallable => ?_) hsig
    have hs : s = .field := by
      rcases Kind.mem_own_iff.1 hs with rfl | rfl | rfl
      · rw [hkind] at hcallable
        cases hcallable
      · rw [hkind] at hcallable
        cases hcallable
      · rfl
    exact (hfield hs).trans (hfield' hs).symm
  refine nodup_signatures_of_own (fun s hs m hm => (herased s hs m hm).1) fun s hs => ?_
  refine List.Nodup.map_on (fun m hm n hn hsig => ?_) (List.Nodup.of_map _ (h.erasedKeys s hs))
  exact List.inj_on_of_nodup_map (h.erasedKeys s hs) hm hn (hkey s hs m hm n hn hsig)

end ClassDef

open ClassDef

namespace Merge

/-- Sources with one class each, all of one name, define no other class. -/
theorem classNames_map_ofClasses {cs : List ClassDef} {name : Text} (hne : cs ≠ [])
    (h : ∀ c ∈ cs, c.name = name) :
    classNames (cs.map fun c => Snapshot.ofClasses [c]) = [name] := by
  have hset : SortedSet.ofList ((cs.map fun c => Snapshot.ofClasses [c]).flatMap (·.keys)) =
      SortedSet.ofList [name] := by
    refine SortedSet.ext fun x => ?_
    rw [SortedSet.mem_ofList_iff, SortedSet.mem_ofList_iff, List.flatMap_map, List.mem_flatMap,
      List.mem_singleton]
    constructor
    · rintro ⟨c, hc, hx⟩
      exact (List.mem_singleton.1 hx).trans (h c hc)
    · rintro rfl
      obtain ⟨c, hc⟩ := List.exists_mem_of_ne_nil cs hne
      exact ⟨c, hc, List.mem_singleton.2 (h c hc).symm⟩
  rw [classNames, hset]
  rfl

/-- A merge that has one class to merge has the conflicts of that class, if the class does not
count as nested in itself. -/
theorem merge_of_classNames_eq_singleton {settings : Settings} {participants : List Snapshot}
    {c : ClassDef} (hnames : classNames participants = [c.name])
    (hmerged : (mergeClass settings participants c.name).value = some c)
    (henclosing : c.enclosing? ≠ some c.name) :
    (merge settings participants).snapshot = .ofClasses [c] ∧
      (merge settings participants).conflicts =
        conflicts (mergeClass settings participants c.name).log := by
  have hvalue : (mergedClasses settings participants).value = [(c.name, c)] := by
    rw [value_mergedClasses, hnames]
    simp [hmerged]
  have hlog : (mergedClasses settings participants).log =
      (mergeClass settings participants c.name).log := by
    simp [mergedClasses, hnames]
  have hregister : ∀ origins, (Snapshot.ofClasses [c]).registerNested origins = .ofClasses [c] := by
    intro origins
    refine Snapshot.registerNested_eq_self fun d hd => ?_
    obtain rfl : d = c := List.mem_singleton.1 hd
    refine Snapshot.fate_eq_settled_of_lists origins fun outer o houter hget => ?_
    have hne : d.name ≠ outer := fun h => henclosing (by rw [houter, h])
    rw [Snapshot.get?_ofClasses_singleton, if_neg hne] at hget
    cases hget
  have hpackages : packageCollisions (.ofClasses [c]) = [] := by
    rw [packageCollisions, List.map_eq_nil_iff, List.filter_eq_nil_iff]
    intro p hp hcontains
    obtain ⟨hp, hne⟩ : p = packageOf c.name ∧ p ≠ [] := by
      have hp : p ∈ ([packageOf c.name].filter (· ≠ [])) := SortedSet.mem_ofList_iff.1 hp
      simpa using hp
    rw [SortedMap.contains, Snapshot.get?_ofClasses_singleton] at hcontains
    split at hcontains
    next hname => exact packageOf_ne (hp ▸ hne) (hp.symm.trans hname.symm)
    next => cases hcontains
  simp only [merge, hvalue, hlog, List.map_cons, List.map_nil, hregister, hpackages,
    List.append_nil, and_self]

end Merge

open Merge in
/-- Copies of a class and of its erasure, at least one of each and in any order, are merged to the
class. The only conflicts are those of erased signatures that come up again. -/
theorem merge_erasure_eq_self {policy : UnboundPolicy} {g : ClassDef}
    (h : g.ErasureMergeable policy) {cs : List ClassDef}
    (hcs : ∀ c ∈ cs, c = (g.fullErasure policy).value ∨ c = g)
    (hr : (g.fullErasure policy).value ∈ cs) (hg : g ∈ cs) :
    (∀ participants name, definitions participants name = cs →
      (mergeClass { unboundPolicy := policy } participants name).value = some g ∧
        conflicts (mergeClass { unboundPolicy := policy } participants name).log =
          (repeats [] (g.fullErasure policy).value.signatures).map
            fun k => .erasureCollision g.name k.2) ∧
    (g.enclosing? ≠ some g.name →
      (merge { unboundPolicy := policy } (cs.map fun c => .ofClasses [c])).snapshot =
          .ofClasses [g] ∧
        (merge { unboundPolicy := policy } (cs.map fun c => .ofClasses [c])).conflicts =
          (repeats [] (g.fullErasure policy).value.signatures).map
            fun k => .erasureCollision g.name k.2) ∧
    ((∀ s ∈ Kind.own, ∀ m ∈ g.declared s, m.kind = s ∧ m.declaring = g.name ∧ '(' ∉ m.name) →
      (∀ m ∈ g.fields, m.args = []) →
        repeats [] (g.fullErasure policy).value.signatures = []) := by
  have hname : ∀ c ∈ cs, c.name = g.name := by
    intro c hc
    rcases hcs c hc with rfl | rfl <;> rfl
  have hclass : ∀ participants name, definitions participants name = cs →
      (mergeClass { unboundPolicy := policy } participants name).value = some g ∧
        conflicts (mergeClass { unboundPolicy := policy } participants name).log =
          (repeats [] (g.fullErasure policy).value.signatures).map
            fun k => .erasureCollision g.name k.2 := by
    intro participants name hdefs
    rcases cs with _ | ⟨first, _ | ⟨second, rest⟩⟩
    · cases hg
    · have hgeneralized := h.generalized
      rw [List.mem_singleton.1 hg, ← List.mem_singleton.1 hr, isGeneralized_fullErasure]
        at hgeneralized
      cases hgeneralized
    · rw [mergeClass_eq_mergeDefinitions hdefs]
      exact h.mergeDefinitions_eq participants hcs hr hg
  refine ⟨hclass, fun henclosing => ?_, fun hown hargs => ?_⟩
  · have hdefs : definitions (cs.map fun c => .ofClasses [c]) g.name = cs := by
      rw [definitions, List.filterMap_map]
      conv => rhs; rw [← List.filterMap_some (l := cs)]
      exact List.filterMap_congr fun c hc =>
        (Snapshot.get?_ofClasses_singleton c g.name).trans (if_pos (hname c hc))
    obtain ⟨hvalue, hconflicts⟩ := hclass _ _ hdefs
    rw [← hconflicts]
    exact merge_of_classNames_eq_singleton
      (classNames_map_ofClasses (List.ne_nil_of_mem hg) hname) hvalue henclosing
  · exact repeats_eq_nil_iff.2 ⟨h.nodup_signatures hown hargs, fun _ _ => List.not_mem_nil⟩

/-- A generic class with methods that take and return an instance of its parameter. -/
def genericBox : ClassDef where
  header :=
    { kind := .header, name := "a.Box".toList, typeParams := some "<%0 extends a.A>".toList }
  methods := [("get", "{a.Box%0}", ""), ("set", "void", "{a.Box%0},int")].map fun m =>
    { kind := .method, modifiers := .ofList [.pub], declaring := "a.Box".toList
      name := m.1.toList, typeName := m.2.1.toList, args := m.2.2.toList, throws := "a.E".toList }

/-- A raw source between two generic ones. -/
theorem merge_box_with_erasure :
    genericBox.ErasureMergeable .unresolved ∧
      (merge {} ([genericBox, (genericBox.fullErasure .unresolved).value, genericBox].map
        fun c => .ofClasses [c])).snapshot = .ofClasses [genericBox] ∧
      (merge {} ([genericBox, (genericBox.fullErasure .unresolved).value, genericBox].map
        fun c => .ofClasses [c])).conflicts = [] := by
  have hmergeable : genericBox.ErasureMergeable .unresolved := by
    constructor <;> decide +kernel
  have hcopies : ∀ c ∈ [genericBox, (genericBox.fullErasure .unresolved).value, genericBox],
      c = (genericBox.fullErasure .unresolved).value ∨ c = genericBox := by simp
  obtain ⟨-, hmerge, hdistinct⟩ :=
    merge_erasure_eq_self hmergeable hcopies (by simp) (by simp)
  obtain ⟨hsnapshot, hconflicts⟩ := hmerge (by decide)
  rw [hdistinct (by decide) (by decide)] at hconflicts
  exact ⟨hmergeable, hsnapshot, hconflicts⟩

/-- A generic class with two fields of one name, which are told apart by lists of arguments. -/
def fieldsWithArguments : ClassDef where
  header := { kind := .header, name := "a.C".toList, typeParams := some "<%0>".toList }
  fields := ["x", "y"].map fun args =>
    { kind := .field, declaring := "a.C".toList, name := "f".toList, args := args.toList }

/-- A generic class that is given as nested in a class of its own name. -/
def nestedInItself : ClassDef where
  header :=
    { kind := .header, declaring := "a.C".toList, name := "a.C".toList
      typeParams := some "<%0>".toList }

/-- Distinct keys do not exclude that erased signatures collide, and a class that counts as nested
in itself gets a reference to itself. -/
theorem merge_erasure_not_self :
    (fieldsWithArguments.ErasureMergeable .unresolved ∧
      (∀ m ∈ fieldsWithArguments.ownMembers, m.declaring = fieldsWithArguments.name) ∧
      (merge {} ([(fieldsWithArguments.fullErasure .unresolved).value, fieldsWithArguments].map
          fun c => .ofClasses [c])).conflicts =
        [.erasureCollision "a.C".toList "f".toList]) ∧
    nestedInItself.ErasureMergeable .unresolved ∧
      (merge {} ([(nestedInItself.fullErasure .unresolved).value, nestedInItself].map
        fun c => .ofClasses [c])).snapshot ≠ .ofClasses [nestedInItself] := by
  have hfields : fieldsWithArguments.ErasureMergeable .unresolved := by
    constructor <;> decide +kernel
  have hnested : nestedInItself.ErasureMergeable .unresolved := by
    constructor <;> decide +kernel
  refine ⟨⟨hfields, by decide, by decide +kernel⟩, hnested, by decide +kernel⟩

end ApiSurface
