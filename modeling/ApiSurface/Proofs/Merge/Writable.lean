import ApiSurface.Proofs.Line.Spelled
import ApiSurface.Proofs.Merge.Valid

/-!
# Classes that stay writable in a merge

What makes the lines of a member say all of it (`Member.Writable`) is kept by whatever a merge does
to members (`kept_writable`). What makes the lines of a class say all of it (`ClassDef.Writable`) is
preserved in every round of its merge (`preserved_writable`), and so holds of the class that the
definitions of a name become (`writable_of_mergeClass`).
-/

namespace ApiSurface

open Text Line Member

namespace Member

/-! ### Members -/

/-- The lines of a member say all of it, and none of its texts has a line end, so that the same can
be told of members that are made of its texts. -/
structure Writable (m : Member) : Prop where
  /-- The line says all but the annotations. -/
  wellFormed : m.WellFormed
  /-- No text has a line end. -/
  oneLine : m.OneLine
  /-- The lines of the annotations say all of these. -/
  annots : ∀ a ∈ m.annots, a.WellFormed

variable {m raw generic first : Member} {rest : List Member}

theorem Writable.withModifiers (h : m.Writable) (mods : Modifiers) :
    (m.withModifiers mods).Writable := by
  have hvalid := valid_withModifiers h.wellFormed.valid mods
  rw [withModifiers_eq] at hvalid ⊢
  generalize (if mods.isSubset m.kind.allowed then closeModifiers mods else m.modifiers) = mods'
    at hvalid ⊢
  have honeLine : OneLine { m with modifiers := mods' } := { h.oneLine with }
  exact ⟨{ h.wellFormed with valid := hvalid, oneLine := honeLine.line }, honeLine, h.annots⟩

theorem Writable.untracked (h : m.Writable) : Writable { m with constant := none } := by
  have honeLine : OneLine { m with constant := none } := { h.oneLine with constant := by simp }
  exact ⟨{ h.wellFormed with constant := fun _ => rfl, oneLine := honeLine.line }, honeLine,
    h.annots⟩

theorem OneLine.adopt (erased : Member) (hraw : raw.OneLine) (hgeneric : generic.OneLine) :
    (raw.adopt erased generic).OneLine := by
  have hthrows : IsLine (raw.adopt erased generic).throws := by
    rcases throws_adopt_cases raw erased generic with h | h
    · rw [h]
      exact hgeneric.throws
    · rw [h]
      exact hraw.throws
  exact { hraw with
    typeName := hgeneric.typeName
    args := hgeneric.args
    throws := hthrows
    typeParams := hgeneric.typeParams }

/-- A raw member in the terms of a generic one is made of the texts of both. -/
theorem Writable.adopt (erased : Member) (hkind : generic.kind = raw.kind)
    (hname : generic.name = raw.name) (hraw : raw.Writable) (hgeneric : generic.Writable) :
    (raw.adopt erased generic).Writable := by
  have hr := hraw.wellFormed
  have hg := hgeneric.wellFormed
  have honeLine := hraw.oneLine.adopt erased hgeneric.oneLine
  refine ⟨{ hr with
    typeName := fun hk => hg.typeName (hkind ▸ hk)
    noTypeName := fun hk => hg.noTypeName (hkind ▸ hk)
    generics := fun hk => hg.generics (hkind ▸ hk)
    typeArgs := fun hk => hname ▸ hg.typeArgs (hkind ▸ hk)
    noTypeParams := fun hk => hg.noTypeParams (hkind ▸ hk)
    args := fun hk => hg.args (hkind ▸ hk)
    noArgs := fun hk => hg.noArgs (hkind ▸ hk)
    throws := fun hk => ?_
    noThrows := fun hk => ?_
    oneLine := honeLine.line }, honeLine, hraw.annots⟩
  · rcases throws_adopt_cases raw erased generic with h | h <;> rw [h]
    · exact hg.throws (hkind ▸ hk)
    · exact hr.throws hk
  · rcases throws_adopt_cases raw erased generic with h | h <;> rw [h]
    · exact hg.noThrows (hkind ▸ hk)
    · exact hr.noThrows hk

theorem OneLine.joined {mods : Modifiers} {throws : Text} {annots : SortedSet Annot}
    (h : ∀ m ∈ first :: rest, m.OneLine) (hthrows : throws = [] ∨ throws = first.throws) :
    OneLine { first with
      modifiers := mods
      typeParams := (mergeTypeParams first rest).value
      throws
      annots } := by
  have hfirst := h first List.mem_cons_self
  have hline : IsLine throws := by
    rcases hthrows with rfl | rfl
    · exact isLine_nil
    · exact hfirst.throws
  have hparams : ∀ p ∈ (mergeTypeParams first rest).value, IsLine p := by
    intro p hp
    obtain ⟨m, hm, hmp⟩ := exists_of_mem_mergeTypeParams hp
    exact (h m hm).typeParams p hmp
  exact { hfirst with throws := hline, typeParams := hparams }

/-- Members of one key are joined to one that is made of their texts. -/
theorem Writable.joined {mods : Modifiers} {throws : Text} (hkey : ∀ m ∈ rest, m.key = first.key)
    (h : ∀ m ∈ first :: rest, m.Writable) (hvalid : Valid { first with modifiers := mods })
    (hthrows : throws = [] ∨ throws = first.throws) :
    Writable { first with
      modifiers := mods
      typeParams := (mergeTypeParams first rest).value
      throws
      annots := allAnnots (first :: rest) } := by
  have hsame : ∀ m ∈ first :: rest, m.kind = first.kind ∧ m.name = first.name := by
    refine List.forall_mem_cons.2 ⟨⟨rfl, rfl⟩, fun m hm => ?_⟩
    exact ⟨congrArg MemberKey.kind (hkey m hm), congrArg MemberKey.name (hkey m hm)⟩
  have hf := (h first List.mem_cons_self).wellFormed
  have honeLine : OneLine { first with
      modifiers := mods
      typeParams := (mergeTypeParams first rest).value
      throws
      annots := allAnnots (first :: rest) } :=
    OneLine.joined (fun m hm => (h m hm).oneLine) hthrows
  refine ⟨{ hf with
    valid := hvalid
    generics := fun hk p hp => ?_
    typeArgs := fun hk p hp => ?_
    noTypeParams := fun hk => ?_
    throws := fun hk => ?_
    noThrows := fun hk => ?_
    oneLine := honeLine.line }, honeLine, fun a ha => ?_⟩
  · obtain ⟨m, hm, hmp⟩ := exists_of_mem_mergeTypeParams hp
    exact (h m hm).wellFormed.generics ((hsame m hm).1 ▸ hk) p hmp
  · obtain ⟨m, hm, hmp⟩ := exists_of_mem_mergeTypeParams hp
    exact (hsame m hm).2 ▸ (h m hm).wellFormed.typeArgs ((hsame m hm).1 ▸ hk) p hmp
  · refine Option.eq_none_iff_forall_not_mem.2 fun p hp => ?_
    obtain ⟨m, hm, hmp⟩ := exists_of_mem_mergeTypeParams hp
    rw [(h m hm).wellFormed.noTypeParams ((hsame m hm).1 ▸ hk)] at hmp
    cases hmp
  · rcases hthrows with rfl | rfl
    · exact .inl rfl
    · exact hf.throws hk
  · rcases hthrows with rfl | rfl
    · rfl
    · exact hf.noThrows hk
  · obtain ⟨m, hm, ha⟩ := mem_allAnnots_iff.1 ha
    exact (h m hm).annots a ha

/-- A merge keeps members writable. -/
theorem kept_writable (settings : MergeSettings) : Kept settings Writable where
  adopt := Writable.adopt
  untracked := Writable.untracked
  joined := by
    intro first rest hkey h
    have hthrows : (if first.kind.isCallable = true ∧ settings.binaryCompatibility = true then []
        else first.throws) = [] ∨ (if first.kind.isCallable = true ∧
          settings.binaryCompatibility = true then [] else first.throws) = first.throws := by
      split
      next => exact .inl rfl
      next => exact .inr rfl
    have hvalid := valid_withModifiers (h first List.mem_cons_self).wellFormed.valid
      (Modifiers.joined first.kind ((first :: rest).map (·.modifiers)))
    rw [withModifiers_eq] at hvalid
    have hjoined := Writable.joined hkey h hvalid hthrows
    rwa [Member.joined, withModifiers_eq]

end Member

namespace ClassDef

/-! ### Members in their lists -/

variable {settings : MergeSettings} {policy : UnboundPolicy} {c raw generic first : ClassDef}
  {rest : List ClassDef} {name : Text}

/-- A class is placed if each of its members has the kind and the declaring type of a member in the
same list of some placed class of its name. -/
theorem Placed.of_sources (defs : List ClassDef) (hdefs : ∀ d ∈ defs, d.Placed ∧ d.name = c.name)
    (hheader : c.header.kind = .header)
    (hdeclared : ∀ k, ∀ m ∈ c.declared k, ∃ d ∈ defs, ∃ n ∈ d.declared k,
      n.kind = m.kind ∧ n.declaring = m.declaring)
    (hinherited : ∀ m ∈ c.inherited, ∃ d ∈ defs, ∃ n ∈ d.inherited,
      n.kind = m.kind ∧ n.declaring = m.declaring) : c.Placed where
  header := hheader
  kinds k m hm := by
    obtain ⟨d, hd, n, hn, hkind, -⟩ := hdeclared k m hm
    exact hkind.symm.trans ((hdefs d hd).1.kinds k n hn)
  own m hm := by
    have hlist : ∃ k, m ∈ c.declared k ∧ ∀ d : ClassDef, d.declared k ⊆ d.ownMembers ++ d.nested := by
      rcases List.mem_append.1 hm with hm | hm
      · obtain ⟨k, hk, hm⟩ := mem_ownMembers_iff.1 hm
        exact ⟨k, hm, fun d n hn => List.mem_append_left _ (mem_ownMembers_iff.2 ⟨k, hk, hn⟩)⟩
      · exact ⟨.inner, hm, fun d n hn => List.mem_append_right _ hn⟩
    obtain ⟨k, hm, hsub⟩ := hlist
    obtain ⟨d, hd, n, hn, -, hdeclaring⟩ := hdeclared k m hm
    rw [← hdeclaring, (hdefs d hd).1.own n (hsub d hn), (hdefs d hd).2]
  inherited m hm := by
    obtain ⟨d, hd, n, hn, hkind, hdeclaring⟩ := hinherited m hm
    obtain ⟨hlist, hne⟩ := (hdefs d hd).1.inherited n hn
    rw [← hkind, ← hdeclaring, ← (hdefs d hd).2]
    exact ⟨hlist, hne⟩

theorem Placed.dropUntracked (h : c.Placed) : (c.dropUntracked settings).Placed := by
  refine .of_sources [c] ?_ ?_ (fun k m hm => ?_) fun m hm => ?_
  · exact List.forall_mem_singleton.2 ⟨h, (name_dropUntracked settings c).symm⟩
  · rw [header_dropUntracked]
    exact h.header
  · refine ⟨c, List.mem_cons_self, ?_⟩
    unfold ClassDef.dropUntracked at hm
    split at hm
    next => exact ⟨m, hm, rfl, rfl⟩
    next =>
      cases k with
      | field =>
        obtain ⟨n, hn, rfl⟩ := List.mem_map.1 hm
        refine ⟨n, hn, ?_⟩
        split <;> exact ⟨rfl, rfl⟩
      | _ => exact ⟨m, hm, rfl, rfl⟩
  · refine ⟨c, List.mem_cons_self, m, ?_, rfl, rfl⟩
    unfold ClassDef.dropUntracked at hm
    split at hm <;> exact hm

theorem Placed.promoteOrKeep (h : raw.Placed) :
    (promoteOrKeep policy raw generic).value.Placed := by
  obtain ⟨cs, ms, fs, heq⟩ := exists_promoteOrKeep_eq policy raw generic
  refine .of_sources [raw] ?_ ?_ (fun k m hm => ?_) fun m hm => ?_
  · rw [heq]
    exact List.forall_mem_singleton.2 ⟨h, rfl⟩
  · rw [heq]
    exact h.header
  · refine ⟨raw, List.mem_cons_self, ?_⟩
    by_cases hk : k ∈ Kind.own
    · rw [declared_promoteOrKeep hk] at hm
      obtain ⟨n, hn, rfl⟩ := List.mem_map.1 hm
      obtain ⟨_, _, _, _, hlift⟩ := exists_liftMember_eq policy raw generic k n
      rw [hlift]
      exact ⟨n, hn, rfl, rfl⟩
    · rw [heq] at hm
      cases k with
      | constructor | method | field => exact absurd (by decide) hk
      | _ => exact ⟨m, hm, rfl, rfl⟩
  · rw [heq] at hm
    exact ⟨raw, List.mem_cons_self, m, hm, rfl, rfl⟩

theorem Placed.mergeBody (h : ∀ c ∈ first :: rest, c.Placed ∧ c.name = first.name) :
    (mergeBody settings first rest).value.Placed := by
  have hunion : ∀ (f : ClassDef → List Member) {m : Member},
      m ∈ unionByKey ((first :: rest).flatMap f) → ∃ d ∈ first :: rest, ∃ n ∈ f d,
        n.kind = m.kind ∧ n.declaring = m.declaring := by
    intro f m hm
    obtain ⟨d, hd, hmem⟩ := List.mem_flatMap.1 (mem_of_mem_distinctBy hm)
    exact ⟨d, hd, m, hmem, rfl, rfl⟩
  refine .of_sources (first :: rest) h (h first List.mem_cons_self).1.header (fun k m hm => ?_)
    fun m hm => hunion ClassDef.inherited hm
  by_cases hk : k ∈ Kind.own
  · rw [declared_mergeBody hk] at hm
    obtain ⟨n, hn, hkey⟩ :=
      List.mem_map.1 (mem_keys_mergeAll_iff.1 (List.mem_map_of_mem hm)).1
    obtain ⟨d, hd, hn⟩ := List.mem_flatMap.1 hn
    exact ⟨d, hd, n, hn, congrArg MemberKey.kind hkey, congrArg MemberKey.declaring hkey⟩
  · cases k with
    | constructor | method | field => exact absurd (by decide) hk
    | header => cases hm
    | superclass | interface => exact ⟨first, List.mem_cons_self, m, hm, rfl, rfl⟩
    | inner => exact hunion ClassDef.nested hm
    | permitted => exact hunion ClassDef.permitted hm

/-! ### Classes -/

/-- The lines of a class of a given name say all of it, its texts have no line ends, and the last
part of its name is a name. -/
structure Writable (name : Text) (c : ClassDef) : Prop where
  /-- The class has the name. -/
  name_eq : c.name = name
  /-- The members are in the lists of their kinds. -/
  placed : c.Placed
  /-- The line of the class says all of it. -/
  header : c.header.Writable
  /-- So do the lines of the members. -/
  members : c.AllMembers Member.Writable
  /-- Hidden names can be told apart. -/
  hidden : (∀ n ∈ c.hiddenFields, IsHiddenName n) ∧ ∀ n ∈ c.hiddenClasses, IsHiddenName n
  /-- After the last `$` of the name there is something, without a dot. -/
  simpleName : ∀ cut ∈ cutLast? (· == '$') name, cut.2 ≠ [] ∧ '.' ∉ cut.2

theorem Writable.member (h : c.Writable name) : ∀ m ∈ c.written, m.Writable := by
  intro m hm
  rcases mem_written_iff.1 hm with rfl | hm
  · exact h.header
  · exact h.members m hm

theorem Writable.wellFormed (h : c.Writable name) : c.WellFormed where
  header := h.placed.header
  kinds := h.placed.kinds
  own := h.placed.own
  inherited := h.placed.inherited
  members m hm := (h.member m hm).wellFormed
  annots m hm := (h.member m hm).annots
  hiddenFields := h.hidden.1
  hiddenClasses := h.hidden.2

/-- Headers of one name have one key, as the class around a nested one is told by the name. -/
theorem Writable.key_header {d : ClassDef} (hc : c.Writable name) (hd : d.Writable name) :
    d.header.key = c.header.key := by
  have hkey : ∀ {e : ClassDef}, e.Writable name →
      e.header.key = ⟨.header, (typeRef .header name).declaring, name, []⟩ := by
    intro e he
    have hkind : e.header.kind = .header := he.placed.header
    have hname : e.header.name = name := he.name_eq
    have houter := he.header.wellFormed.outer (by rw [hkind]; rfl)
    have hargs := he.header.wellFormed.noArgs (by rw [hkind]; rfl)
    rw [hkind, hname] at houter
    rw [key, hkind, hname, houter, hargs]
  rw [hkey hc, hkey hd]

/-- Every step of a merge keeps classes writable. -/
theorem preserved_writable (settings : MergeSettings) (policy : UnboundPolicy) (name : Text) :
    Preserved settings policy (Writable name) where
  untracked := by
    intro c h
    refine ⟨(name_dropUntracked settings c).trans h.name_eq, h.placed.dropUntracked, ?_,
      allMembers_dropUntracked (kept_writable settings) h.members, ?_, h.simpleName⟩
    · rw [header_dropUntracked]
      exact h.header
    · unfold dropUntracked
      split <;> exact h.hidden
  promoted := by
    intro raw generic hraw hgeneric
    have hmembers : (promoteOrKeep policy raw generic).value.AllMembers Member.Writable :=
      allMembers_promoteOrKeep (kept_writable settings).adopt hraw.members hgeneric.members
    have hplaced : (promoteOrKeep policy raw generic).value.Placed := hraw.placed.promoteOrKeep
    obtain ⟨cs, ms, fs, heq⟩ := exists_promoteOrKeep_eq policy raw generic
    rw [heq] at hmembers hplaced ⊢
    exact ⟨hraw.name_eq, hplaced, hraw.header, hmembers, hraw.hidden, hraw.simpleName⟩
  merged := by
    intro first rest h
    have hfirst := h first List.mem_cons_self
    have hheader : (mergeBody settings first rest).value.header.Writable := by
      have hkeys : ∀ m ∈ rest.map header, m.key = first.header.key :=
        List.forall_mem_map.2 fun c hc => hfirst.key_header (h c (List.mem_cons_of_mem _ hc))
      have hheaders : ∀ m ∈ first.header :: rest.map header, m.Writable := by
        rw [← List.map_cons, List.forall_mem_map]
        exact fun c hc => (h c hc).header
      exact Member.Writable.joined hkeys hheaders hfirst.header.wellFormed.valid (.inr rfl)
    refine ⟨hfirst.name_eq, Placed.mergeBody fun c hc => ?_, hheader,
      allMembers_mergeBody (kept_writable settings) fun c hc => (h c hc).members, ⟨?_, ?_⟩,
      hfirst.simpleName⟩
    · exact ⟨(h c hc).placed, (h c hc).name_eq.trans hfirst.name_eq.symm⟩
    · exact fun n hn => hfirst.hidden.1 n (mem_foldl_inter_iff.1 hn).1
    · exact fun n hn => hfirst.hidden.2 n (mem_foldl_inter_iff.1 hn).1

/-! ### Merged classes -/

/-- The class that definitions of one name become is as writable as they are. -/
theorem writable_of_mergeDefinitions {settings : Settings} {participants : List Snapshot}
    {merged : ClassDef} (h : ∀ c ∈ first :: rest, c.Writable name)
    (hmerged : (mergeDefinitions settings participants first rest).value = some merged) :
    merged.Writable name := by
  have hmembers := allMembers_of_mergeDefinitions (kept_writable settings.merge)
    (fun c hc => (h c hc).members) hmerged
  obtain ⟨mods, superclass, hagree⟩ := exists_agree_of_merged hmerged
  obtain ⟨-, -, hresolve⟩ := agree_eq_ok_iff.1 hagree
  obtain ⟨body, merged', rfl, rfl, hvalue, -⟩ := mergeDefinitions_of_agree settings hagree
  obtain rfl := Option.some.inj (hmerged.symm.trans hvalue)
  have hbody := (preserved_writable settings.merge settings.unboundPolicy name).mergeMixed h
  generalize (mergeMixed settings.merge settings.unboundPolicy
    (first.dropUntracked settings.merge) (rest.map (dropUntracked settings.merge))).value = body
    at hbody hmembers
  have hkey := key_withModifiers body.header mods
  have hname : (body.header.withModifiers mods).name = name :=
    (congrArg MemberKey.name hkey).trans hbody.name_eq
  refine ⟨hname, ?_, hbody.header.withModifiers mods, hmembers, hbody.hidden, hbody.simpleName⟩
  have hdefs : ∀ d ∈ body :: first :: rest,
      d.Placed ∧ d.name = (body.header.withModifiers mods).name := by
    rw [hname]
    refine List.forall_mem_cons.2 ⟨⟨hbody.placed, hbody.name_eq⟩, fun c hc => ?_⟩
    exact ⟨(h c hc).placed, (h c hc).name_eq⟩
  refine .of_sources (body :: first :: rest) hdefs
    ((congrArg MemberKey.kind hkey).trans hbody.placed.header) (fun k m hm => ?_) fun m hm => ?_
  · cases k with
    | superclass =>
      obtain rfl : superclass = some m := Option.mem_toList.1 hm
      obtain ⟨c, hc, hsuper⟩ :=
        List.mem_filterMap.1 (mem_of_mem_distinctBy (mem_superclasses_of_resolve hresolve))
      exact ⟨c, List.mem_cons_of_mem _ hc, m, Option.mem_toList.2 hsuper, rfl, rfl⟩
    | interface =>
      obtain ⟨c, hc, hdirect⟩ := List.mem_flatMap.1 (mem_of_mem_distinctBy hm)
      exact ⟨c, List.mem_cons_of_mem _ hc, m, (List.mem_filter.1 hdirect).1, rfl, rfl⟩
    | _ => exact ⟨body, List.mem_cons_self, m, hm, rfl, rfl⟩
  · exact ⟨body, List.mem_cons_self, m, hm, rfl, rfl⟩

end ClassDef

open ClassDef

variable {settings : Settings} {participants : List Snapshot} {name : Text}

theorem writable_of_mergeClass {merged : ClassDef}
    (h : ∀ c ∈ definitions participants name, c.Writable name)
    (hmerged : (mergeClass settings participants name).value = some merged) :
    merged.Writable name :=
  of_mergeClass_eq_some writable_of_mergeDefinitions h hmerged

end ApiSurface
