import ApiSurface.Proofs.Merge.Order

/-!
# Bodies as relaxed settings see them

Settings are relaxed by leaving exceptions out of account, or constants, or the constants of fields
that are not static. What such settings look at of a class is the class as they see it
(`ClassDef.seen`). Where definitions are merged without conflicts, definitions that look the same to
relaxed settings are merged under these without conflicts, to a body that looks the same
(`mergeBody_of_seen_eq`), since members are grouped, and their modifiers, types and generics
declarations compared, by what all settings see.
-/

namespace ApiSurface

open Conflict Finding Member

/-- Settings that compare less than others: exceptions do not count, constants are not compared, or
those of fields that are not static are not kept. -/
structure MergeSettings.Relaxes (strict relaxed : MergeSettings) : Prop where
  /-- If exceptions do not count, they still do not. -/
  binaryCompatibility : strict.binaryCompatibility = true → relaxed.binaryCompatibility = true
  /-- Constants are compared only if they were. -/
  trackConstantValues : relaxed.trackConstantValues = true → strict.trackConstantValues = true
  /-- Constants of fields that are not static are kept only if they were. -/
  trackNonStaticConstants :
    relaxed.trackNonStaticConstants = true → strict.trackNonStaticConstants = true

theorem MergeSettings.Relaxes.refl (settings : MergeSettings) : settings.Relaxes settings :=
  ⟨id, id, id⟩

/-- Where relaxed settings take account of exceptions, strict ones do. -/
theorem MergeSettings.Relaxes.binaryCompatibility_eq_false {strict relaxed : MergeSettings}
    (h : strict.Relaxes relaxed) (hrelaxed : relaxed.binaryCompatibility = false) :
    strict.binaryCompatibility = false := by
  rcases hstrict : strict.binaryCompatibility with _ | _
  · rfl
  · exact (h.binaryCompatibility hstrict).symm.trans hrelaxed

namespace Member

/-! ### Members -/

/-- A member as relaxed settings see it: without exceptions if they do not count, and without its
constant if that of a member that is, or is not, static is not kept. -/
def seen (settings : MergeSettings) (keep : Bool → Bool) (m : Member) : Member :=
  { m with
    throws := if settings.binaryCompatibility then [] else m.throws
    constant := if keep (m.has .static) then m.constant else none }

variable {strict relaxed settings : MergeSettings} {keep : Bool → Bool} {m m' : Member}
  {ms ms' : List Member}

@[simp] theorem key_seen (settings : MergeSettings) (keep : Bool → Bool) (m : Member) :
    (m.seen settings keep).key = m.key := rfl

theorem has_static_withModifiers_joined {first : Member} {rest : List Member}
    (h : Modifiers.SameStatic ((first :: rest).map (·.modifiers))) :
    (first.withModifiers (Modifiers.joined first.kind ((first :: rest).map (·.modifiers)))).has
      .static = first.has .static := by
  have hjoined := Modifiers.has_static_joined first.kind h
    (List.mem_map_of_mem (List.mem_cons_self (a := first)))
  rw [withModifiers_eq, has]
  dsimp only
  split
  next =>
    rw [closeModifiers]
    split
    next => simpa [has] using hjoined
    next => exact hjoined
  next => rfl

theorem mergeTypeParams_seen (settings : MergeSettings) (keep : Bool → Bool) (first : Member)
    (rest : List Member) :
    (mergeTypeParams (first.seen settings keep) (rest.map (·.seen settings keep))).value =
      (mergeTypeParams first rest).value := by
  have hdecls : ((first :: rest).map (·.seen settings keep)).filterMap (·.typeParams) =
      (first :: rest).filterMap (·.typeParams) := List.filterMap_map
  rw [List.map_cons] at hdecls
  rw [mergeTypeParams, mergeTypeParams, hdecls]
  rcases (first :: rest).filterMap (·.typeParams) with _ | ⟨p, ps⟩
  · rfl
  · rcases ps.find? (· ≠ p) with _ | q <;> simp

/-- What members become looks to relaxed settings as what they see of the members becomes. -/
theorem seen_joined (hrel : strict.Relaxes relaxed) {first : Member} {rest : List Member}
    (h : Modifiers.SameStatic ((first :: rest).map (·.modifiers))) :
    (joined strict first rest).seen relaxed keep =
      joined relaxed (first.seen relaxed keep) (rest.map (·.seen relaxed keep)) := by
  have hmods : (first.seen relaxed keep :: rest.map (·.seen relaxed keep)).map (·.modifiers) =
      (first :: rest).map (·.modifiers) := by
    rw [← List.map_cons, List.map_map]
    rfl
  have hannots : allAnnots (first.seen relaxed keep :: rest.map (·.seen relaxed keep)) =
      allAnnots (first :: rest) := by
    rw [allAnnots, ← List.map_cons, List.flatMap_map]
    rfl
  have hstatic := has_static_withModifiers_joined h
  rw [withModifiers_eq] at hstatic
  simp only [joined, mergeTypeParams_seen, hmods, hannots, withModifiers_eq]
  simp only [seen, has] at hstatic ⊢
  simp only [hstatic]
  congr 1
  rcases hbinary : relaxed.binaryCompatibility with _ | _
  · simp [hrel.binaryCompatibility_eq_false hbinary]
  · simp

/-- Members that look the same differ in nothing that is looked at. -/
theorem of_seen_eq {keep' : Bool → Bool}
    (h : m'.seen relaxed keep' = m.seen relaxed keep) :
    m'.kind = m.kind ∧ m'.modifiers = m.modifiers ∧ m'.typeName = m.typeName ∧
      m'.typeParams = m.typeParams ∧
      (relaxed.binaryCompatibility = false → m'.throws = m.throws) ∧
      (if keep' (m.has .static) then m'.constant else none) =
        if keep (m.has .static) then m.constant else none := by
  obtain ⟨hkind, hmods, -, -, htype, -, hthrows, hparams, -, hconstant, -⟩ := Member.mk.inj h
  refine ⟨hkind, hmods, htype, hparams, fun hbinary => ?_, ?_⟩
  · simpa [hbinary] using hthrows
  · rwa [show m'.has .static = m.has .static from congrArg (·.has .static) hmods] at hconstant

/-- Members agree under relaxed settings if members that look the same to them agree under strict
ones. -/
theorem compatible_of_seen_eq (hrel : strict.Relaxes relaxed)
    (h : ms'.map (·.seen relaxed fun _ => true) = ms.map (·.seen relaxed keep))
    (hcompatible : Compatible strict ms) : Compatible relaxed ms' := by
  have hlike : ∀ m' ∈ ms', ∃ m ∈ ms, m'.seen relaxed (fun _ => true) = m.seen relaxed keep := by
    intro m' hm'
    have hmem := List.mem_map_of_mem (f := (·.seen relaxed fun _ => true)) hm'
    rw [h] at hmem
    obtain ⟨m, hm, heq⟩ := List.mem_map.1 hmem
    exact ⟨m, hm, heq.symm⟩
  constructor
  case typeName =>
    intro m' hm' n' hn'
    obtain ⟨m, hm, heq⟩ := hlike m' hm'
    obtain ⟨n, hn, heq'⟩ := hlike n' hn'
    rw [(of_seen_eq heq).2.2.1, (of_seen_eq heq').2.2.1]
    exact hcompatible.typeName m hm n hn
  case constant =>
    intro htracked m' hm' n' hn' hfield hfield'
    obtain ⟨m, hm, heq⟩ := hlike m' hm'
    obtain ⟨n, hn, heq'⟩ := hlike n' hn'
    obtain ⟨hkind, -, -, -, -, hconstant⟩ := of_seen_eq heq
    obtain ⟨hkind', -, -, -, -, hconstant'⟩ := of_seen_eq heq'
    -- whether a constant is kept goes by `static`, on which the members agree
    have hstatic : m.has .static = n.has .static :=
      hcompatible.static _ (List.mem_map_of_mem hm) _ (List.mem_map_of_mem hn)
    have hsame := hcompatible.constant (hrel.trackConstantValues htracked) m hm n hn
      (hkind ▸ hfield) (hkind' ▸ hfield')
    rw [if_pos rfl] at hconstant hconstant'
    rw [hconstant, hconstant', hstatic, hsame]
  case static =>
    intro s' hs' t' ht'
    obtain ⟨m', hm', rfl⟩ := List.mem_map.1 hs'
    obtain ⟨n', hn', rfl⟩ := List.mem_map.1 ht'
    obtain ⟨m, hm, heq⟩ := hlike m' hm'
    obtain ⟨n, hn, heq'⟩ := hlike n' hn'
    rw [(of_seen_eq heq).2.1, (of_seen_eq heq').2.1]
    exact hcompatible.static _ (List.mem_map_of_mem hm) _ (List.mem_map_of_mem hn)
  case throws =>
    intro hbinary m' hm' n' hn' hcallable hcallable'
    obtain ⟨m, hm, heq⟩ := hlike m' hm'
    obtain ⟨n, hn, heq'⟩ := hlike n' hn'
    obtain ⟨hkind, -, -, -, hthrows, -⟩ := of_seen_eq heq
    obtain ⟨hkind', -, -, -, hthrows', -⟩ := of_seen_eq heq'
    rw [hthrows hbinary, hthrows' hbinary]
    exact hcompatible.throws (hrel.binaryCompatibility_eq_false hbinary) m hm n hn
      (hkind ▸ hcallable) (hkind' ▸ hcallable')

theorem sameGenerics_of_seen_eq
    (h : ms'.map (·.seen relaxed fun _ => true) = ms.map (·.seen relaxed keep)) :
    SameGenerics ms → SameGenerics ms' := by
  have hdecls : ms'.filterMap (·.typeParams) = ms.filterMap (·.typeParams) := by
    have hseen : ∀ (keep : Bool → Bool) (l : List Member),
        (l.map (·.seen relaxed keep)).filterMap (·.typeParams) = l.filterMap (·.typeParams) :=
      fun _ _ => List.filterMap_map
    rw [← hseen (fun _ => true), h, hseen]
  rw [sameGenerics_iff, sameGenerics_iff, hdecls]
  exact id

/-! ### Lists of members -/

/-- Merged members look to relaxed settings as what they see of the members is merged. -/
theorem map_seen_mergeAll (hrel : strict.Relaxes relaxed) (h : (mergeAll strict ms).log = []) :
    (mergeAll strict ms).value.map (·.seen relaxed keep) =
      (groupsBy key (ms.map (·.seen relaxed keep))).map (keptOf relaxed) := by
  have hall := log_mergeAll_eq_nil_iff.1 h
  rw [value_mergeAll_of_log_eq_nil h, groupsBy_map (key_seen relaxed keep), List.map_map,
    List.map_map]
  refine List.map_congr_left ?_
  rintro ⟨first, rest⟩ hg
  have hf := mem_groupsBy_iff.1 hg
  rcases rest with _ | ⟨second, rest⟩
  · rfl
  · have hcompatible := (hall first.key).1
    rw [hf] at hcompatible
    exact seen_joined hrel hcompatible.static

/-- Members that look the same are merged to members that do, without conflicts if there were
none. -/
theorem mergeAll_of_seen_eq (hrel : strict.Relaxes relaxed)
    (h : ms'.map (·.seen relaxed fun _ => true) = ms.map (·.seen relaxed keep))
    (hlog : (mergeAll strict ms).log = []) :
    (mergeAll relaxed ms').log = [] ∧
      (mergeAll relaxed ms').value.map (·.seen relaxed fun _ => true) =
        (mergeAll strict ms).value.map (·.seen relaxed keep) := by
  have hgroup : ∀ k, (ms'.filter (·.key = k)).map (·.seen relaxed fun _ => true) =
      (ms.filter (·.key = k)).map (·.seen relaxed keep) := by
    intro k
    have hfilter : ∀ (keep : Bool → Bool) (l : List Member),
        (l.filter (·.key = k)).map (·.seen relaxed keep) =
          (l.map (·.seen relaxed keep)).filter (·.key = k) := by
      intro keep l
      rw [List.filter_map]
      rfl
    rw [hfilter, hfilter, h]
  have hlog' : (mergeAll relaxed ms').log = [] := by
    rw [log_mergeAll_eq_nil_iff] at hlog ⊢
    exact fun k => ⟨compatible_of_seen_eq hrel (hgroup k) (hlog k).1,
      sameGenerics_of_seen_eq (hgroup k) (hlog k).2⟩
  refine ⟨hlog', ?_⟩
  rw [map_seen_mergeAll (.refl relaxed) hlog', map_seen_mergeAll hrel hlog, h]

end Member

namespace ClassDef

/-! ### Classes -/

/-- A class as relaxed settings see it; `keeps` says of each list whether the constants of members
that are, or are not, static are kept. -/
def seen (settings : MergeSettings) (keeps : Kind → Bool → Bool) (c : ClassDef) : ClassDef :=
  { c with
    constructors := c.constructors.map (·.seen settings (keeps .constructor))
    methods := c.methods.map (·.seen settings (keeps .method))
    fields := c.fields.map (·.seen settings (keeps .field)) }

/-- All constants are kept. -/
def keepsAll : Kind → Bool → Bool := fun _ _ => true

variable {strict relaxed settings : MergeSettings} {keeps keeps' : Kind → Bool → Bool} {s : Kind}
  {c c' first first' : ClassDef} {cs cs' rest rest' : List ClassDef}

theorem declared_seen (hs : s ∈ Kind.own) : (c.seen settings keeps).declared s =
    (c.declared s).map (·.seen settings (keeps s)) := by
  rcases Kind.mem_own_iff.1 hs with rfl | rfl | rfl <;> rfl

theorem membersOf_map_seen (hs : s ∈ Kind.own) : membersOf (cs.map (·.seen settings keeps)) s =
    (membersOf cs s).map (·.seen settings (keeps s)) := by
  rw [membersOf, List.flatMap_map, membersOf, List.map_flatMap]
  exact congrArg (List.flatMap · cs) (funext fun c => declared_seen hs)

theorem isGeneralized_seen : (c.seen settings keeps).isGeneralized = c.isGeneralized := by
  simp only [isGeneralized, ownMembers, seen, List.any_append, List.any_map]
  rfl

/-- Classes that look the same do not differ in what is seen as it is. -/
theorem eq_of_seen_eq {α : Type _} {f : ClassDef → α}
    (hf : ∀ keeps c, f (c.seen settings keeps) = f c)
    (h : c'.seen settings keeps' = c.seen settings keeps) : f c' = f c := by
  rw [← hf keeps' c', h, hf]

theorem map_eq_of_seen_eq {α : Type _} {f : ClassDef → α}
    (hf : ∀ keeps c, f (c.seen settings keeps) = f c)
    (h : cs'.map (·.seen settings keeps') = cs.map (·.seen settings keeps)) :
    cs'.map f = cs.map f := by
  have hmap : ∀ (keeps : Kind → Bool → Bool) (l : List ClassDef),
      (l.map (·.seen settings keeps)).map f = l.map f := by
    intro keeps l
    rw [List.map_map]
    exact List.map_congr_left fun c _ => hf keeps c
  rw [← hmap keeps', h, hmap]

/-- The constructors, methods and fields of definitions that look the same are merged alike. -/
theorem mergeAll_membersOf_of_seen_eq (hrel : strict.Relaxes relaxed)
    (h : cs'.map (·.seen relaxed keepsAll) = cs.map (·.seen relaxed keeps)) (hs : s ∈ Kind.own)
    (hlog : (Member.mergeAll strict (membersOf cs s)).log = []) :
    (Member.mergeAll relaxed (membersOf cs' s)).log = [] ∧
      (Member.mergeAll relaxed (membersOf cs' s)).value.map (·.seen relaxed fun _ => true) =
        (Member.mergeAll strict (membersOf cs s)).value.map (·.seen relaxed (keeps s)) := by
  refine mergeAll_of_seen_eq hrel ?_ hlog
  rw [← membersOf_map_seen hs, ← h, membersOf_map_seen hs]
  rfl

/-- Definitions that look the same have the same hidden names in common. -/
theorem foldl_inter_of_seen_eq {f : ClassDef → SortedSet Text}
    (hf : ∀ keeps c, f (c.seen settings keeps) = f c)
    (hfirst : first'.seen settings keeps' = first.seen settings keeps)
    (hrest : rest'.map (·.seen settings keeps') = rest.map (·.seen settings keeps)) :
    rest'.foldl (fun s c => s.inter (f c)) (f first') =
      rest.foldl (fun s c => s.inter (f c)) (f first) := by
  have hfold : ∀ (l : List ClassDef) (a : SortedSet Text),
      l.foldl (fun s c => s.inter (f c)) a = (l.map f).foldl SortedSet.inter a :=
    fun _ _ => List.foldl_map.symm
  rw [hfold, hfold, map_eq_of_seen_eq hf hrest, eq_of_seen_eq hf hfirst]

/-- Definitions that look the same have merged bodies that do, without conflicts if there were
none. -/
theorem mergeBody_of_seen_eq (hrel : strict.Relaxes relaxed)
    (h : (first' :: rest').map (·.seen relaxed keepsAll) =
      (first :: rest).map (·.seen relaxed keeps))
    (hlog : (mergeBody strict first rest).log = []) :
    (mergeBody relaxed first' rest').log = [] ∧
      (mergeBody relaxed first' rest').value.seen relaxed keepsAll =
        (mergeBody strict first rest).value.seen relaxed keeps := by
  obtain ⟨hfirst, hrest⟩ := List.cons.inj h
  have hheader : first'.header = first.header := eq_of_seen_eq (fun _ _ => rfl) hfirst
  have hheaders : rest'.map (·.header) = rest.map (·.header) :=
    map_eq_of_seen_eq (fun _ _ => rfl) hrest
  have hsuper : first'.superclass = first.superclass := eq_of_seen_eq (fun _ _ => rfl) hfirst
  have hinterfaces : first'.interfaces = first.interfaces := eq_of_seen_eq (fun _ _ => rfl) hfirst
  have hunion : ∀ f : ClassDef → List Member, (∀ keeps c, f (c.seen relaxed keeps) = f c) →
      unionByKey ((first' :: rest').flatMap f) = unionByKey ((first :: rest).flatMap f) :=
    fun f hf => congrArg (fun l => unionByKey l.flatten) (map_eq_of_seen_eq hf h)
  rw [log_mergeBody, List.append_eq_nil_iff, List.append_eq_nil_iff, List.append_eq_nil_iff] at hlog
  obtain ⟨hparams, hconstructors, hmethods, hfields⟩ := hlog
  replace hconstructors := mergeAll_membersOf_of_seen_eq hrel h (by decide) hconstructors
  replace hmethods := mergeAll_membersOf_of_seen_eq hrel h (by decide) hmethods
  replace hfields := mergeAll_membersOf_of_seen_eq hrel h (by decide) hfields
  constructor
  · rw [log_mergeBody, hheader, hheaders, hparams, hconstructors.1, hmethods.1, hfields.1]
    rfl
  · refine ClassDef.ext ?_ hsuper hinterfaces hconstructors.2 hmethods.2 hfields.2
      (hunion nested fun _ _ => rfl) (hunion permitted fun _ _ => rfl)
      (hunion inherited fun _ _ => rfl)
      (foldl_inter_of_seen_eq (f := hiddenFields) (fun _ _ => rfl) hfirst hrest)
      (foldl_inter_of_seen_eq (f := hiddenClasses) (fun _ _ => rfl) hfirst hrest)
    show (mergeBody relaxed first' rest').value.header = (mergeBody strict first rest).value.header
    simp only [header_mergeBody, List.map_cons, hheader, hheaders]

end ClassDef

end ApiSurface
