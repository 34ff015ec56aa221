import ApiSurface.Proofs.Merge.ClassOrder

/-!
# Bodies merged in parts

Where nothing conflicts, the definitions of a class may be merged at once, or two parts of them by
themselves and then the two results: `mergeBody_append`. Each key is settled by itself. What a part
keeps of a key counts in further merges as all members of the key in that part do
(`Member.StandsFor`), whether there are several or only one, which is kept as it is.
-/

namespace ApiSurface

open Member

namespace Member

variable {settings : MergeSettings} {first a b x y : Member} {rest as bs ms ms' : List Member}

/-! ### One key -/

/-- In further merges `m` counts as all members of one key, of which `first` is the first. -/
structure StandsFor (settings : MergeSettings) (first : Member) (rest : List Member) (m : Member) :
    Prop where
  /-- Its modifiers are in order. -/
  valid : m.Valid
  /-- With other modifiers its modifiers are merged to what those of all members are. -/
  modifiers : ∀ l, Modifiers.joined first.kind (m.modifiers :: l) =
    Modifiers.joined first.kind ((first :: rest).map (·.modifiers) ++ l)
  /-- It has what members of one key have to agree on. -/
  alike : Alike settings first m
  /-- It has the generics declarations of all members. -/
  typeParams : ∀ p, m.typeParams = some p ↔ ∃ n ∈ first :: rest, n.typeParams = some p
  /-- It has the annotations of all members. -/
  annots : ∀ a, a ∈ m.annots ↔ ∃ n ∈ first :: rest, a ∈ n.annots
  /-- It has the exceptions of the first, if they are kept. -/
  throws : ¬ (first.kind.isCallable = true ∧ settings.binaryCompatibility = true) →
    m.throws = first.throws
  /-- All else it has of the first. -/
  others : m = { first with
    modifiers := m.modifiers, typeParams := m.typeParams, throws := m.throws, annots := m.annots }

/-- What is kept of members that agree stands for them. -/
theorem standsFor_keptOf (hkind : ∀ m ∈ rest, m.kind = first.kind)
    (hvalid : ∀ m ∈ first :: rest, m.Valid) (h : Compatible settings (first :: rest))
    (hsame : SameGenerics (first :: rest)) :
    StandsFor settings first rest (keptOf settings (first, rest)) := by
  rcases rest with _ | ⟨second, rest⟩
  · exact
      { valid := hvalid first List.mem_cons_self
        modifiers := fun _ => rfl
        alike := .refl first
        typeParams := fun p => by simp [keptOf]
        annots := fun a => by simp [keptOf]
        throws := fun _ => rfl
        others := rfl }
  · obtain ⟨hmodifiers, hvalidJoined⟩ := modifiers_joined hkind hvalid
    have hne : (first :: second :: rest).map (·.modifiers) ≠ [] := List.cons_ne_nil _ _
    have hthrows : ¬ (first.kind.isCallable = true ∧ settings.binaryCompatibility = true) →
        (joined settings first (second :: rest)).throws = first.throws := fun hnot => if_neg hnot
    refine
      { valid := hvalidJoined
        modifiers := fun l => ?_
        alike := ⟨?_, ?_, fun _ _ => ?_, ?_, fun hbinary _ => ?_⟩
        typeParams := ?_
        annots := fun _ => mem_allAnnots_iff
        throws := hthrows
        others := by simp [keptOf, joined, withModifiers_eq] }
    · rw [keptOf, hmodifiers]
      exact Modifiers.joined_joined_cons first.kind hne l
    · simp [keptOf, joined, withModifiers_eq]
    · simp [keptOf, joined, withModifiers_eq]
    · simp [keptOf, joined, withModifiers_eq]
    · rw [keptOf, has, has, hmodifiers]
      exact (Modifiers.has_static_joined first.kind h.static List.mem_cons_self).symm
    · exact (hthrows fun hboth => by simp [hbinary] at hboth).symm
    · exact fun p => value_mergeTypeParams_eq_some_iff hsame

/-- Of the generics declarations of two parts there are those that are kept of the parts. -/
theorem exists_typeParams_append
    (hx : ∀ p, x.typeParams = some p ↔ ∃ n ∈ a :: as, n.typeParams = some p)
    (hy : ∀ p, y.typeParams = some p ↔ ∃ n ∈ b :: bs, n.typeParams = some p) (p : Text) :
    (∃ m ∈ [x, y], m.typeParams = some p) ↔
      ∃ m ∈ a :: (as ++ b :: bs), m.typeParams = some p := by
  rw [← List.cons_append]
  simp only [List.mem_append, or_and_right, exists_or, ← hx, ← hy]
  simp

theorem allAnnots_append (hx : ∀ e, e ∈ x.annots ↔ ∃ n ∈ ms, e ∈ n.annots)
    (hy : ∀ e, e ∈ y.annots ↔ ∃ n ∈ ms', e ∈ n.annots) :
    allAnnots [x, y] = allAnnots (ms ++ ms') := by
  refine SortedSet.ext fun e => ?_
  simp only [mem_allAnnots_iff, List.mem_append, or_and_right, exists_or, ← hx, ← hy]
  simp

section Two

variable (hx : StandsFor settings a as x) (hy : StandsFor settings b bs y)
include hx hy

theorem compatible_of_standsFor (h : Compatible settings (a :: (as ++ b :: bs))) :
    Compatible settings [x, y] := by
  refine h.of_alike ?_
  rintro m' hm'
  rcases List.mem_cons.1 hm' with rfl | hm'
  · exact ⟨a, List.mem_cons_self, hx.alike⟩
  · obtain rfl := List.mem_singleton.1 hm'
    exact ⟨b, List.mem_cons_of_mem _ (List.mem_append_right _ List.mem_cons_self), hy.alike⟩

/-- The modifiers of all members of two parts are merged to what those of the two members are that
stand for the parts. -/
theorem modifiers_of_standsFor (hkind : b.kind = a.kind) :
    Modifiers.joined a.kind [x.modifiers, y.modifiers] =
      Modifiers.joined a.kind ((a :: (as ++ b :: bs)).map (·.modifiers)) :=
  have hyb := hkind ▸ hy.modifiers
  calc Modifiers.joined a.kind [x.modifiers, y.modifiers]
      = Modifiers.joined a.kind ((a :: as).map (·.modifiers) ++ [y.modifiers]) := hx.modifiers _
    _ = Modifiers.joined a.kind ([y.modifiers] ++ (a :: as).map (·.modifiers)) :=
        Modifiers.joined_congr a.kind fun _ => List.perm_append_comm.mem_iff
    _ = Modifiers.joined a.kind ((b :: bs).map (·.modifiers) ++ (a :: as).map (·.modifiers)) :=
        hyb _
    _ = Modifiers.joined a.kind ((a :: as).map (·.modifiers) ++ (b :: bs).map (·.modifiers)) :=
        Modifiers.joined_congr a.kind fun _ => List.perm_append_comm.mem_iff
    _ = Modifiers.joined a.kind ((a :: (as ++ b :: bs)).map (·.modifiers)) := by
        rw [← List.map_append, List.cons_append]

/-- Two members that stand for parts become what all members of the key do. -/
theorem joined_of_standsFor (hkind : ∀ m ∈ as ++ b :: bs, m.kind = a.kind)
    (hvalid : ∀ m ∈ a :: (as ++ b :: bs), m.Valid) :
    joined settings x [y] = joined settings a (as ++ b :: bs) := by
  have hxkind : x.kind = a.kind := hx.alike.kind.symm
  have hbkind : b.kind = a.kind := hkind b (List.mem_append_right _ List.mem_cons_self)
  have hykind : ∀ m ∈ [y], m.kind = x.kind := by
    rw [List.forall_mem_singleton, ← hy.alike.kind, hbkind, hxkind]
  have hvalidPair : ∀ m ∈ [x, y], m.Valid :=
    List.forall_mem_cons.2 ⟨hx.valid, List.forall_mem_singleton.2 hy.valid⟩
  have hmodifiers : (joined settings x [y]).modifiers =
      (joined settings a (as ++ b :: bs)).modifiers := by
    rw [(modifiers_joined hykind hvalidPair).1, (modifiers_joined hkind hvalid).1, hxkind]
    exact modifiers_of_standsFor hx hy hbkind
  have hparams : (joined settings x [y]).typeParams =
      (joined settings a (as ++ b :: bs)).typeParams :=
    (mergeTypeParams_congr (exists_typeParams_append hx.typeParams hy.typeParams)).1
  have hthrows : (joined settings x [y]).throws = (joined settings a (as ++ b :: bs)).throws := by
    simp only [joined, hxkind]
    split
    next => rfl
    next hnot => exact hx.throws hnot
  have hannots : (joined settings x [y]).annots = (joined settings a (as ++ b :: bs)).annots :=
    allAnnots_append hx.annots hy.annots
  have hothers : ∀ (m : Member) l, joined settings m l = { m with
      modifiers := (joined settings m l).modifiers
      typeParams := (joined settings m l).typeParams
      throws := (joined settings m l).throws
      annots := (joined settings m l).annots } := by
    intro m l
    simp [joined, withModifiers_eq]
  -- in all else the first of the two is like the first of all members
  rw [hothers x, hothers a, hmodifiers, hparams, hthrows, hannots]
  exact congrArg (fun m : Member => { m with
    modifiers := (joined settings a (as ++ b :: bs)).modifiers
    typeParams := (joined settings a (as ++ b :: bs)).typeParams
    throws := (joined settings a (as ++ b :: bs)).throws
    annots := (joined settings a (as ++ b :: bs)).annots }) hx.others

end Two

/-- What is left of the members of one key that agree: none, or one member. -/
def keptOfKey (settings : MergeSettings) : List Member → List Member
  | [] => []
  | first :: rest => [keptOf settings (first, rest)]

theorem keptOfKey_keptOfKey (settings : MergeSettings) (ms : List Member) :
    keptOfKey settings (keptOfKey settings ms) = keptOfKey settings ms := by
  cases ms <;> rfl

/-- The members of a key may be merged in parts. In a part there are none, one or several. -/
theorem keptOfKey_append {k : MemberKey} (hkey : ∀ m ∈ ms ++ ms', m.key = k)
    (hvalid : ∀ m ∈ ms ++ ms', m.Valid) (h : Compatible settings (ms ++ ms'))
    (hsame : SameGenerics (ms ++ ms')) :
    Compatible settings (keptOfKey settings ms ++ keptOfKey settings ms') ∧
      SameGenerics (keptOfKey settings ms ++ keptOfKey settings ms') ∧
      keptOfKey settings (keptOfKey settings ms ++ keptOfKey settings ms') =
        keptOfKey settings (ms ++ ms') := by
  have hpart : ∀ {first rest}, first :: rest ⊆ ms ++ ms' →
      StandsFor settings first rest (keptOf settings (first, rest)) := by
    intro first rest hsub
    refine standsFor_keptOf (fun m hm => ?_) (fun m hm => hvalid m (hsub hm))
      (h.subset hsub) (hsame.subset hsub)
    refine kind_of_key_eq ((hkey m (hsub (List.mem_cons_of_mem _ hm))).trans ?_)
    exact (hkey first (hsub List.mem_cons_self)).symm
  have hone : ∀ m : Member, Compatible settings [m] ∧ SameGenerics [m] := fun m =>
    ⟨compatible_of_subsingleton (by simp), sameGenerics_of_subsingleton (by simp)⟩
  -- a key of one part only is settled there; the other part adds nothing
  rcases ms with _ | ⟨a, as⟩
  · rw [List.nil_append] at h hsame ⊢
    rw [show keptOfKey settings [] = [] from rfl, List.nil_append, keptOfKey_keptOfKey]
    rcases ms' with _ | ⟨b, bs⟩
    · exact ⟨h, hsame, rfl⟩
    · exact ⟨(hone _).1, (hone _).2, rfl⟩
  · rcases ms' with _ | ⟨b, bs⟩
    · rw [List.append_nil, show keptOfKey settings [] = [] from rfl, List.append_nil,
        keptOfKey_keptOfKey]
      exact ⟨(hone _).1, (hone _).2, rfl⟩
    · have hx := hpart (List.subset_append_left (a :: as) (b :: bs))
      have hy := hpart (List.subset_append_right (a :: as) (b :: bs))
      refine ⟨compatible_of_standsFor hx hy h,
        hsame.of_forall fun p => (exists_typeParams_append hx.typeParams hy.typeParams p).1, ?_⟩
      have hkind : ∀ m ∈ as ++ b :: bs, m.kind = a.kind := fun m hm =>
        kind_of_key_eq ((hkey m (List.mem_cons_of_mem _ hm)).trans
          (hkey a List.mem_cons_self).symm)
      have hjoined : keptOfKey settings (a :: (as ++ b :: bs)) =
          [joined settings a (as ++ b :: bs)] := by
        cases as <;> rfl
      rw [List.cons_append, hjoined, ← joined_of_standsFor hx hy hkind hvalid]
      rfl

/-! ### All keys -/

/-- Of the members of a key, which do not conflict, one is left. -/
theorem filter_key_mergeAll (h : (mergeAll settings ms).log = []) (k : MemberKey) :
    (mergeAll settings ms).value.filter (·.key = k) =
      keptOfKey settings (ms.filter (·.key = k)) := by
  rcases hf : ms.filter (·.key = k) with _ | ⟨first, rest⟩ <;> rw [hf]
  · refine List.filter_eq_nil_iff.2 fun r hr => ?_
    obtain ⟨first, rest, hfirst, -⟩ := mem_mergeAll_iff.1 hr
    simp only [decide_eq_true_eq]
    rintro rfl
    rw [hf] at hfirst
    cases hfirst
  · have hfirst : first.key = k := (of_filter_key_eq hf first List.mem_cons_self).2
    have hmem : keptOf settings (first, rest) ∈ (mergeAll settings ms).value := by
      rw [value_mergeAll_of_log_eq_nil h]
      exact List.mem_map_of_mem (mem_groupsBy_iff.2 (hfirst ▸ hf))
    have honce := filter_key_of_nodup (nodup_keys_mergeAll settings ms) hmem
    rwa [key_keptOf, hfirst] at honce

/-- Where there are no conflicts, the keys of the members are left, in the order in which they come
up first. -/
theorem keys_mergeAll_of_log_eq_nil (h : (mergeAll settings ms).log = []) :
    (mergeAll settings ms).value.map key = distinctBy id (ms.map key) := by
  rw [value_mergeAll_of_log_eq_nil h, List.map_map, ← map_distinctBy, ← map_fst_groupsBy,
    List.map_map]
  exact List.map_congr_left fun g _ => key_keptOf settings g

/-- Members that do not conflict may be merged in parts. -/
theorem mergeAll_append (hvalid : ∀ m ∈ ms ++ ms', m.Valid)
    (h : (mergeAll settings (ms ++ ms')).log = []) :
    (mergeAll settings ms).log = [] ∧ (mergeAll settings ms').log = [] ∧
      mergeAll settings ((mergeAll settings ms).value ++ (mergeAll settings ms').value) =
        mergeAll settings (ms ++ ms') := by
  have hall := log_mergeAll_eq_nil_iff.1 h
  have hleft := log_mergeAll_of_subset h (List.subset_append_left ms ms')
  have hright := log_mergeAll_of_subset h (List.subset_append_right ms ms')
  have hkeys : ∀ k,
      Compatible settings (((mergeAll settings ms).value ++
        (mergeAll settings ms').value).filter (·.key = k)) ∧
      SameGenerics (((mergeAll settings ms).value ++
        (mergeAll settings ms').value).filter (·.key = k)) ∧
      keptOfKey settings (((mergeAll settings ms).value ++
        (mergeAll settings ms').value).filter (·.key = k)) =
        keptOfKey settings ((ms ++ ms').filter (·.key = k)) := by
    intro k
    have hk := hall k
    rw [List.filter_append] at hk
    rw [List.filter_append, List.filter_append, filter_key_mergeAll hleft,
      filter_key_mergeAll hright]
    have hmem : ∀ m ∈ ms.filter (·.key = k) ++ ms'.filter (·.key = k),
        m ∈ ms ++ ms' ∧ m.key = k := of_filter_key_eq (List.filter_append ..)
    exact keptOfKey_append (fun m hm => (hmem m hm).2) (fun m hm => hvalid m (hmem m hm).1)
      hk.1 hk.2
  have hlog : (mergeAll settings
      ((mergeAll settings ms).value ++ (mergeAll settings ms').value)).log = [] :=
    log_mergeAll_eq_nil_iff.2 fun k => ⟨(hkeys k).1, (hkeys k).2.1⟩
  refine ⟨hleft, hright, (Logged.eq_pure ?_ hlog).trans (Logged.eq_pure rfl h).symm⟩
  -- both lists have the keys in the order in which they come up first, and one member a key
  refine eq_of_filter_key_eq key ?_ fun k => ?_
  · rw [keys_mergeAll_of_log_eq_nil hlog, keys_mergeAll_of_log_eq_nil h, List.map_append,
      List.map_append, keys_mergeAll_of_log_eq_nil hleft, keys_mergeAll_of_log_eq_nil hright,
      distinctBy_append]
  · rw [filter_key_mergeAll hlog, filter_key_mergeAll h, (hkeys k).2.2]

end Member

namespace ClassDef

variable {settings : MergeSettings} {a b : ClassDef} {as bs : List ClassDef}

/-- References may be taken from two parts by themselves. -/
theorem unionByKey_parts (f : ClassDef → List Member)
    (hf : ∀ first rest, f (mergeBody settings first rest).value =
      unionByKey ((first :: rest).flatMap f)) :
    unionByKey ([(mergeBody settings a as).value, (mergeBody settings b bs).value].flatMap f) =
      unionByKey ((a :: (as ++ b :: bs)).flatMap f) := by
  have hsplit : (a :: (as ++ b :: bs)).flatMap f = (a :: as).flatMap f ++ (b :: bs).flatMap f := by
    rw [← List.flatMap_append, List.cons_append]
  rw [hsplit, List.flatMap_cons, List.flatMap_cons, List.flatMap_nil, List.append_nil, hf, hf]
  exact distinctBy_append key _ _

/-- What is hidden in all definitions of two parts is hidden in all of each part. -/
theorem foldl_inter_append (f : ClassDef → SortedSet Text) (a b : ClassDef)
    (as bs : List ClassDef) :
    (as.foldl (fun s c => s.inter (f c)) (f a)).inter (bs.foldl (fun s c => s.inter (f c)) (f b)) =
      (as ++ b :: bs).foldl (fun s c => s.inter (f c)) (f a) := by
  refine SortedSet.ext fun n => ?_
  rw [SortedSet.mem_inter_iff, mem_foldl_inter_iff, mem_foldl_inter_iff, mem_foldl_inter_iff,
    List.forall_mem_append, List.forall_mem_cons, and_assoc]

/-- Headers that do not conflict may be merged in parts. -/
theorem mergeTypeParams_append (settings : MergeSettings)
    (h : (mergeTypeParams a.header ((as ++ b :: bs).map (·.header))).log = []) :
    (mergeTypeParams a.header (as.map (·.header))).log = [] ∧
      (mergeTypeParams b.header (bs.map (·.header))).log = [] ∧
      mergeTypeParams (mergeBody settings a as).value.header
          [(mergeBody settings b bs).value.header] =
        mergeTypeParams a.header ((as ++ b :: bs).map (·.header)) := by
  have hsame := log_mergeTypeParams_eq_nil_iff.1 h
  rw [List.map_append, List.map_cons] at hsame h ⊢
  have hleft : SameGenerics (a.header :: as.map (·.header)) :=
    hsame.subset (List.subset_append_left (a.header :: as.map (·.header)) _)
  have hright : SameGenerics (b.header :: bs.map (·.header)) :=
    hsame.subset (List.subset_append_right (a.header :: as.map (·.header)) _)
  have hcongr := mergeTypeParams_congr (exists_typeParams_append
    (x := (mergeBody settings a as).value.header) (y := (mergeBody settings b bs).value.header)
    (fun p => value_mergeTypeParams_eq_some_iff hleft)
    (fun p => value_mergeTypeParams_eq_some_iff hright))
  exact ⟨log_mergeTypeParams_eq_nil_iff.2 hleft, log_mergeTypeParams_eq_nil_iff.2 hright,
    (Logged.eq_pure hcongr.1 (hcongr.2.2 h)).trans (Logged.eq_pure rfl h).symm⟩

/-- The members of one kind of definitions that do not conflict may be merged in parts. -/
theorem mergeAll_membersOf_append {s : Kind} (hs : s ∈ Kind.own)
    (hvalid : ∀ c ∈ a :: (as ++ b :: bs), ∀ m ∈ c.ownMembers, m.Valid)
    (h : (Member.mergeAll settings (membersOf (a :: (as ++ b :: bs)) s)).log = []) :
    (Member.mergeAll settings (membersOf (a :: as) s)).log = [] ∧
      (Member.mergeAll settings (membersOf (b :: bs) s)).log = [] ∧
      Member.mergeAll settings (membersOf
          [(mergeBody settings a as).value, (mergeBody settings b bs).value] s) =
        Member.mergeAll settings (membersOf (a :: (as ++ b :: bs)) s) := by
  have hsplit : membersOf (a :: (as ++ b :: bs)) s =
      membersOf (a :: as) s ++ membersOf (b :: bs) s := by
    rw [membersOf, membersOf, membersOf, ← List.flatMap_append, List.cons_append]
  have hmerged : membersOf [(mergeBody settings a as).value, (mergeBody settings b bs).value] s =
      (Member.mergeAll settings (membersOf (a :: as) s)).value ++
        (Member.mergeAll settings (membersOf (b :: bs) s)).value := by
    simp only [membersOf, List.flatMap_cons, List.flatMap_nil, List.append_nil,
      declared_mergeBody hs]
  have hvalidAll : ∀ m ∈ membersOf (a :: (as ++ b :: bs)) s, m.Valid := by
    intro m hm
    obtain ⟨c, hc, hmc⟩ := List.mem_flatMap.1 hm
    exact hvalid c hc m (mem_ownMembers_iff.2 ⟨s, hs, hmc⟩)
  rw [hsplit] at h hvalidAll ⊢
  rw [hmerged]
  exact mergeAll_append hvalidAll h

/-- Bodies of definitions that do not conflict may be merged in parts: neither the merges of the
parts nor that of what these become has a conflict, and the result is the same. -/
theorem mergeBody_append
    (hvalid : ∀ c ∈ a :: (as ++ b :: bs), ∀ m ∈ c.ownMembers, m.Valid)
    (h : (mergeBody settings a (as ++ b :: bs)).log = []) :
    (mergeBody settings a as).log = [] ∧ (mergeBody settings b bs).log = [] ∧
      mergeBody settings (mergeBody settings a as).value [(mergeBody settings b bs).value] =
        mergeBody settings a (as ++ b :: bs) := by
  have hlog := h
  rw [log_mergeBody] at hlog
  simp only [List.append_eq_nil_iff] at hlog
  obtain ⟨hheader, hconstructors, hmethods, hfields⟩ := hlog
  obtain ⟨hheaderLeft, hheaderRight, hheaderBoth⟩ :=
    mergeTypeParams_append settings hheader
  obtain ⟨hcLeft, hcRight, hcBoth⟩ := mergeAll_membersOf_append (by decide) hvalid hconstructors
  obtain ⟨hmLeft, hmRight, hmBoth⟩ := mergeAll_membersOf_append (by decide) hvalid hmethods
  obtain ⟨hfLeft, hfRight, hfBoth⟩ := mergeAll_membersOf_append (by decide) hvalid hfields
  refine ⟨by simp [log_mergeBody, hheaderLeft, hcLeft, hmLeft, hfLeft],
    by simp [log_mergeBody, hheaderRight, hcRight, hmRight, hfRight], ?_⟩
  have hboth : (mergeBody settings (mergeBody settings a as).value
      [(mergeBody settings b bs).value]).log = [] := by
    rw [log_mergeBody, List.map_singleton, hheaderBoth, hcBoth, hmBoth, hfBoth, ← log_mergeBody]
    exact h
  refine (Logged.eq_pure ?_ hboth).trans (Logged.eq_pure rfl h).symm
  refine ClassDef.ext ?header rfl rfl (congrArg Logged.value hcBoth) (congrArg Logged.value hmBoth)
    (congrArg Logged.value hfBoth) (unionByKey_parts nested fun _ _ => rfl)
    (unionByKey_parts permitted fun _ _ => rfl) (unionByKey_parts inherited fun _ _ => rfl)
    (foldl_inter_append hiddenFields a b as bs) (foldl_inter_append hiddenClasses a b as bs)
  have hannots : allAnnots [(mergeBody settings a as).value.header,
      (mergeBody settings b bs).value.header] =
      allAnnots ((a :: as).map (·.header) ++ (b :: bs).map (·.header)) :=
    allAnnots_append (fun _ => mem_allAnnots_iff) fun _ => mem_allAnnots_iff
  rw [← List.map_append, List.cons_append] at hannots
  show ({ a.header with
      typeParams := (mergeTypeParams (mergeBody settings a as).value.header
        [(mergeBody settings b bs).value.header]).value
      annots := allAnnots [(mergeBody settings a as).value.header,
        (mergeBody settings b bs).value.header] } : Member) = _
  rw [hheaderBoth, hannots, header_mergeBody]

/-- A definition of `a.C` with methods of the given names, modifiers and exceptions. -/
def definitionThrowing (methods : List (String × List Modifier × String)) : ClassDef where
  header := { kind := .header, name := "a.C".toList }
  methods := methods.map fun m =>
    { kind := .method, modifiers := .ofList m.2.1, declaring := "a.C".toList, name := m.1.toList
      typeName := "void".toList, throws := m.2.2.toList }

/-- Where exceptions do not count, methods that come up several times lose theirs, in whichever
parts they are, and the one that comes up once keeps them. -/
theorem mergeBody_append_definitionThrowing :
    mergeBody { binaryCompatibility := true }
      (mergeBody { binaryCompatibility := true }
        (definitionThrowing [("m", [.priv], "a.X"), ("single", [], "a.Z")]) []).value
      [(mergeBody { binaryCompatibility := true }
        (definitionThrowing [("n", [.final], "a.X"), ("m", [.pub], "a.Y")])
        [definitionThrowing [("n", [.final, .synchronized], "")]]).value] =
    pure (definitionThrowing
      [("m", [.pub], ""), ("single", [], "a.Z"), ("n", [.final, .synchronized], "")]) := by
  have hmerged : mergeBody { binaryCompatibility := true }
      (definitionThrowing [("m", [.priv], "a.X"), ("single", [], "a.Z")])
      ([] ++ [definitionThrowing [("n", [.final], "a.X"), ("m", [.pub], "a.Y")],
        definitionThrowing [("n", [.final, .synchronized], "")]]) =
      pure (definitionThrowing
        [("m", [.pub], ""), ("single", [], "a.Z"), ("n", [.final, .synchronized], "")]) := by
    decide +kernel
  rw [← hmerged]
  exact (mergeBody_append (by decide) (by rw [hmerged]; rfl)).2.2

end ClassDef

end ApiSurface
