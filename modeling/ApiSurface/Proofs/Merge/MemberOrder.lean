import ApiSurface.Proofs.Merge.Groups
import ApiSurface.Proofs.Merge.Promotion

/-!
# Members in another order

The order in which members come decides nothing about what they are merged to, apart from what
`Member.api` leaves out: a constant that is not compared, the exceptions of what cannot throw any,
and the mark of direct interfaces. `mergeAll_perm` says so for lists of members that have the same
`api`, each as often as the other list.
-/

namespace ApiSurface

open Conflict

/-- If two lists look the same up to their order, the one through `f` and the other through `f'`,
and how elements look decides what `g` and `g'` give for them, then these give the same list up to
its order. -/
theorem perm_map_of_perm_map {α α' β γ : Type _} {f : α → β} {f' : α' → β} {g : α → γ}
    {g' : α' → γ} {l : List α} {l' : List α'} (h : (l.map f).Perm (l'.map f'))
    (hg : ∀ a ∈ l, ∀ b ∈ l', f a = f' b → g a = g' b) : (l.map g).Perm (l'.map g') := by
  induction l generalizing l' with
  | nil =>
    have hnil : l' = [] := List.map_eq_nil_iff.1 h.nil_eq.symm
    rw [hnil]
    exact .refl _
  | cons a l ih =>
    have hmem : f a ∈ l'.map f' := h.subset List.mem_cons_self
    obtain ⟨b, hb, hfb⟩ := List.mem_map.1 hmem
    obtain ⟨s, t, rfl⟩ := List.append_of_mem hb
    have hmiddle : (s ++ b :: t).Perm (b :: (s ++ t)) := List.perm_middle
    have htail : (l.map f).Perm ((s ++ t).map f') := by
      refine List.Perm.cons_inv (a := f a) (h.trans ?_)
      rw [← hfb]
      exact hmiddle.map f'
    have hrest : (l.map g).Perm ((s ++ t).map g') := by
      refine ih htail fun x hx y hy => hg x (List.mem_cons_of_mem _ hx) y ?_
      exact hmiddle.symm.subset (List.mem_cons_of_mem _ hy)
    rw [List.map_cons, hg a List.mem_cons_self b hb hfb.symm]
    exact (hrest.cons _).trans (hmiddle.map g').symm

namespace Member

/-- What the order of the definitions leaves of a member. -/
def api (settings : MergeSettings) (m : Member) : Member :=
  { m with
    throws := if m.kind.isCallable then m.throws else []
    constant := if m.kind = .field ∧ settings.trackConstantValues = true then m.constant else none
    direct := false }

variable {settings : MergeSettings} {ms ms' : List Member} {m m' : Member}

/-! ### What is left of a member -/

/-- What two members with the same `api` have in common. -/
theorem api_eq_iff : m.api settings = m'.api settings ↔
    m.key = m'.key ∧ m.modifiers = m'.modifiers ∧ m.typeName = m'.typeName ∧
      m.typeParams = m'.typeParams ∧ m.annots = m'.annots ∧
      (m.kind.isCallable = true → m.throws = m'.throws) ∧
      (m.kind = .field → settings.trackConstantValues = true → m.constant = m'.constant) := by
  constructor
  · intro h
    have hkind : m.kind = m'.kind := (congrArg Member.kind h :)
    have hthrows := congrArg Member.throws h
    have hconstant := congrArg Member.constant h
    refine ⟨(congrArg key h :), (congrArg Member.modifiers h :), (congrArg Member.typeName h :),
      (congrArg Member.typeParams h :), (congrArg Member.annots h :), ?_, ?_⟩
    · intro hcallable
      simpa only [api, ← hkind, hcallable, if_true] using hthrows
    · intro hfield htracked
      simpa only [api, ← hkind, hfield, htracked, and_self, if_true] using hconstant
  · rintro ⟨hkey, hmodifiers, htype, hparams, hannots, hthrows, hconstant⟩
    have hkind : m.kind = m'.kind := congrArg MemberKey.kind hkey
    have hthrows' : (m.api settings).throws = (m'.api settings).throws := by
      simp only [api, ← hkind]
      split
      next hcallable => exact hthrows hcallable
      next => rfl
    have hconstant' : (m.api settings).constant = (m'.api settings).constant := by
      simp only [api, ← hkind]
      split
      next h => exact hconstant h.1 h.2
      next => rfl
    simp only [api, Member.mk.injEq] at hthrows' hconstant' ⊢
    exact ⟨hkind, hmodifiers, congrArg MemberKey.declaring hkey,
      congrArg MemberKey.name hkey, htype, congrArg MemberKey.args hkey, hthrows', hparams,
      hannots, hconstant', trivial⟩

theorem key_of_api_eq (h : m.api settings = m'.api settings) : m.key = m'.key :=
  (api_eq_iff.1 h).1

theorem kind_of_api_eq (h : m.api settings = m'.api settings) : m.kind = m'.kind :=
  kind_of_key_eq (api_eq_iff.1 h).1

theorem typeName_of_api_eq (h : m.api settings = m'.api settings) : m.typeName = m'.typeName :=
  (api_eq_iff.1 h).2.2.1

theorem typeParams_of_api_eq (h : m.api settings = m'.api settings) :
    m.typeParams = m'.typeParams := (api_eq_iff.1 h).2.2.2.1

theorem annots_of_api_eq (h : m.api settings = m'.api settings) : m.annots = m'.annots :=
  (api_eq_iff.1 h).2.2.2.2.1

theorem throws_of_api_eq (h : m.api settings = m'.api settings)
    (hcallable : m.kind.isCallable = true) : m.throws = m'.throws :=
  (api_eq_iff.1 h).2.2.2.2.2.1 hcallable

theorem constant_of_api_eq (h : m.api settings = m'.api settings) (hfield : m.kind = .field)
    (htracked : settings.trackConstantValues = true) : m.constant = m'.constant :=
  (api_eq_iff.1 h).2.2.2.2.2.2 hfield htracked

theorem valid_of_api_eq (h : m.api settings = m'.api settings) (hvalid : m.Valid) : m'.Valid := by
  have hkind : m.kind = m'.kind := kind_of_api_eq h
  have hmodifiers : m.modifiers = m'.modifiers := (api_eq_iff.1 h).2.1
  rwa [Valid, has, has, ← hkind, ← hmodifiers]

/-- The erasure of a member does not show what the order leaves out. -/
theorem api_erased (policy : UnboundPolicy) (outer : Params)
    (h : m.api settings = m'.api settings) :
    (m.erased policy outer).api settings = (m'.erased policy outer).api settings := by
  obtain ⟨hkey, hmodifiers, htype, hparams, hannots, hthrows, hconstant⟩ := api_eq_iff.1 h
  obtain ⟨hkind, hdeclaring, hmname, hargs⟩ := MemberKey.mk.inj hkey
  refine api_eq_iff.2 ⟨?_, hmodifiers, ?_, rfl, hannots, fun hcallable => ?_, hconstant⟩
  · simp only [key, erased, erasure, Logged.value_bind, Logged.value_pure, hkind, hdeclaring,
      hmname, hargs, hparams]
  · simp only [erased, erasure, Logged.value_bind, Logged.value_pure, htype, hparams]
  · simp only [erased, erasure, Logged.value_bind, Logged.value_pure, hthrows hcallable, hparams]

/-- What a member adopts from a generic one does not show what the order leaves out. -/
theorem api_adopt {e e' g g' : Member} (hm : m.api settings = m'.api settings)
    (he : e.api settings = e'.api settings) (hg : g.api settings = g'.api settings)
    (hekind : e.kind = m.kind) (hgkind : g.kind = m.kind) :
    (m.adopt e g).api settings = (m'.adopt e' g').api settings := by
  obtain ⟨hkey, hmodifiers, -, -, hannots, hthrows, hconstant⟩ := api_eq_iff.1 hm
  obtain ⟨hkind, hdeclaring, hmname, -⟩ := MemberKey.mk.inj hkey
  obtain ⟨-, -, -, hargs⟩ := MemberKey.mk.inj (key_of_api_eq hg)
  refine api_eq_iff.2 ⟨?_, hmodifiers, (typeName_of_api_eq hg :), (typeParams_of_api_eq hg :),
    hannots, fun hcallable => ?_, hconstant⟩
  · simp only [key, adopt, hkind, hdeclaring, hmname, hargs]
  · have hcallable : m.kind.isCallable = true := hcallable
    simp only [adopt, hthrows hcallable, throws_of_api_eq he (hekind ▸ hcallable),
      throws_of_api_eq hg (hgkind ▸ hcallable)]

/-! ### Lists in another order -/

/-- A member of the one list has a counterpart in the other. -/
theorem exists_of_mem (h : (ms.map (api settings)).Perm (ms'.map (api settings))) (hm : m ∈ ms) :
    ∃ m' ∈ ms', m'.api settings = m.api settings := by
  exact List.mem_map.1 (h.subset (List.mem_map_of_mem hm))

theorem exists_mem_iff {p : Member → Prop}
    (h : (ms.map (api settings)).Perm (ms'.map (api settings)))
    (hp : ∀ {m m' : Member}, m.api settings = m'.api settings → (p m ↔ p m')) :
    (∃ m ∈ ms, p m) ↔ ∃ m' ∈ ms', p m' := by
  constructor
  · rintro ⟨m, hm, hpm⟩
    obtain ⟨m', hm', heq⟩ := exists_of_mem h hm
    exact ⟨m', hm', (hp heq).2 hpm⟩
  · rintro ⟨m', hm', hpm'⟩
    obtain ⟨m, hm, heq⟩ := exists_of_mem h.symm hm'
    exact ⟨m, hm, (hp heq).2 hpm'⟩

theorem valid_of_perm (h : (ms.map (api settings)).Perm (ms'.map (api settings)))
    (hvalid : ∀ m ∈ ms, m.Valid) : ∀ m' ∈ ms', m'.Valid := by
  intro m' hm'
  obtain ⟨m, hm, heq⟩ := exists_of_mem h.symm hm'
  exact valid_of_api_eq heq (hvalid m hm)

theorem typeParams_perm (h : (ms.map (api settings)).Perm (ms'.map (api settings))) :
    (ms.map (·.typeParams)).Perm (ms'.map (·.typeParams)) := by
  have := h.map (·.typeParams)
  rwa [List.map_map, List.map_map] at this

theorem modifiers_perm (h : (ms.map (api settings)).Perm (ms'.map (api settings))) :
    (ms.map (·.modifiers)).Perm (ms'.map (·.modifiers)) := by
  have := h.map (·.modifiers)
  rwa [List.map_map, List.map_map] at this

/-- The members of a key are the same in both lists, up to their order. -/
theorem filter_perm (h : (ms.map (api settings)).Perm (ms'.map (api settings))) (k : MemberKey) :
    ((ms.filter (·.key = k)).map (api settings)).Perm
      ((ms'.filter (·.key = k)).map (api settings)) := by
  have := h.filter (·.key = k)
  rwa [List.filter_map, List.filter_map] at this

/-! ### Members of one key -/

theorem alike_of_api_eq (h : m.api settings = m'.api settings) : Alike settings m m' where
  kind := kind_of_api_eq h
  typeName := typeName_of_api_eq h
  constant htracked hfield := constant_of_api_eq h hfield htracked
  static := by
    have hmodifiers : m.modifiers = m'.modifiers := (api_eq_iff.1 h).2.1
    rw [has, has, hmodifiers]
  throws _ hcallable := throws_of_api_eq h hcallable

/-- What members agree on does not depend on their order. -/
theorem compatible_of_perm (h : (ms.map (api settings)).Perm (ms'.map (api settings)))
    (hcompatible : Compatible settings ms) : Compatible settings ms' := by
  refine hcompatible.of_alike fun m' hm' => ?_
  obtain ⟨m, hm, hmm'⟩ := exists_of_mem h.symm hm'
  exact ⟨m, hm, alike_of_api_eq hmm'⟩

theorem exists_typeParams_iff (h : (ms.map (·.typeParams)).Perm (ms'.map (·.typeParams)))
    (p : Text) :
    (∃ m ∈ ms, m.typeParams = some p) ↔ ∃ m' ∈ ms', m'.typeParams = some p := by
  have := h.mem_iff (a := some p)
  simpa only [List.mem_map] using this

theorem sameGenerics_of_perm (h : (ms.map (·.typeParams)).Perm (ms'.map (·.typeParams)))
    (hsame : SameGenerics ms) : SameGenerics ms' :=
  hsame.of_forall fun p => (exists_typeParams_iff h p).2

/-- The order of generics declarations does not matter for the one that is kept and whether a
mismatch is reported. -/
theorem mergeTypeParams_perm {first first' : Member} {rest rest' : List Member}
    (h : ((first :: rest).map (·.typeParams)).Perm ((first' :: rest').map (·.typeParams))) :
    (mergeTypeParams first rest).value = (mergeTypeParams first' rest').value ∧
      ((mergeTypeParams first rest).log = [] ↔ (mergeTypeParams first' rest').log = []) :=
  mergeTypeParams_congr (exists_typeParams_iff h)

/-- What members of a key become depends on them, and not on their order. -/
theorem api_eq_of_joins {log log' : List Conflict} (hne : ms ≠ [])
    (hkeys : ∀ n ∈ ms, n.key = m.key) (hvalid : ∀ n ∈ ms, n.Valid)
    (h : (ms.map (api settings)).Perm (ms'.map (api settings)))
    (hkey : m.key = m'.key) (hm : Joins settings ms log m) (hm' : Joins settings ms' log' m') :
    m.api settings = m'.api settings := by
  obtain ⟨n, hn⟩ := List.exists_mem_of_ne_nil ms hne
  obtain ⟨n', hn', hnn'⟩ := exists_of_mem h hn
  have hkind : m.kind = m'.kind := kind_of_key_eq hkey
  have hkindN' : n'.kind = m.kind :=
    (kind_of_api_eq hnn').trans (kind_of_key_eq (hkeys n hn))
  have hmodifiers : m.modifiers = m'.modifiers := by
    have heq := hm.modifiers hvalid
    rw [hkind, Modifiers.merge_perm _ (modifiers_perm h), hm'.modifiers (valid_of_perm h hvalid)]
      at heq
    exact (Option.some.inj heq).symm
  have hannots : m.annots = m'.annots := by
    refine SortedSet.ext fun a => ?_
    rw [hm.annots, hm'.annots]
    exact exists_mem_iff h fun hxy => by rw [annots_of_api_eq hxy]
  have hparams : m.typeParams = m'.typeParams := by
    by_cases hsame : SameGenerics ms
    · refine Option.ext fun p => ?_
      rw [(hm.generics hsame).1, (hm'.generics (sameGenerics_of_perm (typeParams_perm h) hsame)).1]
      exact exists_mem_iff h fun hxy => by rw [typeParams_of_api_eq hxy]
    · have hsame' : ¬ SameGenerics ms' := fun hs =>
        hsame (sameGenerics_of_perm (typeParams_perm h.symm) hs)
      rw [(hm.mismatch hsame).1, (hm'.mismatch hsame').1]
  refine api_eq_iff.2 ⟨hkey, hmodifiers, ?_, hparams, hannots, fun hcallable => ?_,
    fun hfield htracked => ?_⟩
  · rw [← hm.typeName n hn, ← hm'.typeName n' hn', typeName_of_api_eq hnn']
  · by_cases hbinary : settings.binaryCompatibility = true
    · rw [hm.noThrows hcallable hbinary, hm'.noThrows (hkind ▸ hcallable) hbinary]
    · have hbinary : settings.binaryCompatibility = false := by simpa using hbinary
      rw [← hm.throws hcallable hbinary n hn, ← hm'.throws (hkind ▸ hcallable) hbinary n' hn',
        throws_of_api_eq hnn' (hkindN' ▸ hcallable)]
  · rw [← hm.constant hfield htracked n hn, ← hm'.constant (hkind ▸ hfield) htracked n' hn',
      constant_of_api_eq hnn' (hkindN'.trans hfield) htracked]

/-! ### All members -/

/-- A merged member of one list has a counterpart among those of the other. -/
theorem exists_of_mem_mergeAll (hvalid : ∀ m ∈ ms, m.Valid)
    (h : (ms.map (api settings)).Perm (ms'.map (api settings))) {r : Member}
    (hr : r ∈ (mergeAll settings ms).value) :
    ∃ r' ∈ (mergeAll settings ms').value, r.api settings = r'.api settings := by
  obtain ⟨first, rest, hf, hvalue⟩ := mem_mergeAll_iff.1 hr
  have hmem := of_filter_key_eq hf
  have hkeys : ∀ m ∈ first :: rest, m.key = r.key := fun m hm => (hmem m hm).2
  have hvalid' : ∀ m ∈ first :: rest, m.Valid := fun m hm => hvalid m (hmem m hm).1
  have hperm := filter_perm h r.key
  have hlength := hperm.length_eq
  rw [hf] at hperm hlength
  rcases hf' : ms'.filter (·.key = r.key) with _ | ⟨first', rest'⟩
  · simp [hf'] at hlength
  have hkey' : first'.key = r.key := (of_filter_key_eq hf' first' List.mem_cons_self).2
  rw [hf'] at hperm hlength
  rcases rest with _ | ⟨second, rest⟩
  · obtain rfl : first = r := Option.some.inj hvalue
    obtain rfl : rest' = [] := by simpa using hlength
    refine ⟨first', mem_mergeAll_iff.2 ⟨first', [], ?_, rfl⟩, ?_⟩
    · rw [hkey', hf']
    · simpa using hperm
  · obtain ⟨second', rest', rfl⟩ : ∃ second' rest'', rest' = second' :: rest'' := by
      rcases rest' with _ | ⟨second', rest''⟩
      · simp at hlength
      · exact ⟨second', rest'', rfl⟩
    have hkind := kind_of_filter_eq_cons hf
    have hkind' := kind_of_filter_eq_cons hf'
    obtain ⟨hcompatible, hjoined⟩ := (value_mergeGroup_eq_some_iff hkind).1 hvalue
    have hcompatible' := compatible_of_perm hperm hcompatible
    have hjoins := joins_joined hkind hcompatible (fun _ _ => Iff.rfl)
    have hjoins' := joins_joined hkind' hcompatible' (fun _ _ => Iff.rfl)
    rw [← hjoined] at hjoins
    refine ⟨joined settings first' (second' :: rest'), mem_mergeAll_iff.2
      ⟨first', second' :: rest', ?_, (mergeGroup_of_compatible hkind' hcompatible').1⟩, ?_⟩
    · rw [key_joined, hkey', hf']
    · refine api_eq_of_joins (List.cons_ne_nil _ _) hkeys hvalid' hperm ?_ hjoins hjoins'
      rw [key_joined, hkey']

/-- The order of members does not matter for what they are merged to and whether anything is
reported. -/
theorem mergeAll_perm (hvalid : ∀ m ∈ ms, m.Valid)
    (h : (ms.map (api settings)).Perm (ms'.map (api settings))) :
    ((mergeAll settings ms).value.map (api settings)).Perm
        ((mergeAll settings ms').value.map (api settings)) ∧
      ((mergeAll settings ms).log = [] ↔ (mergeAll settings ms').log = []) := by
  have hnodup : ∀ ms : List Member, ((mergeAll settings ms).value.map (api settings)).Nodup := by
    intro ms
    refine List.Nodup.of_map key ?_
    rw [List.map_map]
    exact nodup_keys_mergeAll settings ms
  constructor
  · rw [List.perm_ext_iff_of_nodup (hnodup ms) (hnodup ms')]
    intro a
    simp only [List.mem_map]
    constructor
    · rintro ⟨r, hr, rfl⟩
      obtain ⟨r', hr', heq⟩ := exists_of_mem_mergeAll hvalid h hr
      exact ⟨r', hr', heq.symm⟩
    · rintro ⟨r', hr', rfl⟩
      obtain ⟨r, hr, heq⟩ := exists_of_mem_mergeAll (valid_of_perm h hvalid) h.symm hr'
      exact ⟨r, hr, heq.symm⟩
  · rw [log_mergeAll_eq_nil_iff, log_mergeAll_eq_nil_iff]
    constructor
    · intro hall k
      exact ⟨compatible_of_perm (filter_perm h k) (hall k).1,
        sameGenerics_of_perm (typeParams_perm (filter_perm h k)) (hall k).2⟩
    · intro hall k
      exact ⟨compatible_of_perm (filter_perm h.symm k) (hall k).1,
        sameGenerics_of_perm (typeParams_perm (filter_perm h.symm k)) (hall k).2⟩

/-- Merged members are in order if the members are. -/
theorem valid_of_mem_mergeAll (hvalid : ∀ m ∈ ms, m.Valid) {r : Member}
    (hr : r ∈ (mergeAll settings ms).value) : r.Valid := by
  obtain ⟨first, rest, hf, hvalue⟩ := mem_mergeAll_iff.1 hr
  have hvalid' : ∀ m ∈ first :: rest, m.Valid := fun m hm =>
    hvalid m (of_filter_key_eq hf m hm).1
  rcases rest with _ | ⟨second, rest⟩
  · obtain rfl : first = r := Option.some.inj hvalue
    exact hvalid' first List.mem_cons_self
  · have hkind := kind_of_filter_eq_cons hf
    obtain ⟨-, rfl⟩ := (value_mergeGroup_eq_some_iff hkind).1 hvalue
    exact (modifiers_joined hkind hvalid').2

end Member

end ApiSurface
