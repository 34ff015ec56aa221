import ApiSurface.Proofs.Merge.Members
import ApiSurface.Proofs.Merge.Modifiers

/-!
# Members of one key

Whether members of one key become one member, and which one, does not depend on the member that
comes first: `Member.Compatible` says on what any two of them have to agree, `Member.SameGenerics`
when they keep their generics declaration, and `Member.joined` is what they become.
`mergeGroup_of_compatible` and `value_mergeGroup_of_not_compatible` are the two cases. For a list
of members `Member.Joins` tells, by their key, which members it is merged to (`mem_mergeAll_iff`);
`clash_iff` and `log_mergeAll_eq_nil_iff` tell which keys clash and when nothing is reported.
-/

namespace ApiSurface

open Conflict

namespace Member

/-- The members agree on all that members of one key have to agree on. -/
structure Compatible (settings : MergeSettings) (ms : List Member) : Prop where
  /-- They have one type. -/
  typeName : ∀ m ∈ ms, ∀ n ∈ ms, m.typeName = n.typeName
  /-- Fields have one constant, if constants are compared. -/
  constant : settings.trackConstantValues = true →
    ∀ m ∈ ms, ∀ n ∈ ms, m.kind = .field → n.kind = .field → m.constant = n.constant
  /-- All of them are static, or none. -/
  static : Modifiers.SameStatic (ms.map (·.modifiers))
  /-- Callables declare the same exceptions, unless exceptions do not count. -/
  throws : settings.binaryCompatibility = false →
    ∀ m ∈ ms, ∀ n ∈ ms, m.kind.isCallable = true → n.kind.isCallable = true →
      m.throws = n.throws

/-- The members that have a generics declaration have the same one. -/
def SameGenerics (ms : List Member) : Prop :=
  ∀ m ∈ ms, ∀ n ∈ ms, ∀ p ∈ m.typeParams, ∀ q ∈ n.typeParams, p = q

/-- What members of one key become that agree on all that they have to agree on. -/
def joined (settings : MergeSettings) (first : Member) (rest : List Member) : Member :=
  { first.withModifiers (Modifiers.joined first.kind ((first :: rest).map (·.modifiers))) with
    typeParams := (mergeTypeParams first rest).value
    throws :=
      if first.kind.isCallable = true ∧ settings.binaryCompatibility = true then []
      else first.throws
    annots := allAnnots (first :: rest) }

variable {settings : MergeSettings} {first : Member} {rest : List Member}

/-! ### Agreement -/

/-- No other element differs from the first exactly if no two elements differ. -/
theorem find?_ne_eq_none_iff {α β : Type _} [DecidableEq β] {f : α → β} {a : α} {l : List α} :
    l.find? (f · ≠ f a) = none ↔ ∀ x ∈ a :: l, ∀ y ∈ a :: l, f x = f y := by
  simp only [List.find?_eq_none, decide_eq_true_eq, not_not]
  constructor
  · intro h
    have hfirst : ∀ x ∈ a :: l, f x = f a := List.forall_mem_cons.2 ⟨rfl, h⟩
    intro x hx y hy
    rw [hfirst x hx, hfirst y hy]
  · exact fun h x hx => h x (List.mem_cons_of_mem _ hx) a List.mem_cons_self

theorem agree_eq_ok_iff (hkind : ∀ m ∈ rest, m.kind = first.kind) {mods : Modifiers} :
    agree settings first rest = .ok mods ↔
      (∀ m ∈ first :: rest, ∀ n ∈ first :: rest, m.typeName = n.typeName) ∧
      (settings.trackConstantValues = true → ∀ m ∈ first :: rest, ∀ n ∈ first :: rest,
        m.kind = .field → n.kind = .field → m.constant = n.constant) ∧
      Modifiers.SameStatic ((first :: rest).map (·.modifiers)) ∧
      mods = Modifiers.joined first.kind ((first :: rest).map (·.modifiers)) := by
  have hkinds : ∀ m ∈ first :: rest, m.kind = first.kind := List.forall_mem_cons.2 ⟨rfl, hkind⟩
  have hconstant : ((if first.kind = .field ∧ settings.trackConstantValues
        then rest.find? (·.constant ≠ first.constant) else none) = none) ↔
      (settings.trackConstantValues = true → ∀ m ∈ first :: rest, ∀ n ∈ first :: rest,
        m.kind = .field → n.kind = .field → m.constant = n.constant) := by
    split
    next h =>
      rw [find?_ne_eq_none_iff]
      exact ⟨fun hall _ m hm n hn _ _ => hall m hm n hn, fun hall m hm n hn =>
        hall h.2 m hm n hn ((hkinds m hm).trans h.1) ((hkinds n hn).trans h.1)⟩
    next h =>
      refine iff_of_true rfl fun htracked m hm n hn hfield _ => absurd ⟨?_, htracked⟩ h
      rw [← hkinds m hm, hfield]
  have htype := find?_ne_eq_none_iff (f := fun m : Member => m.typeName) (a := first) (l := rest)
  have hmerge : Modifiers.merge first.kind ((first :: rest).map (·.modifiers)) = some mods ↔ _ :=
    Modifiers.merge_eq_some_iff
  rw [← hconstant, ← htype]
  unfold agree
  split
  next hfind => simp only [hfind, reduceCtorEq, false_and]
  next hfind =>
    split
    next hfind' => simp only [hfind', reduceCtorEq, false_and, and_false]
    next hfind' =>
      simp only [hfind, hfind', true_and]
      split
      next hmods =>
        rw [hmods, Option.some.injEq] at hmerge
        simp only [Except.ok.injEq, hmerge, List.map_cons, ne_eq, reduceCtorEq,
          not_false_eq_true, true_and]
      next hmods =>
        rw [hmods] at hmerge
        simpa only [reduceCtorEq, false_iff, List.map_cons, ne_eq, not_false_eq_true,
          true_and] using hmerge

theorem agreeThrows_eq_ok_iff (hkind : ∀ m ∈ rest, m.kind = first.kind) {throws : Text} :
    agreeThrows settings first rest = .ok throws ↔
      (settings.binaryCompatibility = false → ∀ m ∈ first :: rest, ∀ n ∈ first :: rest,
        m.kind.isCallable = true → n.kind.isCallable = true → m.throws = n.throws) ∧
      throws = if first.kind.isCallable = true ∧ settings.binaryCompatibility = true then []
        else first.throws := by
  have hkinds : ∀ m ∈ first :: rest, m.kind = first.kind := List.forall_mem_cons.2 ⟨rfl, hkind⟩
  unfold agreeThrows
  split
  next hcallable =>
    split
    next hbinary =>
      rw [if_pos ⟨hcallable, hbinary⟩, Except.ok.injEq, eq_comm]
      exact (and_iff_right fun h => by rw [hbinary] at h; cases h).symm
    next hbinary =>
      have hall : rest.find? (·.throws ≠ first.throws) = none ↔
          (settings.binaryCompatibility = false → ∀ m ∈ first :: rest, ∀ n ∈ first :: rest,
            m.kind.isCallable = true → n.kind.isCallable = true → m.throws = n.throws) := by
        rw [find?_ne_eq_none_iff]
        exact ⟨fun hall _ m hm n hn _ _ => hall m hm n hn,
          fun hall m hm n hn => hall (by simpa using hbinary) m hm n hn
            (by rw [hkinds m hm, hcallable]) (by rw [hkinds n hn, hcallable])⟩
      rw [← hall, if_neg (fun h => hbinary h.2)]
      split
      next hfind => simp only [hfind, reduceCtorEq, false_and]
      next hfind => simp only [hfind, true_and, Except.ok.injEq, eq_comm]
  next hcallable =>
    rw [if_neg (fun h => hcallable h.1), Except.ok.injEq, eq_comm]
    refine (and_iff_right fun _ m hm n _ hm' _ => absurd ?_ hcallable).symm
    rw [← hkinds m hm, hm']

/-- The second member has all of the first that members of one key have to agree on. -/
structure Alike (settings : MergeSettings) (m m' : Member) : Prop where
  /-- The two are of one kind. -/
  kind : m.kind = m'.kind
  /-- They have one type. -/
  typeName : m.typeName = m'.typeName
  /-- They have one constant, if constants are compared. -/
  constant : settings.trackConstantValues = true → m.kind = .field → m.constant = m'.constant
  /-- Both are static, or none is. -/
  static : m.has .static = m'.has .static
  /-- They declare the same exceptions, unless exceptions do not count. -/
  throws : settings.binaryCompatibility = false → m.kind.isCallable = true → m.throws = m'.throws

theorem Alike.refl (m : Member) : Alike settings m m :=
  ⟨rfl, rfl, fun _ _ => rfl, rfl, fun _ _ => rfl⟩

/-- Members agree if they are like members that do. -/
theorem Compatible.of_alike {ms ms' : List Member} (h : Compatible settings ms)
    (halike : ∀ m' ∈ ms', ∃ m ∈ ms, Alike settings m m') : Compatible settings ms' := by
  constructor
  case typeName =>
    intro m' hm' n' hn'
    obtain ⟨m, hm, hmm'⟩ := halike m' hm'
    obtain ⟨n, hn, hnn'⟩ := halike n' hn'
    rw [← hmm'.typeName, ← hnn'.typeName]
    exact h.typeName m hm n hn
  case constant =>
    intro htracked m' hm' n' hn' hfield hfield'
    obtain ⟨m, hm, hmm'⟩ := halike m' hm'
    obtain ⟨n, hn, hnn'⟩ := halike n' hn'
    rw [← hmm'.kind] at hfield
    rw [← hnn'.kind] at hfield'
    rw [← hmm'.constant htracked hfield, ← hnn'.constant htracked hfield']
    exact h.constant htracked m hm n hn hfield hfield'
  case static =>
    intro s hs t ht
    obtain ⟨m', hm', rfl⟩ := List.mem_map.1 hs
    obtain ⟨n', hn', rfl⟩ := List.mem_map.1 ht
    obtain ⟨m, hm, hmm'⟩ := halike m' hm'
    obtain ⟨n, hn, hnn'⟩ := halike n' hn'
    exact hmm'.static.symm.trans ((h.static _ (List.mem_map_of_mem hm) _
      (List.mem_map_of_mem hn)).trans hnn'.static)
  case throws =>
    intro hthrows m' hm' n' hn' hcallable hcallable'
    obtain ⟨m, hm, hmm'⟩ := halike m' hm'
    obtain ⟨n, hn, hnn'⟩ := halike n' hn'
    rw [← hmm'.kind] at hcallable
    rw [← hnn'.kind] at hcallable'
    rw [← hmm'.throws hthrows hcallable, ← hnn'.throws hthrows hcallable']
    exact h.throws hthrows m hm n hn hcallable hcallable'

/-- Some of members that agree do. -/
theorem Compatible.subset {ms ms' : List Member} (h : Compatible settings ms) (hsub : ms' ⊆ ms) :
    Compatible settings ms' := h.of_alike fun m hm => ⟨m, hsub hm, .refl m⟩

/-! ### Generics declarations -/

theorem sameGenerics_iff {ms : List Member} :
    SameGenerics ms ↔
      ∀ p ∈ ms.filterMap (·.typeParams), ∀ q ∈ ms.filterMap (·.typeParams), p = q := by
  simp only [SameGenerics, List.mem_filterMap, forall_exists_index, and_imp, Option.mem_def]
  exact ⟨fun h p m hm hp q n hn hq => h m hm n hn p hp q hq,
    fun h m hm n hn p hp q hq => h p m hm hp q n hn hq⟩

/-- Members keep the generics declaration on which all that have one agree; if they do not agree,
one pair of different declarations is reported. -/
theorem mergeTypeParams_cases (first : Member) (rest : List Member) :
    (SameGenerics (first :: rest) ∧ (mergeTypeParams first rest).log = [] ∧
        ∀ p, (mergeTypeParams first rest).value = some p ↔
          ∃ m ∈ first :: rest, m.typeParams = some p) ∨
      (¬ SameGenerics (first :: rest) ∧ (mergeTypeParams first rest).value = none ∧
        ∃ p q, (mergeTypeParams first rest).log = [.genericsMismatch first.key p q]) := by
  have hmem : ∀ p, p ∈ (first :: rest).filterMap (·.typeParams) ↔
      ∃ m ∈ first :: rest, m.typeParams = some p := fun p => List.mem_filterMap
  simp only [sameGenerics_iff, ← hmem, mergeTypeParams]
  rcases hdecl : (first :: rest).filterMap (·.typeParams) with _ | ⟨p, ps⟩ <;>
    simp only [hdecl]
  · exact .inl (by simp)
  · have hfind := find?_ne_eq_none_iff (f := id) (a := p) (l := ps)
    simp only [id_eq] at hfind
    rw [← hfind]
    rcases hother : ps.find? (· ≠ p) with _ | q
    · refine .inl ⟨rfl, rfl, fun q => ?_⟩
      have hall : ∀ x ∈ ps, x = p := by simpa using hother
      simp only [Logged.value_pure, Option.some.injEq, List.mem_cons]
      exact ⟨fun h => .inl h.symm, fun h => (h.elim id (hall q)).symm⟩
    · exact .inr ⟨by simp, rfl, p, q, rfl⟩

theorem SameGenerics.of_forall {ms ms' : List Member} (h : SameGenerics ms)
    (hdecls : ∀ p, (∃ m' ∈ ms', m'.typeParams = some p) → ∃ m ∈ ms, m.typeParams = some p) :
    SameGenerics ms' := by
  intro m' hm' n' hn' p hp q hq
  obtain ⟨m, hm, hmp⟩ := hdecls p ⟨m', hm', hp⟩
  obtain ⟨n, hn, hnq⟩ := hdecls q ⟨n', hn', hq⟩
  exact h m hm n hn p hmp q hnq

/-- Nothing is reported for generics declarations exactly if those that there are agree. -/
theorem log_mergeTypeParams_eq_nil_iff {first : Member} {rest : List Member} :
    (mergeTypeParams first rest).log = [] ↔ SameGenerics (first :: rest) := by
  rcases mergeTypeParams_cases first rest with ⟨hsame, hlog, -⟩ | ⟨hdiffer, -, _, _, hlog⟩
  · exact iff_of_true hlog hsame
  · exact iff_of_false (by simp [hlog]) hdiffer

/-- Where generics declarations agree, the one that is kept is that of one of the members. -/
theorem value_mergeTypeParams_eq_some_iff {first : Member} {rest : List Member}
    (h : SameGenerics (first :: rest)) {p : Text} :
    (mergeTypeParams first rest).value = some p ↔ ∃ m ∈ first :: rest, m.typeParams = some p := by
  rcases mergeTypeParams_cases first rest with ⟨-, -, hvalue⟩ | ⟨hdiffer, -⟩
  · exact hvalue p
  · exact absurd h hdiffer

theorem SameGenerics.subset {ms ms' : List Member} (h : SameGenerics ms) (hsub : ms' ⊆ ms) :
    SameGenerics ms' := h.of_forall fun _ ⟨m, hm, hp⟩ => ⟨m, hsub hm, hp⟩

/-- The generics declaration that is kept, and whether a mismatch is reported, depends on which
declarations there are. -/
theorem mergeTypeParams_congr {first first' : Member} {rest rest' : List Member}
    (h : ∀ p, (∃ m ∈ first :: rest, m.typeParams = some p) ↔
      ∃ m ∈ first' :: rest', m.typeParams = some p) :
    (mergeTypeParams first rest).value = (mergeTypeParams first' rest').value ∧
      ((mergeTypeParams first rest).log = [] ↔ (mergeTypeParams first' rest').log = []) := by
  rcases mergeTypeParams_cases first rest with
    ⟨hsame, hlog, hvalue⟩ | ⟨hdiffer, hvalue, _, _, hlog⟩ <;>
  rcases mergeTypeParams_cases first' rest' with
    ⟨hsame', hlog', hvalue'⟩ | ⟨hdiffer', hvalue', _, _, hlog'⟩
  · refine ⟨Option.ext fun p => ?_, by rw [hlog, hlog']⟩
    rw [hvalue, hvalue', h]
  · exact absurd (hsame.of_forall fun p => (h p).2) hdiffer'
  · exact absurd (hsame'.of_forall fun p => (h p).1) hdiffer
  · refine ⟨by rw [hvalue, hvalue'], ?_⟩
    rw [hlog, hlog']
    exact iff_of_false (List.cons_ne_nil _ _) (List.cons_ne_nil _ _)

/-- A generics declaration that is kept is that of one of the members. -/
theorem exists_of_mem_mergeTypeParams {first : Member} {rest : List Member} {p : Text}
    (h : p ∈ (mergeTypeParams first rest).value) : ∃ m ∈ first :: rest, m.typeParams = some p := by
  rcases mergeTypeParams_cases first rest with ⟨-, -, hvalue⟩ | ⟨-, hnone, -⟩
  · exact (hvalue p).1 h
  · rw [hnone] at h
    cases h

/-! ### Annotations -/

theorem mem_allAnnots_iff {ms : List Member} {e : Annot} :
    e ∈ allAnnots ms ↔ ∃ m ∈ ms, e ∈ m.annots := by
  rw [allAnnots, SortedSet.mem_ofList_iff, List.mem_flatMap]
  rfl

/-! ### Both cases -/

/-- Members that agree become one member. -/
theorem mergeGroup_of_compatible (hkind : ∀ m ∈ rest, m.kind = first.kind)
    (h : Compatible settings (first :: rest)) :
    (mergeGroup settings first rest).value = some (joined settings first rest) ∧
      (mergeGroup settings first rest).log = (mergeTypeParams first rest).log := by
  have hagree := (agree_eq_ok_iff hkind).2 ⟨h.typeName, h.constant, h.static, rfl⟩
  have hthrows := (agreeThrows_eq_ok_iff hkind).2 ⟨h.throws, rfl⟩
  simp only [mergeGroup, hagree, Logged.value_bind, Logged.log_bind, hthrows, Logged.value_pure,
    Logged.log_pure, List.append_nil, joined, and_self]

/-- Members that do not agree are left out. -/
theorem value_mergeGroup_of_not_compatible (hkind : ∀ m ∈ rest, m.kind = first.kind)
    (h : ¬ Compatible settings (first :: rest)) :
    (mergeGroup settings first rest).value = none := by
  unfold mergeGroup
  rcases hagree : agree settings first rest with c | mods
  · rfl
  · rcases hthrows : agreeThrows settings first rest with c | throws
    · rfl
    · obtain ⟨htype, hconstant, hstatic, -⟩ := (agree_eq_ok_iff hkind).1 hagree
      exact absurd ⟨htype, hconstant, hstatic, ((agreeThrows_eq_ok_iff hkind).1 hthrows).1⟩ h

/-- Members become one member exactly if they agree. -/
theorem value_mergeGroup_eq_some_iff (hkind : ∀ m ∈ rest, m.kind = first.kind) {r : Member} :
    (mergeGroup settings first rest).value = some r ↔
      Compatible settings (first :: rest) ∧ r = joined settings first rest := by
  by_cases h : Compatible settings (first :: rest)
  · simp [(mergeGroup_of_compatible hkind h).1, h, eq_comm]
  · simp [value_mergeGroup_of_not_compatible hkind h, h]

theorem kind_of_key_eq {m n : Member} (h : m.key = n.key) : m.kind = n.kind :=
  congrArg MemberKey.kind h

theorem key_joined (settings : MergeSettings) (first : Member) (rest : List Member) :
    (joined settings first rest).key = first.key := key_withModifiers first _

/-- Where the members are in order, so is what they become, and it has their merged modifiers. -/
theorem modifiers_joined (hkind : ∀ m ∈ rest, m.kind = first.kind)
    (hvalid : ∀ m ∈ first :: rest, m.Valid) :
    (joined settings first rest).modifiers =
        Modifiers.joined first.kind ((first :: rest).map (·.modifiers)) ∧
      (joined settings first rest).Valid := by
  have hset := setModifiers?_joined rfl (List.cons_ne_nil first rest)
    (List.forall_mem_cons.2 ⟨rfl, hkind⟩) hvalid
  obtain ⟨hmask, hclosed⟩ := valid_of_setModifiers? hset
  rw [joined, withModifiers_of_ok hset]
  exact ⟨rfl, hmask, hclosed⟩

/-! ### What members become -/

/-- What `r` has of the members of its key, if there are several. The log is that of the list in
which they are merged. -/
structure Joins (settings : MergeSettings) (ms : List Member) (log : List Conflict)
    (r : Member) : Prop where
  /-- It has the type of all of them. -/
  typeName : ∀ m ∈ ms, m.typeName = r.typeName
  /-- It has their merged modifiers, where theirs are in order. -/
  modifiers : (∀ m ∈ ms, m.Valid) →
    Modifiers.merge r.kind (ms.map (·.modifiers)) = some r.modifiers
  /-- It has the annotations of all. -/
  annots : ∀ a, a ∈ r.annots ↔ ∃ m ∈ ms, a ∈ m.annots
  /-- It has the generics declaration on which all that have one agree. -/
  generics : SameGenerics ms →
    (∀ p, r.typeParams = some p ↔ ∃ m ∈ ms, m.typeParams = some p) ∧
      ∀ p q, .genericsMismatch r.key p q ∉ log
  /-- It has no generics declaration where they do not agree, which is reported. -/
  mismatch : ¬ SameGenerics ms → r.typeParams = none ∧ ∃ p q, .genericsMismatch r.key p q ∈ log
  /-- A callable has the exceptions that all of them have. -/
  throws : r.kind.isCallable = true → settings.binaryCompatibility = false →
    ∀ m ∈ ms, m.throws = r.throws
  /-- A callable has no exceptions, if exceptions do not count. -/
  noThrows : r.kind.isCallable = true → settings.binaryCompatibility = true → r.throws = []
  /-- A field has the constant that all of them have, if constants are compared. -/
  constant : r.kind = .field → settings.trackConstantValues = true →
    ∀ m ∈ ms, m.constant = r.constant
  /-- All else it has of the first. -/
  rest : ∃ first ∈ ms.head?, r =
    { first with
      modifiers := r.modifiers, typeParams := r.typeParams, annots := r.annots
      throws := if r.kind.isCallable then r.throws else first.throws }

/-- What members that agree become has of them what a merged member is to have. -/
theorem joins_joined {first : Member} {rest : List Member} {log : List Conflict}
    (hkind : ∀ m ∈ rest, m.kind = first.kind) (h : Compatible settings (first :: rest))
    (hlog : ∀ p q, .genericsMismatch first.key p q ∈ log ↔
      .genericsMismatch first.key p q ∈ (mergeTypeParams first rest).log) :
    Joins settings (first :: rest) log (joined settings first rest) := by
  have hkey := key_joined settings first rest
  have hkindJoined := kind_of_key_eq hkey
  have htypeName : (joined settings first rest).typeName = first.typeName := by
    simp [joined, withModifiers_eq]
  have hconstant : (joined settings first rest).constant = first.constant := by
    simp [joined, withModifiers_eq]
  have hkinds : ∀ m ∈ first :: rest, m.kind = first.kind := List.forall_mem_cons.2 ⟨rfl, hkind⟩
  have hcases := mergeTypeParams_cases first rest
  constructor
  case typeName => exact fun m hm => (h.typeName m hm first List.mem_cons_self).trans htypeName.symm
  case modifiers =>
    intro hvalid
    rw [hkindJoined, (modifiers_joined hkind hvalid).1]
    exact Modifiers.merge_eq_some_iff.2 ⟨by simp, h.static, rfl⟩
  case annots => exact fun _ => mem_allAnnots_iff
  case generics =>
    intro hsame
    rcases hcases with ⟨-, hnil, hvalue⟩ | ⟨hnot, -⟩
    · refine ⟨hvalue, fun p q hmem => ?_⟩
      rw [hkey, hlog, hnil] at hmem
      cases hmem
    · exact absurd hsame hnot
  case mismatch =>
    intro hdiffer
    rcases hcases with ⟨hsame, -⟩ | ⟨-, hvalue, p, q, hreport⟩
    · exact absurd hsame hdiffer
    · refine ⟨hvalue, p, q, ?_⟩
      rw [hkey, hlog, hreport]
      exact List.mem_singleton_self _
  case throws =>
    intro hcallable hthrows m hm
    have hnot : ¬ (first.kind.isCallable = true ∧ settings.binaryCompatibility = true) := by
      simp [hthrows]
    rw [hkindJoined] at hcallable
    rw [joined, if_neg hnot]
    exact h.throws hthrows m hm first List.mem_cons_self ((hkinds m hm).symm ▸ hcallable) hcallable
  case noThrows =>
    intro hcallable hthrows
    rw [hkindJoined] at hcallable
    rw [joined, if_pos ⟨hcallable, hthrows⟩]
  case constant =>
    intro hfield htracked m hm
    rw [hkindJoined] at hfield
    rw [hconstant]
    exact h.constant htracked m hm first List.mem_cons_self ((hkinds m hm).trans hfield) hfield
  case rest =>
    refine ⟨first, rfl, ?_⟩
    rw [hkindJoined]
    by_cases hcallable : first.kind.isCallable = true
    · rw [if_pos hcallable]
      simp [joined, withModifiers_eq]
    · rw [if_neg hcallable]
      simp [joined, withModifiers_eq, hcallable]

/-! ### All keys of a list -/

variable {ms : List Member}

theorem key_of_filter_eq_cons {k : MemberKey} (h : ms.filter (·.key = k) = first :: rest) :
    ∀ m ∈ rest, m.key = first.key := by
  have hmem := of_filter_key_eq h
  exact fun m hm =>
    (hmem m (List.mem_cons_of_mem _ hm)).2.trans (hmem first List.mem_cons_self).2.symm

theorem kind_of_filter_eq_cons {k : MemberKey} (h : ms.filter (·.key = k) = first :: rest) :
    ∀ m ∈ rest, m.kind = first.kind := fun m hm => kind_of_key_eq (key_of_filter_eq_cons h m hm)

/-- A merged member is what all members of its key become. -/
theorem mem_mergeAll_iff {r : Member} :
    r ∈ (mergeAll settings ms).value ↔
      ∃ first rest, ms.filter (·.key = r.key) = first :: rest ∧
        (mergeOrKeep settings (first, rest)).value = some r := by
  rw [value_mergeAll, List.mem_filterMap]
  constructor
  · rintro ⟨⟨first, rest⟩, hg, hr⟩
    rcases mergeOrKeep_cases settings (first, rest) with ⟨hnone, -⟩ | ⟨m, hsome, hkey, -⟩
    · rw [hnone] at hr
      cases hr
    · rw [hsome, Option.some.injEq] at hr
      subst hr
      exact ⟨first, rest, hkey ▸ mem_groupsBy_iff.1 hg, hsome⟩
  · rintro ⟨first, rest, hf, hr⟩
    rcases mergeOrKeep_cases settings (first, rest) with ⟨hnone, -⟩ | ⟨m, hsome, hkey, -⟩
    · rw [hnone] at hr
      cases hr
    · rw [hsome, Option.some.injEq] at hr
      subst hr
      exact ⟨(first, rest), mem_groupsBy_iff.2 (hkey ▸ hf), hsome⟩

/-- What is reported is reported by the members of one key. -/
theorem mem_log_mergeAll_iff {c : Conflict} :
    c ∈ (mergeAll settings ms).log ↔
      ∃ first rest, ms.filter (·.key = first.key) = first :: rest ∧
        c ∈ (mergeOrKeep settings (first, rest)).log := by
  rw [log_mergeAll, List.mem_flatMap]
  constructor
  · rintro ⟨⟨first, rest⟩, hg, hc⟩
    exact ⟨first, rest, mem_groupsBy_iff.1 hg, hc⟩
  · rintro ⟨first, rest, hf, hc⟩
    exact ⟨(first, rest), mem_groupsBy_iff.2 hf, hc⟩

/-- Dropped keys are reported once each, in the order in which they come up first. -/
theorem droppedKeys_mergeAll_sublist (settings : MergeSettings) (ms : List Member) :
    (droppedKeys (mergeAll settings ms).log).Sublist ((distinctBy key ms).map key) := by
  rw [log_mergeAll, ← map_fst_groupsBy, List.map_map]
  induction groupsBy key ms with
  | nil => exact .slnil
  | cons g gs ih =>
    rw [List.flatMap_cons, droppedKeys_append, List.map_cons]
    rcases mergeOrKeep_cases settings g with ⟨-, hdrop⟩ | ⟨m, -, -, hdrop⟩
    · rw [hdrop]
      exact ih.cons_cons _
    · rw [hdrop]
      exact ih.cons _

theorem compatible_of_subsingleton (h : ∀ m ∈ ms, ∀ n ∈ ms, m = n) : Compatible settings ms where
  typeName m hm n hn := by rw [h m hm n hn]
  constant _ m hm n hn _ _ := by rw [h m hm n hn]
  static s hs t ht := by
    obtain ⟨m, hm, rfl⟩ := List.mem_map.1 hs
    obtain ⟨n, hn, rfl⟩ := List.mem_map.1 ht
    rw [h m hm n hn]
  throws _ m hm n hn _ _ := by rw [h m hm n hn]

/-- The members of a key clash exactly if they do not agree. -/
theorem clash_iff {k : MemberKey} :
    Clash settings ms k ↔ ¬ Compatible settings (ms.filter (·.key = k)) := by
  constructor
  · rintro ⟨first, rest, hf, -, hnone⟩ hcompatible
    rw [hf] at hcompatible
    rw [(mergeGroup_of_compatible (kind_of_filter_eq_cons hf) hcompatible).1] at hnone
    cases hnone
  · intro h
    rcases hf : ms.filter (·.key = k) with _ | ⟨first, _ | ⟨second, rest⟩⟩
    · exact absurd (compatible_of_subsingleton (by simp [hf])) h
    · exact absurd (compatible_of_subsingleton (by simp [hf])) h
    · rw [hf] at h
      exact ⟨first, second :: rest, hf, List.cons_ne_nil _ _,
        value_mergeGroup_of_not_compatible (kind_of_filter_eq_cons hf) h⟩

theorem sameGenerics_of_subsingleton (h : ∀ m ∈ ms, ∀ n ∈ ms, m = n) : SameGenerics ms := by
  intro m hm n hn p hp q hq
  rw [h m hm n hn] at hp
  exact Option.some.inj (hp.symm.trans hq)

/-- The members of one key report nothing exactly if they agree, also on their generics
declarations. -/
theorem log_mergeOrKeep_eq_nil_iff (hkind : ∀ m ∈ rest, m.kind = first.kind) :
    (mergeOrKeep settings (first, rest)).log = [] ↔
      Compatible settings (first :: rest) ∧ SameGenerics (first :: rest) := by
  rcases rest with _ | ⟨second, rest⟩
  · have hone : ∀ m ∈ [first], ∀ n ∈ [first], m = n := by simp
    exact iff_of_true rfl ⟨compatible_of_subsingleton hone, sameGenerics_of_subsingleton hone⟩
  · show (mergeGroup settings first (second :: rest)).log = [] ↔ _
    by_cases h : Compatible settings (first :: second :: rest)
    · rw [(mergeGroup_of_compatible hkind h).2, and_iff_right h, log_mergeTypeParams_eq_nil_iff]
    · refine iff_of_false (fun hnil => ?_) (fun hall => h hall.1)
      have hnone := value_mergeGroup_of_not_compatible hkind h
      rcases mergeGroup_cases settings first (second :: rest) with ⟨-, hdropped⟩ | ⟨m, hsome, -⟩
      · simp [hnil] at hdropped
      · rw [hnone] at hsome
        cases hsome

/-- Nothing is reported exactly if the members of every key agree. -/
theorem log_mergeAll_eq_nil_iff : (mergeAll settings ms).log = [] ↔
    ∀ k, Compatible settings (ms.filter (·.key = k)) ∧ SameGenerics (ms.filter (·.key = k)) := by
  rw [List.eq_nil_iff_forall_not_mem]
  constructor
  · intro h k
    rcases hf : ms.filter (·.key = k) with _ | ⟨first, rest⟩ <;> rw [hf]
    · exact ⟨compatible_of_subsingleton (by simp), sameGenerics_of_subsingleton (by simp)⟩
    · have hfirst : first.key = k := (of_filter_key_eq hf first List.mem_cons_self).2
      refine (log_mergeOrKeep_eq_nil_iff (kind_of_filter_eq_cons hf)).1 ?_
      rw [List.eq_nil_iff_forall_not_mem]
      exact fun c hc => h c (mem_log_mergeAll_iff.2 ⟨first, rest, hfirst ▸ hf, hc⟩)
  · intro h c hc
    obtain ⟨first, rest, hf, hc⟩ := mem_log_mergeAll_iff.1 hc
    have hall := h first.key
    rw [hf] at hall
    rw [(log_mergeOrKeep_eq_nil_iff (kind_of_filter_eq_cons hf)).2 hall] at hc
    cases hc

/-! ### Without conflicts -/

/-- What becomes of the members of one key that agree. -/
def keptOf (settings : MergeSettings) : Member × List Member → Member
  | (only, []) => only
  | (first, second :: rest) => joined settings first (second :: rest)

theorem key_keptOf (settings : MergeSettings) (g : Member × List Member) :
    (keptOf settings g).key = g.1.key := by
  rcases g with ⟨first, _ | ⟨second, rest⟩⟩
  · rfl
  · exact key_joined settings first (second :: rest)

/-- Where members do not conflict, some of them do not. -/
theorem log_mergeAll_of_subset {ms' : List Member} (h : (mergeAll settings ms).log = [])
    (hsub : ms' ⊆ ms) : (mergeAll settings ms').log = [] := by
  refine log_mergeAll_eq_nil_iff.2 fun k => ?_
  obtain ⟨hcompatible, hsame⟩ := log_mergeAll_eq_nil_iff.1 h k
  have hsubKey : ms'.filter (·.key = k) ⊆ ms.filter (·.key = k) := List.filter_subset _ hsub
  exact ⟨hcompatible.subset hsubKey, hsame.subset hsubKey⟩

/-- Where there are no conflicts, every key keeps its member. -/
theorem value_mergeAll_of_log_eq_nil (h : (mergeAll settings ms).log = []) :
    (mergeAll settings ms).value = (groupsBy key ms).map (keptOf settings) := by
  have hall := log_mergeAll_eq_nil_iff.1 h
  have hsome : ∀ g ∈ groupsBy key ms,
      (mergeOrKeep settings g).value = some (keptOf settings g) := by
    rintro ⟨first, rest⟩ hg
    have hf := mem_groupsBy_iff.1 hg
    rcases rest with _ | ⟨second, rest⟩
    · rfl
    · have hcompatible := (hall first.key).1
      rw [hf] at hcompatible
      exact (mergeGroup_of_compatible (kind_of_filter_eq_cons hf) hcompatible).1
  rw [value_mergeAll, List.filterMap_congr hsome]
  exact congrFun List.filterMap_eq_map _

end Member

end ApiSurface
