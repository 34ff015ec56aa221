import Mathlib.Tactic.Choose
import Mathlib.Tactic.SplitIfs
import ApiSurface.Proofs.Merge.Definitions
import ApiSurface.Proofs.Merge.Groups

/-!
# Copies

What the parts of a merge do to copies of one thing: modifiers with at most one visibility are
left alone (`Modifiers.merge_copies`), a member becomes a member of its key, and itself if nothing
of it has to be adjusted (`Member.mergeOrKeep_copies`), and a list of members without repeated keys
is merged element by element (`Member.mergeAll_copies`). Definitions that are the same but for their
generics declarations have the same body again (`mergeBody_eq_pure`).
-/

namespace ApiSurface

/-! ### Modifiers -/

namespace Modifiers

/-- At most one of the flags that decide visibility is set. -/
def OneVisibility (x : Modifiers) : Prop :=
  ¬ (x.has .pub ∧ x.has .prot) ∧ ¬ (x.has .pub ∧ x.has .priv) ∧ ¬ (x.has .prot ∧ x.has .priv)

instance (x : Modifiers) : Decidable x.OneVisibility := inferInstanceAs (Decidable (_ ∧ _))

@[simp] theorem union_self (x : Modifiers) : x.union x = x := by
  cases x
  simp [union]

@[simp] theorem none_union (x : Modifiers) : none.union x = x := by
  cases x
  simp [union, none]

theorem diff_union_inter (x y : Modifiers) : (x.diff y).union (x.inter y) = x := by
  ext i hi
  simp only [union, diff, inter, BitVec.getLsbD_or, BitVec.getLsbD_and, BitVec.getLsbD_not, hi,
    decide_true, Bool.true_and]
  cases x.bits.getLsbD i <;> simp

theorem unionAll_copies (x : Modifiers) (n : Nat) : unionAll (x :: List.replicate n x) = x := by
  rw [unionAll, List.foldl_cons, none_union]
  induction n with
  | zero => rfl
  | succ n ih => rw [List.replicate_succ, List.foldl_cons, union_self, ih]

theorem anyHas_copies (x : Modifiers) (n : Nat) (m : Modifier) :
    anyHas (x :: List.replicate n x) m = x.has m := by
  simp [anyHas]

theorem allHave_copies (x : Modifiers) (n : Nat) (m : Modifier) :
    allHave (x :: List.replicate n x) m = x.has m := by
  rw [Bool.eq_iff_iff]
  simp only [allHave, List.all_eq_true, List.mem_cons, List.mem_replicate]
  constructor
  · exact fun h => h x (.inl rfl)
  · rintro h y (rfl | ⟨-, rfl⟩) <;> exact h

theorem eraseUnless_eq_self {x : Modifiers} {keep : Bool} {m : Modifier}
    (h : x.has m = true → keep = true) : x.eraseUnless keep m = x := by
  unfold eraseUnless
  split
  next => rfl
  next hkeep =>
    have hm : x.bits.getLsbD m.bitIndex = false := by
      simpa [has] using fun hx => hkeep (h hx)
    ext i hi
    simp only [erase, BitVec.getLsbD_and, BitVec.getLsbD_not, hi, decide_true, Bool.true_and,
      BitVec.getLsbD_twoPow]
    by_cases hmi : m.bitIndex = i
    · subst hmi
      simp [hm]
    · simp [hmi]

/-- The widest visibility of copies of a set with at most one is the visibility of the set. -/
theorem widestVisibility_copies {x : Modifiers} (h : x.OneVisibility) (n : Nat) :
    widestVisibility (x :: List.replicate n x) = x.inter visibility := by
  have hvis : ∀ i < 32, visibility.bits.getLsbD i = decide (i = 0 ∨ i = 1 ∨ i = 2) := by decide
  have hflag : ∀ (m : Modifier), ∀ i < 32,
      (none.insert m).bits.getLsbD i = decide (m.bitIndex = i) := by
    intro m i hi
    simp [none, insert, hi, eq_comm]
  simp only [OneVisibility, has, Modifier.bitIndex] at h
  ext i hi
  simp only [widestVisibility, anyHas_copies, allHave_copies, has, inter, BitVec.getLsbD_and,
    hvis i hi]
  have hcases : i = 0 ∨ i = 1 ∨ i = 2 ∨ ¬ (i = 0 ∨ i = 1 ∨ i = 2) := by omega
  rcases hcases with rfl | rfl | rfl | hother
  · split_ifs <;> simp_all [Modifier.bitIndex, none]
  · split_ifs <;> simp_all [Modifier.bitIndex, none]
  · split_ifs <;> simp_all [Modifier.bitIndex, none]
  · have hne : ∀ m ∈ [Modifier.pub, .prot, .priv], m.bitIndex ≠ i := by
      simp only [List.mem_cons, List.not_mem_nil, or_false, forall_eq_or_imp, forall_eq,
        Modifier.bitIndex]
      omega
    rw [decide_eq_false hother, Bool.and_false]
    split_ifs
    · rw [hflag _ i hi, decide_eq_false (hne .pub (by decide))]
    · rw [hflag _ i hi, decide_eq_false (hne .prot (by decide))]
    · rw [hflag _ i hi, decide_eq_false (hne .priv (by decide))]
    · simp [none]

/-- Copies of a set are always merged; a set with at most one visibility is what they are merged
to. -/
theorem merge_copies (kind : Kind) (x : Modifiers) (n : Nat) :
    ∃ mods, merge kind (x :: List.replicate n x) = some mods ∧ (x.OneVisibility → mods = x) := by
  have hstatic : (List.replicate n x).any (fun s => s.has .static ≠ x.has .static) = false := by
    simp
  refine ⟨_, by rw [merge, if_neg (by rw [hstatic]; simp)], fun h => ?_⟩
  rw [unionAll_copies, widestVisibility_copies h, diff_union_inter, allHave_copies,
    allHave_copies, eraseUnless_eq_self id, eraseUnless_eq_self]
  intro hx
  simp [hx]

end Modifiers

namespace Member

/-! ### Single members -/

theorem withModifiers_self {m : Member} (h : m.Valid) : m.withModifiers m.modifiers = m := by
  rw [withModifiers_eq, if_pos h.1, closeModifiers_of_valid h]

@[simp] theorem mergeTypeParams_copies (m : Member) (n : Nat) :
    mergeTypeParams m (List.replicate n m) = pure m.typeParams := by
  unfold mergeTypeParams
  rcases h : m.typeParams with _ | p
  · have hnone : (m :: List.replicate n m).filterMap (·.typeParams) = [] :=
      List.filterMap_eq_nil_iff.2 fun x hx => by
        rw [List.mem_cons, List.mem_replicate] at hx
        rcases hx with rfl | ⟨-, rfl⟩ <;> exact h
    rw [hnone]
  · rw [List.filterMap_cons_some h, List.filterMap_replicate_of_some h]
    simp only
    rw [List.find?_eq_none.2 fun x hx => by simp [List.eq_of_mem_replicate hx]]

@[simp] theorem allAnnots_copies (m : Member) (n : Nat) :
    allAnnots (m :: List.replicate n m) = m.annots := by
  refine SortedSet.ext ?_
  intro a
  rw [mem_allAnnots_iff]
  constructor
  · rintro ⟨x, hx, ha⟩
    rw [List.mem_cons, List.mem_replicate] at hx
    rcases hx with rfl | ⟨-, rfl⟩ <;> exact ha
  · exact fun ha => ⟨m, List.mem_cons_self, ha⟩

theorem find?_replicate_self {p : Member → Bool} {m : Member} (h : p m = false) (n : Nat) :
    (List.replicate n m).find? p = none :=
  List.find?_eq_none.2 fun x hx => by rw [List.eq_of_mem_replicate hx, h]; simp

/-- Copies of a member agree on everything, up to an adjustment of modifiers and exceptions that a
valid member with at most one visibility does not need in a merge with regard to exceptions. -/
theorem mergeGroup_copies (settings : MergeSettings) (m : Member) (n : Nat) :
    ∃ m', mergeGroup settings m (List.replicate n m) = pure (some m') ∧ m'.key = m.key ∧
      (settings.binaryCompatibility = false → m.Valid → m.modifiers.OneVisibility → m' = m) := by
  obtain ⟨mods, hmods, hself⟩ := Modifiers.merge_copies m.kind m.modifiers n
  have hagree : agree settings m (List.replicate n m) = .ok mods := by
    unfold agree
    rw [find?_replicate_self (by simp), List.map_cons, List.map_replicate, hmods]
    simp only
    split
    next h =>
      split at h
      next => simp at h
      next => cases h
    next => rfl
  have hthrows : ∃ throws, agreeThrows settings m (List.replicate n m) = .ok throws ∧
      (settings.binaryCompatibility = false → throws = m.throws) := by
    unfold agreeThrows
    rw [find?_replicate_self (by simp)]
    split_ifs with hcallable hbinary
    · exact ⟨[], rfl, fun h => by rw [h] at hbinary; cases hbinary⟩
    · exact ⟨_, rfl, fun _ => rfl⟩
    · exact ⟨_, rfl, fun _ => rfl⟩
  obtain ⟨throws, hthrows, hkept⟩ := hthrows
  refine ⟨{ m.withModifiers mods with typeParams := m.typeParams, throws, annots := m.annots },
    ?_, ?_, ?_⟩
  · unfold mergeGroup
    simp only [hagree, mergeTypeParams_copies, hthrows, allAnnots_copies]
    rfl
  · exact key_withModifiers m mods
  · intro hbinary hvalid hone
    rw [hkept hbinary, hself hone, withModifiers_self hvalid]

theorem mergeOrKeep_copies (settings : MergeSettings) (m : Member) (n : Nat) :
    ∃ m', mergeOrKeep settings (m, List.replicate n m) = pure (some m') ∧ m'.key = m.key ∧
      (settings.binaryCompatibility = false → m.Valid → m.modifiers.OneVisibility → m' = m) := by
  cases n with
  | zero => exact ⟨m, rfl, rfl, fun _ _ _ => rfl⟩
  | succ n => exact mergeGroup_copies settings m (n + 1)

/-! ### Lists of members -/

/-- Copies of a list without repeated keys are merged without conflicts to members of the same
keys, and to the list itself if its members need no adjustment. -/
theorem mergeAll_copies (settings : MergeSettings) {l : List Member} (h : (l.map key).Nodup)
    (n : Nat) :
    ∃ l', mergeAll settings (List.replicate (n + 1) l).flatten = ⟨l', []⟩ ∧
      l'.map key = l.map key ∧
      (settings.binaryCompatibility = false →
        (∀ m ∈ l, m.Valid ∧ m.modifiers.OneVisibility) → l' = l) := by
  choose f hmerged hkey hself using fun m => mergeOrKeep_copies settings m n
  have hvalue : (mergeAll settings (List.replicate (n + 1) l).flatten).value = l.map f := by
    rw [value_mergeAll, groupsBy_copies h, List.filterMap_map]
    simp only [Function.comp_def, hmerged, Logged.value_pure, List.filterMap_eq_map']
  have hlog : (mergeAll settings (List.replicate (n + 1) l).flatten).log = [] := by
    rw [log_mergeAll, groupsBy_copies h, List.flatMap_map]
    simp only [hmerged, Logged.log_pure, List.flatMap_eq_nil_iff, implies_true]
  refine ⟨l.map f, ?_, ?_, ?_⟩
  · rw [← hvalue, ← hlog]
  · rw [List.map_map]
    exact List.map_congr_left fun m _ => hkey m
  · intro hbinary hl
    conv => rhs; rw [← List.map_id l]
    exact List.map_congr_left fun m hm => hself m hbinary (hl m hm).1 (hl m hm).2

theorem mergeAll_copies_self {l : List Member} (hkeys : (l.map key).Nodup)
    (h : ∀ m ∈ l, m.Valid ∧ m.modifiers.OneVisibility) (n : Nat) :
    mergeAll {} (List.replicate (n + 1) l).flatten = pure l := by
  obtain ⟨l', hl', -, hself⟩ := mergeAll_copies {} hkeys n
  rw [hl', hself rfl h]
  rfl

/-- Of copies of a list without repeated keys one copy is left. -/
theorem unionByKey_copies {l : List Member} (h : (l.map key).Nodup) (n : Nat) :
    unionByKey (List.replicate (n + 1) l).flatten = l := distinctBy_copies h n

end Member

namespace ClassDef

/-! ### Classes -/

/-- Definitions that have a list in common have it as often as there are definitions. -/
theorem flatMap_eq_copies {α : Type _} {f : ClassDef → List α} {l : List α} {first : ClassDef}
    {rest : List ClassDef} (h : ∀ d ∈ first :: rest, f d = l) :
    (first :: rest).flatMap f = (List.replicate (rest.length + 1) l).flatten := by
  rw [List.flatMap, List.map_eq_replicate_iff.2 h, List.length_cons]

theorem flatMap_copies {α : Type _} (f : ClassDef → List α) (c : ClassDef) (n : Nat) :
    (c :: List.replicate n c).flatMap f = (List.replicate (n + 1) (f c)).flatten := by
  rw [← List.replicate_succ, List.flatMap, List.map_replicate]

/-- Copies of one class are all raw or all generic. -/
theorem planOf_copies (c : ClassDef) (n : Nat) :
    planOf (c :: List.replicate n c) = .together := by
  refine planOf_eq_together ?_
  rw [← List.replicate_succ]
  by_cases hc : c.isGeneralized = true
  · exact .inl fun d hd => by rw [List.eq_of_mem_replicate hd, hc]
  · exact .inr fun d hd => by rw [List.eq_of_mem_replicate hd]; simpa using hc

/-- Definitions with the modifiers and the superclass of one class agree on them. -/
theorem agree_eq_ok (participants : List Snapshot) {c first : ClassDef} {rest : List ClassDef}
    (hmodifiers : ∀ d ∈ first :: rest, d.header.modifiers = c.header.modifiers)
    (hsuperclass : ∀ d ∈ first :: rest, d.superclass = c.superclass) :
    ∃ mods, agree participants first rest = .ok (mods, c.superclass) ∧
      (c.header.modifiers.OneVisibility → mods = c.header.modifiers) := by
  obtain ⟨mods, hmods, hself⟩ := Modifiers.merge_copies .header c.header.modifiers rest.length
  refine ⟨mods, ?_, hself⟩
  have htrait : ([ClassTrait.interface, .abstract].find? fun shared =>
      rest.any fun d => d.header.has shared.modifier ≠ first.header.has shared.modifier) =
      none := by
    have hhas : ∀ d ∈ first :: rest, ∀ m, d.header.has m = c.header.has m := fun d hd m => by
      rw [Member.has, hmodifiers d hd, Member.has]
    simp only [List.find?_eq_none, Bool.not_eq_true, List.any_eq_false, decide_eq_true_eq, not_not]
    intro shared _ d hd
    rw [hhas d (List.mem_cons_of_mem _ hd), hhas first List.mem_cons_self]
  have hlist : (first :: rest).map (·.header.modifiers) =
      c.header.modifiers :: List.replicate rest.length c.header.modifiers :=
    List.map_eq_replicate_iff.2 hmodifiers
  have hsuperclasses : superclasses (first :: rest) = c.superclass.toList := by
    have hcopies : ∀ d ∈ first :: rest, d.superclass.toList = c.superclass.toList :=
      fun d hd => congrArg Option.toList (hsuperclass d hd)
    rw [superclasses, List.filterMap_eq_flatMap_toList, flatMap_eq_copies hcopies,
      distinctBy_copies]
    cases c.superclass <;> simp
  have hresolve : resolveSuperclass participants first.name (first :: rest) =
      .ok c.superclass := by
    rw [resolveSuperclass, hsuperclasses]
    cases c.superclass <;> rfl
  unfold agree
  rw [htrait, hlist, hmods, hresolve]
  rfl

/-- Copies of one class agree on what concerns the class itself. -/
theorem agree_copies (participants : List Snapshot) (c : ClassDef) (n : Nat) :
    ∃ mods, agree participants c (List.replicate n c) = .ok (mods, c.superclass) ∧
      (c.header.modifiers.OneVisibility → mods = c.header.modifiers) := by
  have hcopy : ∀ d ∈ c :: List.replicate n c, d = c :=
    List.forall_mem_cons.2 ⟨rfl, fun _ => List.eq_of_mem_replicate⟩
  exact agree_eq_ok participants (fun d hd => by rw [hcopy d hd]) (fun d hd => by rw [hcopy d hd])

/-- What a class has to satisfy for the merged body of its copies to be the class. -/
structure BodyMergeable (c : ClassDef) : Prop where
  /-- The modifiers of the members are in order. -/
  valid : ∀ m ∈ c.ownMembers, m.Valid
  /-- The members have at most one visibility each. -/
  visibility : ∀ m ∈ c.ownMembers, m.modifiers.OneVisibility
  /-- No list of members has a key twice. -/
  keys : ∀ l ∈ [c.constructors, c.methods, c.fields, c.nested, c.permitted, c.inherited],
    (l.map Member.key).Nodup

/-- Definitions of which some have the generics declaration of one class and the others none have
the declaration of the class together. -/
theorem mergeTypeParams_headers {c first : ClassDef} {rest : List ClassDef}
    (h : ∀ d ∈ first :: rest, d = c ∨ d = c.dropTypeParams) (hc : c ∈ first :: rest) :
    Member.mergeTypeParams first.header (rest.map (·.header)) = pure c.typeParams := by
  have hdeclared : ∀ m ∈ first.header :: rest.map (·.header), ∀ p, m.typeParams = some p →
      c.typeParams = some p := by
    intro m hm p hp
    obtain ⟨d, hd, rfl⟩ := List.mem_map.1 (List.map_cons ▸ hm)
    rcases h d hd with rfl | rfl
    · exact hp
    · cases hp
  have hsame : Member.SameGenerics (first.header :: rest.map (·.header)) := by
    intro m hm n hn p hp q hq
    exact Option.some.inj ((hdeclared m hm p hp).symm.trans (hdeclared n hn q hq))
  refine Logged.eq_pure (Option.ext fun p => ?_) (Member.log_mergeTypeParams_eq_nil_iff.2 hsame)
  rw [Member.value_mergeTypeParams_eq_some_iff hsame]
  constructor
  · rintro ⟨m, hm, hp⟩
    exact hdeclared m hm p hp
  · exact fun hp => ⟨c.header, List.map_cons ▸ List.mem_map_of_mem hc, hp⟩

theorem foldl_inter_eq {f : ClassDef → SortedSet Text} {s : SortedSet Text} {rest : List ClassDef}
    (h : ∀ d ∈ rest, f d = s) : rest.foldl (fun t d => t.inter (f d)) s = s := by
  induction rest with
  | nil => rfl
  | cons d rest ih =>
    have hinter : s.inter s = s := SortedSet.ext fun a => by
      rw [SortedSet.mem_inter_iff, and_self]
    rw [List.foldl_cons, h d List.mem_cons_self, hinter]
    exact ih fun e he => h e (List.mem_cons_of_mem _ he)

/-- The merged body of copies of a class is the class, also where some of them are without its
generics declaration. -/
theorem mergeBody_eq_pure {c first : ClassDef} {rest : List ClassDef} (hself : c.BodyMergeable)
    (h : ∀ d ∈ first :: rest, d = c ∨ d = c.dropTypeParams) (hc : c ∈ first :: rest) :
    mergeBody {} first rest = pure c := by
  have hshared : ∀ {β : Type} (f : ClassDef → β), f c.dropTypeParams = f c →
      ∀ d ∈ first :: rest, f d = f c := by
    intro β f hf d hd
    rcases h d hd with rfl | rfl
    · rfl
    · exact hf
  have hmembers : ∀ f : ClassDef → List Member, f c.dropTypeParams = f c →
      (∀ m ∈ f c, m ∈ c.ownMembers) → ((f c).map Member.key).Nodup →
      Member.mergeAll {} ((first :: rest).flatMap f) = pure (f c) := by
    intro f hf hown hkeys
    rw [flatMap_eq_copies (hshared f hf)]
    exact Member.mergeAll_copies_self hkeys
      (fun m hm => ⟨hself.valid m (hown m hm), hself.visibility m (hown m hm)⟩) _
  have hunion : ∀ f : ClassDef → List Member, f c.dropTypeParams = f c →
      ((f c).map Member.key).Nodup → Member.unionByKey ((first :: rest).flatMap f) = f c := by
    intro f hf hkeys
    rw [flatMap_eq_copies (hshared f hf), Member.unionByKey_copies hkeys]
  have hhidden : ∀ f : ClassDef → SortedSet Text, f c.dropTypeParams = f c →
      rest.foldl (fun s d => s.inter (f d)) (f first) = f c := by
    intro f hf
    rw [hshared f hf first List.mem_cons_self]
    exact foldl_inter_eq fun d hd => hshared f hf d (List.mem_cons_of_mem _ hd)
  have hannots : Member.allAnnots ((first :: rest).map (·.header)) = c.header.annots := by
    have hcopies : (first :: rest).flatMap (·.header.annots.toList) =
        (List.replicate (rest.length + 1) c.header.annots.toList).flatten :=
      flatMap_eq_copies (hshared (·.header.annots.toList) rfl)
    rw [← Member.allAnnots_copies c.header rest.length, Member.allAnnots, Member.allAnnots,
      List.flatMap_map, hcopies, ← List.replicate_succ, List.flatMap, List.map_replicate]
  unfold mergeBody
  simp only [mergeTypeParams_headers h hc, hannots,
    hmembers (·.constructors) rfl (fun m hm => by simp [ownMembers, hm]) (hself.keys _ (by simp)),
    hmembers (·.methods) rfl (fun m hm => by simp [ownMembers, hm]) (hself.keys _ (by simp)),
    hmembers (·.fields) rfl (fun m hm => by simp [ownMembers, hm]) (hself.keys _ (by simp)),
    hunion (·.nested) rfl (hself.keys _ (by simp)),
    hunion (·.permitted) rfl (hself.keys _ (by simp)),
    hunion (·.inherited) rfl (hself.keys _ (by simp)),
    hhidden (·.hiddenFields) rfl, hhidden (·.hiddenClasses) rfl]
  rcases h first List.mem_cons_self with rfl | rfl <;> rfl

/-- The merged body of copies of a class without repeated keys has the same keys, and nothing is
reported. -/
theorem mergeBody_copies (settings : MergeSettings) {c : ClassDef}
    (h : ∀ s ∈ Kind.own, ((c.declared s).map Member.key).Nodup) (n : Nat) :
    (mergeBody settings c (List.replicate n c)).log = [] ∧
      ∀ s ∈ Kind.own,
        ((mergeBody settings c (List.replicate n c)).value.declared s).map Member.key =
          (c.declared s).map Member.key := by
  have hmerged : ∀ s ∈ Kind.own,
      (Member.mergeAll settings (membersOf (c :: List.replicate n c) s)).log = [] ∧
      (Member.mergeAll settings (membersOf (c :: List.replicate n c) s)).value.map Member.key =
        (c.declared s).map Member.key := by
    intro s hs
    obtain ⟨l, hl, hkeys, -⟩ := Member.mergeAll_copies settings (h s hs) n
    rw [membersOf, flatMap_copies, hl]
    exact ⟨rfl, hkeys⟩
  constructor
  · rw [log_mergeBody, (hmerged _ (by decide)).1, (hmerged _ (by decide)).1,
      (hmerged _ (by decide)).1, List.map_replicate, Member.mergeTypeParams_copies]
    rfl
  · intro s hs
    rw [declared_mergeBody hs, (hmerged s hs).2]

theorem keys_dropUntracked (settings : MergeSettings) (c : ClassDef) {s : Kind}
    (hs : s ∈ Kind.own) :
    ((c.dropUntracked settings).declared s).map Member.key = (c.declared s).map Member.key := by
  unfold dropUntracked
  split
  next => rfl
  next =>
    rcases Kind.mem_own_iff.1 hs with rfl | rfl | rfl
    · rfl
    · rfl
    · simp only [declared, List.map_map]
      refine List.map_congr_left ?_
      intro m _
      simp only [Function.comp_apply]
      split <;> rfl

/-- What copies of a class become: the merged body of the prepared class, with its own superclass
and the interfaces that it lists itself. -/
theorem mergeDefinitions_copies (settings : Settings) (participants : List Snapshot) (c : ClassDef)
    (n : Nat) :
    ∃ mods, (c.header.modifiers.OneVisibility → mods = c.header.modifiers) ∧
      ∃ body merged, body = mergeBody settings.merge (c.dropUntracked settings.merge)
          (List.replicate n (c.dropUntracked settings.merge)) ∧
        merged = { body.value with
          header := body.value.header.withModifiers mods
          superclass := c.superclass
          interfaces := unionDirectInterfaces (c :: List.replicate n c) } ∧
        (mergeDefinitions settings participants c (List.replicate n c)).value = some merged ∧
        Finding.conflicts (mergeDefinitions settings participants c (List.replicate n c)).log =
          body.log ++
            Finding.conflicts (reportCollisions settings.unboundPolicy merged).log := by
  obtain ⟨mods, hagree, hself⟩ := agree_copies participants c n
  have hplan : planOf (c.dropUntracked settings.merge ::
      List.replicate n (c.dropUntracked settings.merge)) = .together := planOf_copies _ n
  obtain ⟨_, merged, rfl, hmerged, hvalue, hlog⟩ :=
    mergeDefinitions_of_agree settings hagree
  simp only [List.map_replicate, mergeMixed, hplan] at hmerged hlog
  refine ⟨mods, hself, _, merged, rfl, hmerged, hvalue, ?_⟩
  rw [hlog, Finding.conflicts_append, mergeBodies, Logged.log_mapLog,
    Finding.conflicts_map_conflict]

end ClassDef

end ApiSurface
