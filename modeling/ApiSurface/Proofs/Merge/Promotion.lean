import ApiSurface.Merge.Body

/-!
# Promoted members

Promotion treats the members of a raw class one by one: `declared_promoteOrKeep` gives each list
of the promoted class as the raw list under `liftMember`. Whether there is a promotion does not
depend on the order of the lists (`promotes_iff`). A promoted member has the key of a
generic one whose erasure has the raw key (`exists_generic_of_promoted`); where the promotion
fails as a whole, no member changes (`liftMember_of_not_promoted`).
-/

namespace ApiSurface

theorem eq_map_getD_of_mapM_eq_some {α : Type _} {f : α → Option α} {l l' : List α}
    (h : l.mapM f = some l') :
    l' = l.map (fun a => (f a).getD a) ∧ ∀ a ∈ l, (f a).isSome = true := by
  induction l generalizing l' with
  | nil =>
    cases h
    simp
  | cons a l ih =>
    rw [List.mapM_cons] at h
    rcases ha : f a with _ | b
    · simp [ha] at h
    · rcases hl : l.mapM f with _ | l''
      · simp [ha, hl] at h
      · obtain ⟨rfl, hall⟩ := ih hl
        have hb : l' = b :: l.map fun a => (f a).getD a := by simpa [ha, hl] using h.symm
        exact ⟨by simp [hb, ha], by simpa [ha] using hall⟩

theorem isSome_mapM_iff {α β : Type _} {f : α → Option β} {l : List α} :
    (l.mapM f).isSome = true ↔ ∀ a ∈ l, (f a).isSome = true := by
  induction l with
  | nil => simp
  | cons a l ih =>
    rw [List.mapM_cons, List.forall_mem_cons, ← ih]
    rcases f a with _ | b <;> rcases l.mapM f with _ | l' <;> simp

namespace Member

theorem promote?_eq_some {pairs : List (Member × Member)} {raw m : Member}
    (h : promote? pairs raw = some m) :
    ∃ e ∈ pairs, e.1.key = raw.key ∧ e.1.typeName = raw.typeName ∧ m = raw.adopt e.1 e.2 := by
  obtain ⟨e, he, rfl⟩ := Option.map_eq_some_iff.1 h
  have hcond : e.1.key = raw.key ∧ e.1.typeName = raw.typeName := by simpa using List.find?_some he
  exact ⟨e, List.mem_of_find?_eq_some he, hcond.1, hcond.2, rfl⟩

/-- A raw member in the terms of a generic one has the exceptions of one of the two. -/
theorem throws_adopt_cases (raw erased generic : Member) :
    (raw.adopt erased generic).throws = generic.throws ∨
      (raw.adopt erased generic).throws = raw.throws := by
  unfold adopt
  dsimp only
  split
  next => exact .inl rfl
  next => exact .inr rfl

theorem isSome_promote?_iff {pairs : List (Member × Member)} {raw : Member} :
    (promote? pairs raw).isSome = true ↔
      ∃ e ∈ pairs, e.1.key = raw.key ∧ e.1.typeName = raw.typeName := by
  simp [promote?]

end Member

namespace ClassDef

variable {policy : UnboundPolicy} {raw generic : ClassDef} {s : Kind}

/-- The members of one kind, each behind its erasure. -/
def withErasures (policy : UnboundPolicy) (c : ClassDef) (s : Kind) : List (Member × Member) :=
  (c.declared s).map fun g => (g.erased policy (c.params policy), g)

/-- Whether the raw class can be written in the terms of the generic one. -/
def Promotes (policy : UnboundPolicy) (raw generic : ClassDef) : Prop :=
  (promote? policy raw generic).value.isSome = true

instance : Decidable (Promotes policy raw generic) := inferInstanceAs (Decidable (_ = true))

/-- What a member of one kind becomes when the raw class is put in the terms of the generic one. -/
def liftMember (policy : UnboundPolicy) (raw generic : ClassDef) (s : Kind) (m : Member) : Member :=
  if Promotes policy raw generic then (Member.promote? (generic.withErasures policy s) m).getD m
  else m

theorem declared_fullErasure (hs : s ∈ Kind.own) :
    (generic.fullErasure policy).value.declared s =
      (generic.declared s).map (·.erased policy (generic.params policy)) := by
  rcases Kind.mem_own_iff.1 hs with rfl | rfl | rfl <;> rfl

theorem zip_fullErasure (hs : s ∈ Kind.own) :
    ((generic.fullErasure policy).value.declared s).zip (generic.declared s) =
      generic.withErasures policy s := by
  rw [declared_fullErasure hs, withErasures]
  have := List.zip_map' (f := (·.erased policy (generic.params policy))) (g := id)
    (l := generic.declared s)
  rwa [List.map_id] at this

/-- The raw members of a kind can be put in generic terms if there are as many of them as generic
ones and each is the erasure of a generic one. -/
theorem isSome_promoteAll?_iff (hs : s ∈ Kind.own) : (Member.promoteAll? (raw.declared s)
    ((generic.fullErasure policy).value.declared s) (generic.declared s)).isSome = true ↔
    (raw.declared s).length = (generic.declared s).length ∧
      ∀ m ∈ raw.declared s, ∃ g ∈ generic.declared s,
        (g.erased policy (generic.params policy)).key = m.key ∧
          (g.erased policy (generic.params policy)).typeName = m.typeName := by
  have hlength : ((generic.fullErasure policy).value.declared s).length =
      (generic.declared s).length := by rw [declared_fullErasure hs, List.length_map]
  rw [Member.promoteAll?, hlength, zip_fullErasure hs]
  split
  next hl =>
    have hpairs : ∀ m : Member, (∃ e ∈ generic.withErasures policy s,
        e.1.key = m.key ∧ e.1.typeName = m.typeName) ↔ ∃ g ∈ generic.declared s,
          (g.erased policy (generic.params policy)).key = m.key ∧
            (g.erased policy (generic.params policy)).typeName = m.typeName := by
      intro m
      constructor
      · rintro ⟨e, he, h⟩
        obtain ⟨g, hg, rfl⟩ := List.mem_map.1 he
        exact ⟨g, hg, h⟩
      · rintro ⟨g, hg, h⟩
        exact ⟨_, List.mem_map_of_mem hg, h⟩
    simp only [isSome_mapM_iff, Member.isSome_promote?_iff, hpairs, hl, true_and]
  next hl => simp [hl]

/-- A raw class can be put in generic terms if it has as many members as the generic one and each
is the erasure of a generic member. -/
theorem promotes_iff : Promotes policy raw generic ↔ ∀ s ∈ Kind.own,
    (raw.declared s).length = (generic.declared s).length ∧
      ∀ m ∈ raw.declared s, ∃ g ∈ generic.declared s,
        (g.erased policy (generic.params policy)).key = m.key ∧
          (g.erased policy (generic.params policy)).typeName = m.typeName := by
  rw [Promotes, promote?, Logged.value_map]
  have hbind : (promoteBy? raw (generic.fullErasure policy).value generic).isSome = true ↔
      ∀ s ∈ Kind.own, (Member.promoteAll? (raw.declared s)
        ((generic.fullErasure policy).value.declared s) (generic.declared s)).isSome = true := by
    simp only [promoteBy?, Kind.own, List.forall_mem_cons, List.not_mem_nil, false_implies,
      implies_true, and_true, declared, Option.bind_eq_bind]
    rcases Member.promoteAll? raw.constructors _ _ with _ | _
    · simp
    rcases Member.promoteAll? raw.methods _ _ with _ | _
    · simp
    rcases Member.promoteAll? raw.fields _ _ with _ | _ <;> simp
  rw [hbind]
  exact forall₂_congr fun s hs => isSome_promoteAll?_iff hs

theorem promoteAll?_eq_some {ms : List Member} (hs : s ∈ Kind.own)
    (h : Member.promoteAll? (raw.declared s) ((generic.fullErasure policy).value.declared s)
      (generic.declared s) = some ms) :
    ms = (raw.declared s).map (fun m =>
        (Member.promote? (generic.withErasures policy s) m).getD m) ∧
      ∀ m ∈ raw.declared s, (Member.promote? (generic.withErasures policy s) m).isSome = true := by
  unfold Member.promoteAll? at h
  split at h
  next => exact eq_map_getD_of_mapM_eq_some (zip_fullErasure hs ▸ h)
  next => cases h

/-- A promoted class has in each list the members that promotion finds for the raw ones, and finds
one for each of them. -/
theorem promote?_value_eq_some {c : ClassDef} (hs : s ∈ Kind.own)
    (h : (promote? policy raw generic).value = some c) :
    c.declared s = (raw.declared s).map (fun m =>
        (Member.promote? (generic.withErasures policy s) m).getD m) ∧
      ∀ m ∈ raw.declared s, (Member.promote? (generic.withErasures policy s) m).isSome = true := by
  simp only [promote?, promoteBy?, Logged.value_map, Option.bind_eq_bind,
    Option.bind_eq_some_iff, Option.pure_def, Option.some.injEq] at h
  obtain ⟨cs, hcs, ms, hms, fs, hfs, rfl⟩ := h
  rcases Kind.mem_own_iff.1 hs with rfl | rfl | rfl
  · exact promoteAll?_eq_some (s := .constructor) (by decide) hcs
  · exact promoteAll?_eq_some (s := .method) (by decide) hms
  · exact promoteAll?_eq_some (s := .field) (by decide) hfs

/-- Promotion acts on each member by itself. -/
theorem declared_promoteOrKeep (hs : s ∈ Kind.own) :
    (promoteOrKeep policy raw generic).value.declared s =
      (raw.declared s).map (liftMember policy raw generic s) := by
  simp only [promoteOrKeep, Logged.value_map, Logged.value_mapLog]
  rcases h : (promote? policy raw generic).value with _ | c
  · have hid : liftMember policy raw generic s = id := by
      funext m
      simp [liftMember, Promotes, h]
    rw [hid, List.map_id, Option.getD_none]
  · rw [Option.getD_some, (promote?_value_eq_some hs h).1]
    refine List.map_congr_left ?_
    intro m _
    simp [liftMember, Promotes, h]

theorem liftMember_of_not_promoted (h : ¬ Promotes policy raw generic) (m : Member) :
    liftMember policy raw generic s m = m := if_neg h

/-- Promotion leaves all of a member alone but its arguments, its type, its exceptions and its
generics declaration. -/
theorem exists_liftMember_eq (policy : UnboundPolicy) (raw generic : ClassDef) (s : Kind)
    (m : Member) : ∃ args typeName throws typeParams,
      liftMember policy raw generic s m = { m with args, typeName, throws, typeParams } := by
  unfold liftMember
  split
  next =>
    rcases hp : Member.promote? (generic.withErasures policy s) m with _ | m'
    · exact ⟨_, _, _, _, rfl⟩
    · obtain ⟨e, -, -, -, rfl⟩ := Member.promote?_eq_some hp
      exact ⟨_, _, _, _, rfl⟩
  next => exact ⟨_, _, _, _, rfl⟩

theorem valid_liftMember {m : Member} (h : m.Valid) :
    (liftMember policy raw generic s m).Valid := by
  obtain ⟨_, _, _, _, heq⟩ := exists_liftMember_eq policy raw generic s m
  rw [heq]
  exact h

/-- A promoted member adopts the terms of a generic one whose erasure has its key and its type. -/
theorem exists_adopt_of_promoted (hs : s ∈ Kind.own) (h : Promotes policy raw generic)
    {m : Member} (hm : m ∈ raw.declared s) :
    ∃ g ∈ generic.declared s, (g.erased policy (generic.params policy)).key = m.key ∧
      (g.erased policy (generic.params policy)).typeName = m.typeName ∧
      liftMember policy raw generic s m = m.adopt (g.erased policy (generic.params policy)) g := by
  obtain ⟨c, hc⟩ := Option.isSome_iff_exists.1 h
  obtain ⟨m', hm'⟩ := Option.isSome_iff_exists.1 ((promote?_value_eq_some hs hc).2 m hm)
  obtain ⟨e, he, hkey, htype, rfl⟩ := Member.promote?_eq_some hm'
  obtain ⟨g, hg, rfl⟩ := List.mem_map.1 he
  refine ⟨g, hg, hkey, htype, ?_⟩
  rw [liftMember, if_pos h, hm', Option.getD_some]

/-- A promoted member has the key of a generic one whose erasure has the key of the raw one. -/
theorem exists_generic_of_promoted (hs : s ∈ Kind.own) (h : Promotes policy raw generic)
    {m : Member} (hm : m ∈ raw.declared s) :
    ∃ g ∈ generic.declared s, (g.erased policy (generic.params policy)).key = m.key ∧
      (liftMember policy raw generic s m).key = g.key := by
  obtain ⟨g, hg, hkey, -, hlift⟩ := exists_adopt_of_promoted hs h hm
  refine ⟨g, hg, hkey, ?_⟩
  have hkind : g.kind = m.kind := congrArg MemberKey.kind hkey
  have hdeclaring : g.declaring = m.declaring := congrArg MemberKey.declaring hkey
  have hname : g.name = m.name := congrArg MemberKey.name hkey
  simp only [hlift, Member.key, Member.adopt, hkind, hdeclaring, hname]

/-- Promotion changes nothing but the constructors, methods and fields. -/
theorem exists_promoteOrKeep_eq (policy : UnboundPolicy) (raw generic : ClassDef) :
    ∃ constructors methods fields, (promoteOrKeep policy raw generic).value =
      { raw with constructors, methods, fields } := by
  simp only [promoteOrKeep, promote?, promoteBy?, Logged.value_map, Logged.value_mapLog,
    Option.bind_eq_bind]
  rcases Member.promoteAll? raw.constructors _ _ with _ | cs
  · exact ⟨_, _, _, rfl⟩
  rcases Member.promoteAll? raw.methods _ _ with _ | ms
  · exact ⟨_, _, _, rfl⟩
  rcases Member.promoteAll? raw.fields _ _ with _ | fs <;> exact ⟨_, _, _, rfl⟩

end ClassDef

end ApiSurface
