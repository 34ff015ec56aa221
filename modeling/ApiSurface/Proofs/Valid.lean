import ApiSurface.Json.Model
import ApiSurface.Proofs.Line.Group
import ApiSurface.Proofs.Line.Shape
import ApiSurface.Proofs.Merge.Members
import ApiSurface.Proofs.Snapshot

/-!
# Members that are read

Modifiers are only set within the mask of a kind, and with `abstract` where there is `interface`
(`valid_foldl_withModifiers`). So every member that is read from a line or from JSON is valid
(`valid_of_parseMember`, `valid_of_memberJson`), and so is every member of a class that is read; a
class that is read from lines has a header of the kind of a class (`valid_of_parseClass`).
-/

namespace ApiSurface

open Line

/-! ### Readers that can fail -/

/-- What every step of a loop keeps holds after the loop, if the loop gets to its end. -/
theorem of_foldlM_eq_ok {ε α β : Type _} {P : β → Prop} {f : β → α → Except ε β} {l : List α}
    (hstep : ∀ b a b', P b → f b a = .ok b' → P b') {b b' : β} (hb : P b)
    (h : l.foldlM f b = .ok b') : P b' := by
  induction l generalizing b with
  | nil =>
    cases h
    exact hb
  | cons a l ih =>
    rw [List.foldlM_cons] at h
    obtain ⟨c, hc, hrest⟩ := bind_eq_ok_iff.1 h
    exact ih (hstep b a c hb hc) hrest

theorem exists_of_mem_mapM {ε α β : Type _} {f : α → Except ε β} {l : List α} {r : List β}
    (h : l.mapM f = .ok r) : ∀ b ∈ r, ∃ a ∈ l, f a = .ok b := by
  induction l generalizing r with
  | nil =>
    cases h
    simp
  | cons a l ih =>
    rw [List.mapM_cons] at h
    obtain ⟨b, hb, h⟩ := bind_eq_ok_iff.1 h
    obtain ⟨r', hr, h⟩ := bind_eq_ok_iff.1 h
    cases h
    refine List.forall_mem_cons.2 ⟨⟨a, List.mem_cons_self, hb⟩, fun c hc => ?_⟩
    obtain ⟨a', ha', hc'⟩ := ih hr c hc
    exact ⟨a', List.mem_cons_of_mem _ ha', hc'⟩

namespace Member

variable {m m' : Member} {mods : Modifiers}

/-! ### Setting modifiers -/

theorem valid_withModifiers (h : m.Valid) (mods : Modifiers) : (m.withModifiers mods).Valid := by
  rcases hset : m.setModifiers? mods with e | m'
  · rwa [withModifiers_of_error hset]
  · rw [withModifiers_of_ok hset]
    exact valid_of_setModifiers? hset

/-- A member without modifiers is valid. -/
theorem valid_of_modifiers_eq_none (h : m.modifiers = .none) : m.Valid := by
  rw [Valid, has, h]
  exact ⟨Modifiers.isSubset_iff.2 fun i _ hi => by simp [Modifiers.none] at hi, fun hi => by
    simp [Modifiers.has, Modifiers.none] at hi⟩

/-- However often the modifiers of a valid member are set, it stays valid. -/
theorem valid_foldl_withModifiers (h : m.Valid) (sets : List Modifiers) :
    (sets.foldl withModifiers m).Valid := by
  induction sets generalizing m with
  | nil => exact h
  | cons mods sets ih => exact ih (valid_withModifiers h mods)

/-- Setting modifiers changes nothing else. -/
theorem foldl_withModifiers_eq (m : Member) (sets : List Modifiers) :
    ∃ mods, sets.foldl withModifiers m = { m with modifiers := mods } := by
  induction sets generalizing m with
  | nil => exact ⟨m.modifiers, rfl⟩
  | cons mods sets ih =>
    obtain ⟨final, heq⟩ := ih (m.withModifiers mods)
    refine ⟨final, ?_⟩
    rw [List.foldl_cons, heq, withModifiers_eq]

/-- Modifiers that are set one after the other without being rejected. -/
theorem eq_foldl_of_foldlM {sets : List Modifiers} (h : sets.foldlM setModifiers? m = .ok m') :
    m' = sets.foldl withModifiers m := by
  induction sets generalizing m with
  | nil =>
    cases h
    rfl
  | cons mods sets ih =>
    rw [List.foldlM_cons] at h
    obtain ⟨next, hnext, hrest⟩ := bind_eq_ok_iff.1 h
    rw [List.foldl_cons, withModifiers_of_ok hnext]
    exact ih hrest

/-! ### Members that are read -/

theorem valid_of_parseMember {line : Text} (h : parseMember line = .ok m) : m.Valid := by
  obtain ⟨d, -, hmember⟩ := parseMember_eq_ok_iff.1 h
  exact valid_of_setModifiers? hmember

theorem valid_of_memberJson {j : Json} (h : ofJson j = .ok m) : m.Valid := by
  unfold ofJson at h
  split at h
  next => cases h
  next d _ => exact valid_of_setModifiers? (mapError_eq_ok_iff.1 h)

theorem valid_of_listOfJson {fields : List (Text × Json)} {name : String} {ms : List Member}
    (h : listOfJson fields name = .ok ms) : ∀ m ∈ ms, m.Valid := by
  unfold listOfJson at h
  split at h
  next => cases h
  next =>
    intro m hm
    obtain ⟨j, -, hj⟩ := exists_of_mem_mapM h m hm
    exact valid_of_memberJson hj

theorem valid_of_optionOfJson {j : Option Json} {o : Option Member}
    (h : optionOfJson j = .ok o) : ∀ m ∈ o, m.Valid := by
  unfold optionOfJson at h
  split at h
  next =>
    cases h
    simp
  next =>
    cases h
    simp
  next j _ =>
    obtain ⟨m, hm, rfl⟩ := map_eq_ok_iff.1 h
    rintro _ ⟨⟩
    exact valid_of_memberJson hm

end Member

open Member

/-- The members of a class are valid, and so is its header, which is one. -/
structure ClassDef.Valid (c : ClassDef) : Prop where
  /-- The header has the kind of a class. -/
  kind : c.header.kind = .header
  /-- The header is valid. -/
  header : c.header.Valid
  /-- All members are valid. -/
  members : ∀ m ∈ c.members, m.Valid

instance (c : ClassDef) : Decidable c.Valid :=
  decidable_of_iff (c.header.kind = .header ∧ c.header.Valid ∧ ∀ m ∈ c.members, m.Valid)
    ⟨fun ⟨kind, header, members⟩ => ⟨kind, header, members⟩, fun h => ⟨h.kind, h.header, h.members⟩⟩

namespace Line.Group

variable {g g' : Group}

/-! ### Classes that are read from lines -/

/-- The entities of a group are valid, and the first one is the class itself. -/
def InOrder (g : Group) : Prop :=
  (∀ m ∈ g.entities, m.Valid) ∧ ∀ m ∈ g.entities.getLast?, m.kind = .header

theorem kind_annotate (a : Annot) (m : Member) : (annotate a m).kind = m.kind := rfl

theorem valid_annotate {a : Annot} {m : Member} (h : m.Valid) : (annotate a m).Valid := h

theorem InOrder.addAnnot (h : g.InOrder) (a : Annot) : (g.addAnnot a).InOrder := by
  unfold Group.addAnnot
  split
  next => exact h
  next m ms hentities =>
    obtain ⟨hvalid, hlast⟩ := h
    rw [hentities] at hvalid hlast
    obtain ⟨hm, hms⟩ := List.forall_mem_cons.1 hvalid
    refine ⟨List.forall_mem_cons.2 ⟨valid_annotate hm, hms⟩, fun n hn => ?_⟩
    rcases ms with _ | ⟨m', ms⟩
    · obtain rfl : annotate a m = n := Option.some.inj hn
      exact (kind_annotate a m).trans (hlast m rfl)
    · exact hlast n (by simpa using hn)

theorem InOrder.addEntity (h : g.InOrder) {m : Member} (hm : m.Valid) {line : Text}
    (hadd : g.addEntity m line = .ok g') : g'.InOrder := by
  rcases addEntity_eq_ok_iff.1 hadd with ⟨-, hkind, rfl⟩ | ⟨hne, -, rfl⟩
  · rw [foldr_annotate]
    exact ⟨List.forall_mem_singleton.2 hm, fun n hn => by cases hn; exact hkind⟩
  · refine ⟨List.forall_mem_cons.2 ⟨hm, h.1⟩, fun n hn => h.2 n ?_⟩
    obtain ⟨m', ms, hcons⟩ := List.exists_cons_of_ne_nil hne
    simpa [hcons] using hn

theorem InOrder.addLine (h : g.InOrder) {raw : Text} (hadd : g.addLine raw = .ok g') :
    g'.InOrder := by
  rcases of_addLine hadd with
    ⟨-, rfl⟩ | ⟨a, -, -, rfl⟩ | ⟨rest, -, rfl⟩ | ⟨rest, -, rfl⟩ | ⟨m, hm, hadd⟩
  · exact h
  · exact h.addAnnot a
  · exact h
  · exact h
  · exact h.addEntity (valid_of_parseMember hm) hadd

/-- The members of a class are among the members of its group. -/
theorem mem_of_mem_members_toClass {header m : Member} {ms : List Member}
    (h : m ∈ (toClass header ms).members) : m ∈ ms := by
  simp only [ClassDef.members, ClassDef.declaredMembers, ClassDef.ownMembers, toClass, own,
    List.mem_append, Option.mem_toList] at h
  rcases h with ((h | h) | (((h | h) | h) | h) | h) | h
  · exact (List.mem_filter.1 (List.mem_of_getLast? h)).1
  all_goals exact (List.mem_filter.1 h).1

end Line.Group

open Line.Group in
theorem valid_of_parseClass {lines : List Text} {c : ClassDef} (h : parseClass lines = .ok c) :
    c.Valid := by
  obtain ⟨g, hg, hfinish⟩ := bind_eq_ok_iff.1 h
  have hempty : InOrder {} := ⟨by simp, by simp⟩
  obtain ⟨hvalid, hlast⟩ := of_foldlM_eq_ok (P := InOrder)
    (fun g raw g' horder hadd => horder.addLine hadd) hempty hg
  unfold finish at hfinish
  split at hfinish
  next => cases hfinish
  next header ms hreverse =>
    cases hfinish
    have hentities : ∀ m ∈ header :: ms, m.Valid := by
      rw [← hreverse]
      exact fun m hm => hvalid m (List.mem_reverse.1 hm)
    refine ⟨hlast header ?_, hentities header List.mem_cons_self, fun m hm => ?_⟩
    · rw [← List.head?_reverse, hreverse]
      rfl
    · exact hentities m (List.mem_cons_of_mem _ (mem_of_mem_members_toClass hm))

theorem Snapshot.of_mem_values_insert {R : ClassDef → Prop} {s : Snapshot} {name : Text}
    {c : ClassDef} (hs : ∀ d ∈ s.values, R d) (hc : R c) : ∀ d ∈ (s.insert name c).values, R d := by
  intro d hd
  obtain ⟨key, hget⟩ := mem_values_iff.1 hd
  rcases SortedMap.of_get?_insert hget with hold | ⟨-, rfl⟩
  · exact hs d (mem_values_iff.2 ⟨key, hold⟩)
  · exact hc

/-- The classes of a text are listed under their names, and each was read from a group of lines. -/
theorem of_parseSnapshot {text : Text} {s : Snapshot} (h : parseSnapshot text = .ok s) :
    s.Named ∧ ∀ c ∈ s.values, ∃ lines, parseClass lines = .ok c := by
  refine of_foldlM_eq_ok
    (P := fun s : Snapshot => s.Named ∧ ∀ c ∈ s.values, ∃ lines, parseClass lines = .ok c) ?_
    ⟨Snapshot.named_ofClasses [], List.forall_mem_nil _⟩ h
  rintro s lines s' ⟨hnamed, hs⟩ hstep
  obtain ⟨c, hc, rfl⟩ := map_eq_ok_iff.1 hstep
  exact ⟨hnamed.add c, Snapshot.of_mem_values_insert hs ⟨lines, hc⟩⟩

theorem valid_of_parseSnapshot {text : Text} {s : Snapshot} (h : parseSnapshot text = .ok s) :
    ∀ c ∈ s.values, c.Valid := by
  intro c hc
  obtain ⟨lines, hlines⟩ := (of_parseSnapshot h).2 c hc
  exact valid_of_parseClass hlines

/-! ### Classes that are read from JSON -/

theorem valid_of_classJson {j : Json} {c : ClassDef} (h : ClassDef.ofJson j = .ok c) :
    ∀ m ∈ c.header :: c.members, m.Valid := by
  unfold ClassDef.ofJson at h
  split at h
  next => cases h
  next fields _ =>
    simp only [bind_eq_ok_iff] at h
    obtain ⟨constructors, hconstructors, declared, hfields, header, hheader, hiddenClasses, -,
      hiddenFields, -, inherited, hinherited, interfaces, hinterfaces, methods, hmethods, nested,
      hnested, permitted, hpermitted, superclass, hsuperclass, h⟩ := h
    split at h
    next => cases h
    next header =>
      cases h
      have hvalid : header.Valid := by
        rcases hlookup : Json.lookup? fields "header" with _ | j
        · rw [hlookup] at hheader
          cases hheader
        · rw [hlookup] at hheader
          obtain ⟨m, hm, heq⟩ := bind_eq_ok_iff.1 hheader
          cases heq
          exact valid_of_memberJson hm
      refine List.forall_mem_cons.2 ⟨hvalid, ?_⟩
      simp only [ClassDef.members, ClassDef.declaredMembers, ClassDef.ownMembers,
        List.forall_mem_append, Option.mem_toList]
      exact ⟨⟨⟨valid_of_optionOfJson hsuperclass, valid_of_listOfJson hinterfaces⟩,
        ⟨⟨⟨valid_of_listOfJson hconstructors, valid_of_listOfJson hmethods⟩,
          valid_of_listOfJson hfields⟩, valid_of_listOfJson hnested⟩,
        valid_of_listOfJson hpermitted⟩, valid_of_listOfJson hinherited⟩

theorem valid_of_snapshotJson {j : Json} {s : Snapshot} (h : Snapshot.ofJson j = .ok s) :
    ∀ c ∈ s.values, ∀ m ∈ c.header :: c.members, m.Valid := by
  unfold Snapshot.ofJson at h
  split at h
  next => cases h
  next fields _ =>
    refine of_foldlM_eq_ok
      (P := fun s : Snapshot => ∀ c ∈ s.values, ∀ m ∈ c.header :: c.members, m.Valid) ?_
      (List.forall_mem_nil _) h
    intro s e s' hs hstep
    obtain ⟨c, hc, rfl⟩ := map_eq_ok_iff.1 hstep
    exact Snapshot.of_mem_values_insert hs (valid_of_classJson hc)

end ApiSurface
