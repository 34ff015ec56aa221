import ApiSurface.Proofs.Line.Accepted
import ApiSurface.Proofs.Line.Shape

/-!
# Lines and the places they are filed in

A class that is read from a group of lines holds all that the lines say, each thing in its place
(`filed_of_parseClass`). What a line says does not depend on the lines around it (`Says`); an
annotation belongs to the last entity in front of it or, in front of all entities, to the first one
(`owner?`). The loop over the lines goes by the latest entity only: at every line its entities have
the annotations that belong to them among the lines read so far (`Describes.addLine`).
-/

namespace ApiSurface

open Text

namespace Line

/-! ### What a line says -/

/-- What a line of a group can say. -/
inductive Content where
  /-- Nothing. -/
  | nothing
  /-- An annotation. -/
  | annot (a : Annot)
  /-- Names of hidden fields. -/
  | hiddenFields (names : List Text)
  /-- Names of hidden nested types. -/
  | hiddenClasses (names : List Text)
  /-- An entity, without annotations. -/
  | entity (m : Member)

namespace Content

/-- The entity, if there is one. -/
def entity? : Content → Option Member
  | entity m => some m
  | _ => none

/-- The annotation, if there is one. -/
def annot? : Content → Option Annot
  | annot a => some a
  | _ => none

/-- The characters that what a line says starts with. -/
def starts : Content → List (Option Char)
  | nothing => [none, some '#']
  | annot _ => [some 'a']
  | hiddenFields _ | hiddenClasses _ => [some 'h']
  | entity _ => ['@', 'c', 's', 'i', 'm', 'f', 'p'].map some

end Content

/-- What a line says goes by how it starts. -/
inductive Says : Text → Content → Prop where
  /-- An empty line or a comment says nothing. -/
  | nothing {raw : Text} (h : isIgnored (entityText raw) = true) : Says raw .nothing
  /-- An annotation line. -/
  | annot {raw rest : Text} {a : Annot} (htag : entityText raw = Annot.lineTag ++ rest)
      (h : parseAnnot (entityText raw) = .ok a) : Says raw (.annot a)
  /-- A line of hidden fields. -/
  | hiddenFields {raw rest : Text} (h : entityText raw = ClassDef.hiddenFieldsTag ++ rest) :
      Says raw (.hiddenFields (hiddenNames rest))
  /-- A line of hidden nested types. -/
  | hiddenClasses {raw rest : Text} (h : entityText raw = ClassDef.hiddenClassesTag ++ rest) :
      Says raw (.hiddenClasses (hiddenNames rest))
  /-- The line of an entity. -/
  | entity {raw : Text} {m : Member} (h : parseMember (entityText raw) = .ok m) :
      Says raw (.entity m)

theorem Says.head?_mem_starts {raw : Text} {x : Content} (h : Says raw x) :
    (entityText raw).head? ∈ x.starts := by
  cases h with
  | nothing h =>
    rcases hline : entityText raw with _ | ⟨c, rest⟩
    · exact List.mem_cons_self
    · rw [hline] at h
      obtain rfl : c = '#' := by simpa [isIgnored] using h
      exact List.mem_cons_of_mem _ List.mem_cons_self
  | annot htag => exact htag ▸ List.mem_cons_self
  | hiddenFields h => exact h ▸ List.mem_cons_self
  | hiddenClasses h => exact h ▸ List.mem_cons_self
  | entity h =>
    obtain ⟨c, hc, hletter⟩ := head?_of_lineKind? (lineKind?_of_parseMember h)
    exact (show _ = some c from hc) ▸ List.mem_map_of_mem hletter

theorem Content.starts_eq_of_mem {x y : Content} {o : Option Char} (hx : o ∈ x.starts)
    (hy : o ∈ y.starts) : x.starts = y.starts := by
  have hdisjoint : ∀ l ∈ [[none, some '#'], [some 'a'], [some 'h'],
      ['@', 'c', 's', 'i', 'm', 'f', 'p'].map some], ∀ l' ∈ [[none, some '#'], [some 'a'],
      [some 'h'], ['@', 'c', 's', 'i', 'm', 'f', 'p'].map some], ∀ o ∈ l, o ∈ l' → l = l' := by
    decide
  exact hdisjoint _ (by cases x <;> simp [starts]) _ (by cases y <;> simp [starts]) o hx hy

/-- A line says one thing. -/
theorem Says.unique {raw : Text} {x y : Content} (hx : Says raw x) (hy : Says raw y) : x = y := by
  have hstarts := Content.starts_eq_of_mem hx.head?_mem_starts hy.head?_mem_starts
  have hletter : ∀ {rest rest'},
      ClassDef.hiddenFieldsTag ++ rest ≠ ClassDef.hiddenClassesTag ++ rest' :=
    fun heq => absurd (congrArg (fun t : Text => t[6]?) heq) (show some 'f' ≠ some 'c' by decide)
  cases hx with
  | nothing =>
    cases hy with
    | nothing => rfl
    | _ => cases hstarts
  | annot _ h =>
    cases hy with
    | annot _ h' => exact congrArg Content.annot (Except.ok.inj (h.symm.trans h'))
    | _ => cases hstarts
  | hiddenFields h =>
    cases hy with
    | hiddenFields h' => rw [List.append_cancel_left (h.symm.trans h')]
    | hiddenClasses h' => exact absurd (h.symm.trans h') hletter
    | _ => cases hstarts
  | hiddenClasses h =>
    cases hy with
    | hiddenFields h' => exact absurd (h'.symm.trans h) hletter
    | hiddenClasses h' => rw [List.append_cancel_left (h.symm.trans h')]
    | _ => cases hstarts
  | entity h =>
    cases hy with
    | entity h' => exact congrArg Content.entity (Except.ok.inj (h.symm.trans h'))
    | _ => cases hstarts

/-! ### Which annotation belongs to which entity -/

/-- The entities of a group with the places of their lines. -/
def entries (contents : List Content) : List (Nat × Member) :=
  contents.zipIdx.filterMap fun e => e.1.entity?.map (e.2, ·)

/-- The place of the entity that an annotation belongs to: the last entity in front of it or, in
front of all entities, the first one. -/
def owner? (contents : List Content) (place : Nat) : Option Nat :=
  let places := (entries contents).map (·.1)
  (places.filter (· < place)).getLast?.or places.head?

/-- The annotations that belong to the entity at a place. -/
def annotsAt (contents : List Content) (place : Nat) : List Annot :=
  contents.zipIdx.filterMap fun e => if owner? contents e.2 = some place then e.1.annot? else none

/-- The entities of a group in order, each with the annotations that belong to it. -/
def described (contents : List Content) : List Member :=
  (entries contents).map fun e => { e.2 with annots := .ofList (annotsAt contents e.1) }

section

variable {contents : List Content} {x : Content}

theorem entries_append (contents : List Content) (x : Content) :
    entries (contents ++ [x]) =
      entries contents ++ (x.entity?.map (contents.length, ·)).toList := by
  rw [entries, List.zipIdx_append, List.filterMap_append, Nat.zero_add]
  cases x <;> rfl

theorem lt_of_mem_entries {e : Nat × Member} (h : e ∈ entries contents) :
    e.1 < contents.length := by
  obtain ⟨⟨x, place⟩, hmem, heq⟩ := List.mem_filterMap.1 h
  obtain ⟨m, -, rfl⟩ := Option.map_eq_some_iff.1 heq
  exact List.snd_lt_of_mem_zipIdx hmem

theorem nodup_places (contents : List Content) : ((entries contents).map (·.1)).Nodup := by
  have hdistinct : contents.zipIdx.Pairwise fun e f => e.2 ≠ f.2 := by
    refine List.pairwise_map.1 ?_
    rw [List.zipIdx_map_snd]
    exact List.nodup_range'
  rw [List.nodup_iff_pairwise_ne, List.pairwise_map]
  refine hdistinct.filterMap _ ?_
  rintro ⟨x, i⟩ ⟨y, j⟩ hne e he f hf
  obtain ⟨m, -, rfl⟩ := Option.map_eq_some_iff.1 he
  obtain ⟨n, -, rfl⟩ := Option.map_eq_some_iff.1 hf
  exact hne

/-- Behind the lines that were read so far, an annotation belongs to the latest entity. -/
theorem owner?_length (contents : List Content) :
    owner? contents contents.length = (entries contents).getLast?.map (·.1) := by
  have hall : ((entries contents).map (·.1)).filter (· < contents.length) =
      (entries contents).map (·.1) := by
    refine List.filter_eq_self.2 fun place hplace => ?_
    obtain ⟨e, he, rfl⟩ := List.mem_map.1 hplace
    exact decide_eq_true (lt_of_mem_entries he)
  rw [owner?, hall, List.getLast?_map]
  rcases hentries : entries contents with _ | ⟨e, es⟩
  · rfl
  · rw [List.getLast?_cons]
    rfl

/-- A line more changes nothing about whom the annotations up to it belong to, unless it is that of
the first entity. -/
theorem owner?_append (h : x.entity? = none ∨ entries contents ≠ []) {place : Nat}
    (hplace : place ≤ contents.length) :
    owner? (contents ++ [x]) place = owner? contents place := by
  rw [owner?, entries_append, List.map_append]
  rcases hx : x.entity? with _ | m
  · rw [Option.map_none, Option.toList_none, List.map_nil, List.append_nil]
    rfl
  · obtain ⟨e, es, hentries⟩ := List.exists_cons_of_ne_nil (h.resolve_left (by simp [hx]))
    have hbehind : ¬ contents.length < place := Nat.not_lt.2 hplace
    simp [owner?, hentries, hbehind]

/-- A line more adds its annotation, if it has one, to those of the latest entity. -/
theorem annotsAt_append (h : x.entity? = none ∨ entries contents ≠ []) (place : Nat) :
    annotsAt (contents ++ [x]) place = annotsAt contents place ++
      (if (entries contents).getLast?.map (·.1) = some place then x.annot? else none).toList := by
  have hbefore : ∀ e ∈ contents.zipIdx,
      (if owner? (contents ++ [x]) e.2 = some place then e.1.annot? else none) =
        if owner? contents e.2 = some place then e.1.annot? else none := by
    intro e he
    rw [owner?_append h (Nat.le_of_lt (List.snd_lt_of_mem_zipIdx he))]
  rw [annotsAt, List.zipIdx_append, List.filterMap_append, Nat.zero_add,
    List.filterMap_congr hbefore, List.zipIdx_singleton, List.filterMap_cons, List.filterMap_nil]
  dsimp only
  rw [owner?_append h (Nat.le_refl _), owner?_length]
  split
  next hnone => rw [hnone]; rfl
  next a ha => rw [ha]; rfl

theorem described_eq_nil_iff : described contents = [] ↔ entries contents = [] :=
  List.map_eq_nil_iff

/-- A line that is neither of an entity nor of an annotation changes nothing. -/
theorem described_append_of_neither (hentity : x.entity? = none) (hannot : x.annot? = none) :
    described (contents ++ [x]) = described contents := by
  rw [described, entries_append, hentity, Option.map_none, Option.toList_none, List.append_nil]
  refine List.map_congr_left fun e _ => ?_
  rw [annotsAt_append (.inl hentity), hannot, ite_self, Option.toList_none, List.append_nil]

/-- An annotation goes to the latest entity. -/
theorem described_append_annot {ms : List Member} {m : Member} (a : Annot)
    (h : described contents = ms ++ [m]) :
    described (contents ++ [.annot a]) = ms ++ [Group.annotate a m] := by
  obtain ⟨es, fs, hentries, rfl, hlast⟩ := List.map_eq_append_iff.1 h
  obtain ⟨e, rfl, rfl⟩ := List.map_eq_singleton_iff.1 hlast
  have hlatest : (entries contents).getLast?.map (·.1) = some e.1 := by
    rw [hentries, List.getLast?_concat]
    rfl
  have hother : ∀ f ∈ es, e.1 ≠ f.1 := by
    intro f hf heq
    have hnodup := nodup_places contents
    rw [hentries, List.map_append, List.nodup_append] at hnodup
    exact hnodup.2.2 f.1 (List.mem_map_of_mem hf) e.1 List.mem_cons_self heq.symm
  have hannots : ∀ place, annotsAt (contents ++ [.annot a]) place =
      annotsAt contents place ++ if e.1 = place then [a] else [] := by
    intro place
    rw [annotsAt_append (.inl rfl), hlatest]
    by_cases hplace : e.1 = place <;> simp [hplace, Content.annot?]
  rw [described, entries_append, hentries]
  simp only [Content.entity?, Option.map_none, Option.toList_none, List.append_nil,
    List.map_append, List.map_cons, List.map_nil]
  refine congrArg₂ (· ++ [·]) (List.map_congr_left fun f hf => ?_) ?_
  · rw [hannots, if_neg (hother f hf), List.append_nil]
  · rw [hannots, if_pos rfl, SortedSet.ofList_concat]
    rfl

/-- Annotations belong to entities. -/
theorem lt_of_owner?_eq_some {place owner : Nat} (h : owner? contents place = some owner) :
    owner < contents.length := by
  have hmem : owner ∈ (entries contents).map (·.1) := by
    rcases Option.or_eq_some_iff.1 h with hlast | ⟨-, hfirst⟩
    · exact (List.mem_filter.1 (List.mem_of_getLast? hlast)).1
    · exact List.mem_of_head? hfirst
  obtain ⟨e, he, rfl⟩ := List.mem_map.1 hmem
  exact lt_of_mem_entries he

/-- An entity behind others comes without annotations. -/
theorem described_append_entity {m : Member} (hm : m.annots = ∅) (h : described contents ≠ []) :
    described (contents ++ [.entity m]) = described contents ++ [m] := by
  have hne : entries contents ≠ [] := fun hnil => h (described_eq_nil_iff.2 hnil)
  have hnone : (Content.entity m).annot? = none := rfl
  have hbefore : ∀ place, annotsAt (contents ++ [.entity m]) place = annotsAt contents place := by
    intro place
    rw [annotsAt_append (.inr hne), hnone, ite_self, Option.toList_none, List.append_nil]
  have hnew : annotsAt contents contents.length = [] := by
    refine List.filterMap_eq_nil_iff.2 fun e _ => if_neg fun howner => ?_
    exact Nat.lt_irrefl _ (lt_of_owner?_eq_some howner)
  rw [described, entries_append, List.map_append]
  simp only [hbefore, Content.entity?, Option.map_some, Option.toList_some, List.map_cons,
    List.map_nil, hnew]
  exact congrArg (fun annots => described contents ++ [{ m with annots }]) hm.symm

/-- The first entity takes over the annotations in front of it. -/
theorem described_append_first (m : Member) (h : described contents = []) :
    described (contents ++ [.entity m]) =
      [{ m with annots := .ofList (contents.filterMap Content.annot?) }] := by
  have hentries : entries (contents ++ [.entity m]) = [(contents.length, m)] := by
    rw [entries_append, described_eq_nil_iff.1 h]
    rfl
  have howner : ∀ place, owner? (contents ++ [.entity m]) place = some contents.length := by
    intro place
    rw [owner?, hentries]
    by_cases hplace : contents.length < place <;> simp [hplace]
  have hannots : annotsAt (contents ++ [.entity m]) contents.length =
      contents.filterMap Content.annot? := by
    simp only [annotsAt, howner, if_true]
    calc (contents ++ [Content.entity m]).zipIdx.filterMap (·.1.annot?)
        = ((contents ++ [Content.entity m]).zipIdx.map (·.1)).filterMap Content.annot? :=
          (List.filterMap_map (f := Prod.fst) (g := Content.annot?)).symm
      _ = contents.filterMap Content.annot? := by
          rw [List.zipIdx_map_fst, List.filterMap_append]
          exact List.append_nil _
  rw [described, hentries, List.map_singleton, hannots]

end

/-! ### The loop over the lines -/

/-- A group is what some lines have said. -/
structure Describes (contents : List Content) (g : Group) : Prop where
  /-- Its entities are those of the lines, with their annotations. -/
  entities : g.entities.reverse = described contents
  /-- In front of all entities it keeps the annotations. -/
  leading : g.entities = [] → g.leading = contents.filterMap Content.annot?
  /-- Its hidden fields are those of the lines. -/
  hiddenFields : ∀ n, n ∈ g.hiddenFields ↔ ∃ names, .hiddenFields names ∈ contents ∧ n ∈ names
  /-- So are its hidden nested types. -/
  hiddenClasses : ∀ n, n ∈ g.hiddenClasses ↔ ∃ names, .hiddenClasses names ∈ contents ∧ n ∈ names
  /-- The first entity, and no other, is a class. -/
  header : ∀ k ks, (described contents).map (·.kind) = k :: ks → k = .header ∧ .header ∉ ks

namespace Describes

variable {contents : List Content} {g g' : Group}

theorem entities_eq_nil_iff (h : Describes contents g) :
    g.entities = [] ↔ described contents = [] := by
  rw [← h.entities, List.reverse_eq_nil_iff]

/-- A group that has not read any line. -/
theorem nil : Describes [] {} where
  entities := rfl
  leading := fun _ => rfl
  hiddenFields := by simp
  hiddenClasses := by simp
  header := nofun

/-- A line that is neither of an entity nor of an annotation can only add hidden names. -/
theorem addHidden (h : Describes contents g) {x : Content} (hentity : x.entity? = none)
    (hannot : x.annot? = none) {hiddenFields hiddenClasses : List Text}
    (hfields : ∀ n, n ∈ hiddenFields ↔
      n ∈ g.hiddenFields ∨ ∃ names, x = .hiddenFields names ∧ n ∈ names)
    (hclasses : ∀ n, n ∈ hiddenClasses ↔
      n ∈ g.hiddenClasses ∨ ∃ names, x = .hiddenClasses names ∧ n ∈ names) :
    Describes (contents ++ [x]) { g with hiddenFields, hiddenClasses } := by
  have hsame : described (contents ++ [x]) = described contents :=
    described_append_of_neither hentity hannot
  refine ⟨hsame ▸ h.entities, fun hnil => ?_, fun n => ?_, fun n => ?_, hsame ▸ h.header⟩
  · rw [List.filterMap_append, List.filterMap_cons_none hannot]
    exact (h.leading hnil).trans (List.append_nil _).symm
  · simp [hfields, h.hiddenFields, or_and_right, exists_or, eq_comm]
  · simp [hclasses, h.hiddenClasses, or_and_right, exists_or, eq_comm]

theorem addAnnot (h : Describes contents g) (a : Annot) :
    Describes (contents ++ [.annot a]) (g.addAnnot a) := by
  have hfields : ∀ n, n ∈ g.hiddenFields ↔
      ∃ names, .hiddenFields names ∈ contents ++ [.annot a] ∧ n ∈ names := by
    simp [h.hiddenFields]
  have hclasses : ∀ n, n ∈ g.hiddenClasses ↔
      ∃ names, .hiddenClasses names ∈ contents ++ [.annot a] ∧ n ∈ names := by
    simp [h.hiddenClasses]
  unfold Group.addAnnot
  split
  next hnil =>
    have hafter : described (contents ++ [.annot a]) = [] := by
      rw [described_eq_nil_iff, entries_append,
        described_eq_nil_iff.1 (h.entities_eq_nil_iff.1 hnil)]
      rfl
    refine ⟨hafter ▸ List.reverse_eq_nil_iff.2 hnil, fun _ => ?_, hfields, hclasses,
      fun k ks hkinds => ?_⟩
    · rw [List.filterMap_append, h.leading hnil]
      rfl
    · rw [hafter] at hkinds
      cases hkinds
  next m ms hcons =>
    have hbefore : described contents = ms.reverse ++ [m] := by
      rw [← h.entities, hcons, List.reverse_cons]
    have hafter := described_append_annot a hbefore
    refine ⟨?_, nofun, hfields, hclasses, fun k ks hkinds => h.header k ks ?_⟩
    · rw [hafter, List.reverse_cons]
    · rw [← hkinds, hbefore, hafter, List.map_append, List.map_append]
      rfl

theorem addEntity (h : Describes contents g) {m : Member} (hm : m.annots = ∅) {line : Text}
    (hadd : g.addEntity m line = .ok g') : Describes (contents ++ [.entity m]) g' := by
  have hfields : ∀ n, n ∈ g.hiddenFields ↔
      ∃ names, .hiddenFields names ∈ contents ++ [.entity m] ∧ n ∈ names := by
    simp [h.hiddenFields]
  have hclasses : ∀ n, n ∈ g.hiddenClasses ↔
      ∃ names, .hiddenClasses names ∈ contents ++ [.entity m] ∧ n ∈ names := by
    simp [h.hiddenClasses]
  rcases Group.addEntity_eq_ok_iff.1 hadd with ⟨hnil, hkind, rfl⟩ | ⟨hne, hkind, rfl⟩
  · have hafter := described_append_first m (h.entities_eq_nil_iff.1 hnil)
    refine ⟨?_, nofun, hfields, hclasses, fun k ks hkinds => ?_⟩
    · rw [hafter, Group.foldr_annotate, hm, h.leading hnil]
      rfl
    · rw [hafter] at hkinds
      obtain ⟨rfl, rfl⟩ := List.cons.inj hkinds
      exact ⟨hkind, List.not_mem_nil⟩
  · have hbefore : described contents ≠ [] := fun hnil => hne (h.entities_eq_nil_iff.2 hnil)
    have hafter := described_append_entity hm hbefore
    refine ⟨?_, nofun, hfields, hclasses, fun k ks hkinds => ?_⟩
    · rw [hafter, List.reverse_cons, h.entities]
    · obtain ⟨n, ns, hcons⟩ := List.exists_cons_of_ne_nil hbefore
      rw [hafter, hcons, List.cons_append, List.map_cons, List.map_append] at hkinds
      obtain ⟨hfirst, hothers⟩ := h.header n.kind (ns.map (·.kind)) (by rw [hcons]; rfl)
      obtain ⟨rfl, rfl⟩ := List.cons.inj hkinds
      exact ⟨hfirst, fun hmem => (List.mem_append.1 hmem).elim hothers
        fun hlast => hkind (List.mem_singleton.1 hlast).symm⟩

/-- A line that is read adds what it says. -/
theorem addLine (h : Describes contents g) {raw : Text} (hadd : g.addLine raw = .ok g') :
    ∃ x, Says raw x ∧ Describes (contents ++ [x]) g' := by
  rcases Group.of_addLine hadd with ⟨hignored, rfl⟩ | ⟨a, ⟨rest, htag⟩, ha, rfl⟩ |
    ⟨rest, htag, rfl⟩ | ⟨rest, htag, rfl⟩ | ⟨m, hm, hadd⟩
  · exact ⟨.nothing, .nothing hignored, h.addHidden rfl rfl (by simp) (by simp)⟩
  · exact ⟨.annot a, .annot htag (parseAnnot_ok_iff.2 ha), h.addAnnot a⟩
  · exact ⟨.hiddenFields (hiddenNames rest), .hiddenFields htag,
      h.addHidden rfl rfl (by simp) (by simp)⟩
  · exact ⟨.hiddenClasses (hiddenNames rest), .hiddenClasses htag,
      h.addHidden rfl rfl (by simp) (by simp)⟩
  · exact ⟨.entity m, .entity hm, h.addEntity (shaped_of_parseMember hm).2.1 hadd⟩

/-- Lines that are read one after the other add what they say. -/
theorem addLines {raws : List Text} (h : Describes contents g)
    (hread : raws.foldlM Group.addLine g = .ok g') :
    ∃ more, List.Forall₂ Says raws more ∧ Describes (contents ++ more) g' := by
  induction raws generalizing contents g with
  | nil =>
    obtain rfl := Except.ok.inj hread
    exact ⟨[], .nil, (List.append_nil contents).symm ▸ h⟩
  | cons raw raws ih =>
    rw [List.foldlM_cons] at hread
    obtain ⟨g₁, hadd, hrest⟩ := bind_eq_ok_iff.1 hread
    obtain ⟨x, hx, h₁⟩ := h.addLine hadd
    obtain ⟨more, hmore, h'⟩ := ih h₁ hrest
    exact ⟨x :: more, .cons hx hmore, List.append_cons contents x more ▸ h'⟩

end Describes

/-- Lines say one thing each. -/
theorem forall₂_says_unique {raws : List Text} {xs ys : List Content}
    (hxs : List.Forall₂ Says raws xs) (hys : List.Forall₂ Says raws ys) : ys = xs := by
  induction hxs generalizing ys with
  | nil => exact List.forall₂_nil_left_iff.1 hys
  | cons hx _ ih =>
    obtain ⟨y, ys', hy, hys', rfl⟩ := List.forall₂_cons_left_iff.1 hys
    rw [hy.unique hx, ih hys']

/-! ### The places of the entities -/

theorem count_filter_eq (p : Member → Prop) [DecidablePred p] (m : Member) (ms : List Member) :
    (ms.filter fun n => p n).count m = if p m then ms.count m else 0 := by
  split
  next h => exact List.count_filter (decide_eq_true h)
  next h => exact List.count_eq_zero.2 fun hmem => h (of_decide_eq_true (List.mem_filter.1 hmem).2)

/-- Entities other than classes are the members of the class, with the superclasses that later ones
replace. -/
theorem perm_members_toClass (header : Member) {ms : List Member} (h : ∀ m ∈ ms, m.kind ≠ .header) :
    ms.Perm ((Group.toClass header ms).members ++
      (ms.filter (·.kind = .superclass)).dropLast) := by
  refine List.perm_iff_count.2 fun m => ?_
  have hsuperclass : (ms.filter (·.kind = .superclass)).getLast?.toList.count m +
      (ms.filter (·.kind = .superclass)).dropLast.count m =
        if m.kind = .superclass then ms.count m else 0 := by
    rw [← count_filter_eq (·.kind = .superclass), Nat.add_comm, ← List.count_append]
    generalize ms.filter (·.kind = .superclass) = supers
    rcases List.eq_nil_or_concat supers with rfl | ⟨front, last, rfl⟩ <;> simp
  have hheader : m.kind = .header → ms.count m = 0 :=
    fun hkind => List.count_eq_zero.2 fun hmem => h m hmem hkind
  simp only [ClassDef.members, ClassDef.declaredMembers, ClassDef.ownMembers, Group.toClass,
    Group.own, List.count_append, count_filter_eq]
  -- of the lists only that of the kind of the member counts, or the inherited ones
  rcases hkind : m.kind <;> by_cases hown : m.declaring = header.name <;>
    simp [hkind, hown] at hsuperclass hheader ⊢ <;> omega

/-- A class holds what lines say, each thing in its place. -/
structure Filed (contents : List Content) (c : ClassDef) : Prop where
  /-- The first entity, and no other, is a class; it is the header. -/
  header : ∃ ms, described contents = c.header :: ms ∧ c.header.kind = .header ∧
    ∀ m ∈ ms, m.kind ≠ .header
  /-- Constructors, methods, fields and nested types that the class declares go to their lists. -/
  own : ∀ k ∈ [.constructor, .method, .field, .inner], c.declared k =
    (described contents).filter fun m => m.kind = k ∧ m.declaring = c.name
  /-- Those that other types declare are inherited. -/
  inherited : c.inherited = (described contents).filter fun m =>
    m.kind ∈ [.constructor, .method, .field, .inner] ∧ m.declaring ≠ c.name
  /-- All interfaces and all permitted subtypes go to their lists. -/
  references : ∀ k ∈ [.interface, .permitted],
    c.declared k = (described contents).filter (·.kind = k)
  /-- The last superclass counts. -/
  superclass : c.superclass = ((described contents).filter (·.kind = .superclass)).getLast?
  /-- The hidden fields are all that are named. -/
  hiddenFields : ∀ n, n ∈ c.hiddenFields ↔ ∃ names, .hiddenFields names ∈ contents ∧ n ∈ names
  /-- So are the hidden nested types. -/
  hiddenClasses : ∀ n, n ∈ c.hiddenClasses ↔ ∃ names, .hiddenClasses names ∈ contents ∧ n ∈ names
  /-- Every entity but the superclasses that later ones replace is one member of the class. -/
  complete : (described contents).Perm (c.header :: c.members ++
    ((described contents).filter (·.kind = .superclass)).dropLast)

theorem Describes.filed {contents : List Content} {g : Group} {c : ClassDef}
    (h : Describes contents g) (hfinish : g.finish = .ok c) : Filed contents c := by
  unfold Group.finish at hfinish
  split at hfinish
  next => cases hfinish
  next header ms hreverse =>
    obtain rfl := Except.ok.inj hfinish
    have hdescribed : described contents = header :: ms := h.entities.symm.trans hreverse
    obtain ⟨hheader, hothers⟩ := h.header header.kind (ms.map (·.kind)) (by rw [hdescribed]; rfl)
    have hms : ∀ m ∈ ms, m.kind ≠ .header :=
      fun m hm heq => hothers (heq ▸ List.mem_map_of_mem hm)
    have hfilter : ∀ p : Member → Bool, p header = false →
        (described contents).filter p = ms.filter p := by
      intro p hp
      rw [hdescribed, List.filter_cons_of_neg (by simp [hp])]
    have hsuperclasses : (described contents).filter (·.kind = .superclass) =
        ms.filter (·.kind = .superclass) := hfilter _ (by simp [hheader])
    exact
      { header := ⟨ms, hdescribed, hheader, hms⟩
        own := fun k hk => by
          rw [hfilter _ (decide_eq_false fun heq => by simp [← heq.1, hheader] at hk)]
          simp only [List.mem_cons, List.not_mem_nil, or_false] at hk
          rcases hk with rfl | rfl | rfl | rfl <;> rfl
        inherited := (hfilter _ (by simp [hheader])).symm
        references := fun k hk => by
          rw [hfilter _ (decide_eq_false fun heq => by simp [← heq, hheader] at hk)]
          simp only [List.mem_cons, List.not_mem_nil, or_false] at hk
          rcases hk with rfl | rfl <;> rfl
        superclass := by
          rw [hsuperclasses]
          rfl
        hiddenFields := fun n => SortedSet.mem_ofList_iff.trans (h.hiddenFields n)
        hiddenClasses := fun n => SortedSet.mem_ofList_iff.trans (h.hiddenClasses n)
        complete := by
          rw [hsuperclasses, hdescribed]
          exact (perm_members_toClass header hms).cons header }

end Line

open Line

/-- A class that is read from a group of lines holds what the lines say, and each line says one
thing. -/
theorem filed_of_parseClass {lines : List Text} {c : ClassDef} (h : parseClass lines = .ok c) :
    ∃ contents, List.Forall₂ Says lines contents ∧
      (∀ other, List.Forall₂ Says lines other → other = contents) ∧ Filed contents c := by
  obtain ⟨g, hread, hfinish⟩ := bind_eq_ok_iff.1 h
  obtain ⟨contents, hsays, hdescribes⟩ := Describes.nil.addLines hread
  exact ⟨contents, hsays, fun other hother => forall₂_says_unique hsays hother,
    hdescribes.filed hfinish⟩

/-- Lines of all kinds, in no order. -/
def interleavedLines : List Text :=
  ["annotation:a.L", "# a comment", "class public a.B", "hiddenfields x, y", "annotation:a.M",
    "superclass a.A", "method void a.B.m()", "", "annotation:a.N", "hiddenclasses D",
    "annotation:a.M", "superclass a.C", "interface @ a.I", "method void a.C.m()", "hiddenfields ,z",
    "annotation:a.N"].map String.toList

/-- The class that they describe. -/
def interleavedClass : ClassDef where
  header :=
    { Member.typeRef .header "a.B".toList with
      modifiers := .ofList [.pub]
      annots := .ofList [{ name := "a.L".toList }, { name := "a.M".toList }] }
  superclass := some (.typeRef .superclass "a.C".toList)
  interfaces := [{ Member.typeRef .interface "a.I".toList with direct := true }]
  methods :=
    [{ kind := .method, declaring := "a.B".toList, name := "m".toList, typeName := "void".toList
       annots := .ofList [{ name := "a.M".toList }, { name := "a.N".toList }] }]
  inherited :=
    [{ kind := .method, declaring := "a.C".toList, name := "m".toList, typeName := "void".toList
       annots := .ofList [{ name := "a.N".toList }] }]
  hiddenFields := .ofList ["x".toList, "y".toList, "z".toList]
  hiddenClasses := .ofList ["D".toList]

theorem filed_of_parseClass_interleaved :
    parseClass interleavedLines = .ok interleavedClass ∧
      ∃ contents, List.Forall₂ Says interleavedLines contents ∧
        (∀ other, List.Forall₂ Says interleavedLines other → other = contents) ∧
        Filed contents interleavedClass := by
  have hread : parseClass interleavedLines = .ok interleavedClass := by decide +kernel
  exact ⟨hread, filed_of_parseClass hread⟩

end ApiSurface
