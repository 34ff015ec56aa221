import ApiSurface.Proofs.Line.Grammar
import ApiSurface.Proofs.Line.Snapshot

/-!
# The lines that a class is read from

A line of an entity is read exactly if its tokens are in the grammar or tolerated
(`parseMember_ok_iff`), and added to a group unless it is a class line behind another entity, or
another entity in front of the class line (`addLine_ok_iff`). So a group of lines is read as a class
exactly if each of its lines is in the grammar or tolerated, and the first entity, and no other, is
a class (`parseClass_accepts_iff`).
-/

namespace ApiSurface

open Text Line

namespace Line

/-! ### Whole lines -/

section Lines

variable {line body : Text} {kind : Kind} {marked : Bool} {ts : List Text}

theorem entityText_entityText (raw : Text) : entityText (entityText raw) = entityText raw := by
  have hlast := getLast?_dropEndWhile (fun c => c == '\r' || c == '\n') (trimStart raw)
  refine entityText_eq_self (fun c hc => head?_trimStart raw c ?_) (fun hr => ?_) fun hn => ?_
  · obtain ⟨dropped, heq, -⟩ :=
      exists_eq_dropEndWhile_append (fun c => c == '\r' || c == '\n') (trimStart raw)
    change (dropEndWhile _ (trimStart raw)).head? = some c at hc
    rw [heq, List.head?_append, hc]
    rfl
  · have hnot := hlast _ hr
    cases hnot
  · have hnot := hlast _ hn
    cases hnot

theorem taggedTokens_iff :
    TaggedTokens body kind ts ↔
      Kind.ofTag? (cutTag body).1 = some kind ∧ tokens (cutTag body).2 = .ok ts := by
  have hspace : ' ' ∉ kind.tag := by cases kind <;> decide
  rw [Kind.ofTag?_eq_some_iff]
  constructor
  · rintro (_ | hts)
    · have hcut : cutFirst? ' ' kind.tag = none := cutFirst?_eq_none_iff.2 hspace
      rw [cutTag, hcut]
      exact ⟨rfl, tokens_nil⟩
    · rename_i rest
      have hcut : cutFirst? ' ' (kind.tag ++ ' ' :: rest) = some (kind.tag, rest) :=
        cutFirst?_eq_some_iff.2 ⟨rfl, hspace⟩
      rw [cutTag, hcut]
      exact ⟨rfl, hts⟩
  · rintro ⟨htag, hts⟩
    rw [cutTag] at htag hts
    rcases hcut : cutFirst? ' ' body with _ | ⟨tag, rest⟩
    · rw [hcut] at htag hts
      obtain rfl : body = kind.tag := htag
      obtain rfl : [] = ts := Except.ok.inj (tokens_nil.symm.trans hts)
      exact .tag kind
    · rw [hcut] at htag hts
      obtain rfl : tag = kind.tag := htag
      rw [(cutFirst?_eq_some_iff.1 hcut).1]
      exact .tokens hts

/-- The line of an entity starts with the first letter of a tag, or with an at sign. -/
theorem TaggedTokens.head? (h : TaggedTokens body kind ts) :
    ∃ c ∈ body.head?, c ∈ ['c', 's', 'i', 'm', 'f', 'p'] := by
  cases h with
  | tag => cases kind <;> exact ⟨_, rfl, by decide⟩
  | tokens => cases kind <;> exact ⟨_, rfl, by decide⟩

theorem entityLine_iff :
    EntityLine line kind marked ts ↔ (takeMark line).1 = marked ∧
      (marked = true → kind = .interface) ∧ TaggedTokens (takeMark line).2 kind ts := by
  constructor
  · rintro (h | ⟨hblanks, h⟩)
    · have hmark : takeMark line = (false, line) := by
        obtain ⟨c, hc, hletter⟩ := h.head?
        unfold takeMark
        split
        next =>
          cases hc
          exact absurd hletter (by decide)
        next => rfl
      rw [hmark]
      exact ⟨rfl, (fun hm => nomatch hm), h⟩
    · rename_i blanks body
      have hbody : trimStart (blanks ++ body) = body := by
        obtain ⟨c, hc, hletter⟩ := h.head?
        rw [trimStart, List.dropWhile_append_of_pos hblanks]
        refine dropWhile_eq_self fun d hd => ?_
        obtain rfl : c = d := Option.some.inj (hc.symm.trans hd)
        simp only [List.mem_cons, List.not_mem_nil, or_false] at hletter
        rcases hletter with rfl | rfl | rfl | rfl | rfl | rfl <;> decide
      rw [takeMark, hbody]
      exact ⟨rfl, fun _ => rfl, h⟩
  · rintro ⟨rfl, hkind, h⟩
    unfold takeMark at hkind h ⊢
    split at h
    next r =>
      obtain rfl := hkind rfl
      have hparts : r.takeWhile isBlank ++ trimStart r = r := List.takeWhile_append_dropWhile
      have hblanks : ∀ c ∈ r.takeWhile isBlank, isBlank c = true :=
        List.all_eq_true.1 List.all_takeWhile
      have hline := EntityLine.marked hblanks h
      rwa [hparts] at hline
    next => exact .plain h

/-- The tag of an entity line is its kind's. -/
theorem EntityLine.lineKind? (h : EntityLine line kind marked ts) :
    Line.lineKind? line = some kind :=
  (taggedTokens_iff.1 (entityLine_iff.1 h).2.2).1

theorem EntityLine.unique {kind' : Kind} {marked' : Bool} {us : List Text}
    (h : EntityLine line kind marked ts) (h' : EntityLine line kind' marked' us) :
    kind = kind' ∧ marked = marked' ∧ ts = us := by
  have hkind := h.lineKind?.symm.trans h'.lineKind?
  obtain ⟨hmark, -, htokens⟩ := entityLine_iff.1 h
  obtain ⟨hmark', -, htokens'⟩ := entityLine_iff.1 h'
  have hts := (taggedTokens_iff.1 htokens).2.symm.trans (taggedTokens_iff.1 htokens').2
  exact ⟨Option.some.inj hkind, hmark.symm.trans hmark', Except.ok.inj hts⟩

/-- An entity line is read as its tokens are. -/
theorem readDraft_iff_entityLine {raw : Text} {d : Member.Draft} :
    (readDraft raw).result = .ok d ↔ ∃ kind marked ts, EntityLine (entityText raw) kind marked ts ∧
      (readTokens kind marked ts).result = .ok d := by
  rw [readDraft_eq_ok_iff]
  constructor
  · rintro ⟨kind, ts, hkind, hmarked, htokens, hread⟩
    exact ⟨kind, _, ts, entityLine_iff.2 ⟨rfl, hmarked, taggedTokens_iff.2 ⟨hkind, htokens⟩⟩, hread⟩
  · rintro ⟨kind, marked, ts, hline, hread⟩
    obtain ⟨rfl, hmarked, htagged⟩ := entityLine_iff.1 hline
    obtain ⟨hkind, htokens⟩ := taggedTokens_iff.1 htagged
    exact ⟨kind, ts, hkind, hmarked, htokens, hread⟩

/-- A line is read as a member exactly if its tokens are in the grammar or tolerated. -/
theorem parseMember_ok_iff {raw : Text} :
    (∃ m, parseMember raw = .ok m ∧ m.kind = kind) ↔ ∃ marked ts,
      EntityLine (entityText raw) kind marked ts ∧
        (Documented kind marked ts ∨ Tolerated kind marked ts) := by
  constructor
  · rintro ⟨m, h, rfl⟩
    obtain ⟨d, hdraft, hmember⟩ := parseMember_eq_ok_iff.1 h
    obtain ⟨hmods, rfl⟩ := Member.setModifiers?_eq_ok_iff.1 hmember
    obtain ⟨kind, marked, ts, hline, hread⟩ := readDraft_iff_entityLine.1 hdraft
    have hreads := reads_tokens (entityLine_iff.1 hline).2.1
    obtain rfl := hreads.draftKind ts d hread
    exact ⟨marked, ts, hline, hreads.sound ts d hread hmods⟩
  · rintro ⟨marked, ts, hline, hts⟩
    obtain ⟨d, hread, hmods⟩ := (reads_tokens (entityLine_iff.1 hline).2.1).complete ts hts
    obtain rfl := (reads_tokens (entityLine_iff.1 hline).2.1).draftKind ts d hread
    exact ⟨_, parseMember_eq_ok_iff.2 ⟨d, readDraft_iff_entityLine.2 ⟨_, marked, ts, hline, hread⟩,
      Member.setModifiers?_eq_ok_iff.2 ⟨hmods, rfl⟩⟩, rfl⟩

/-- The tag of a line that is read as a member is its kind's. -/
theorem lineKind?_of_parseMember {raw : Text} {m : Member}
    (h : parseMember (entityText raw) = .ok m) : lineKind? (entityText raw) = some m.kind := by
  obtain ⟨marked, ts, hline, -⟩ := parseMember_ok_iff.1 ⟨m, h, rfl⟩
  rw [entityText_entityText] at hline
  exact hline.lineKind?

/-! ### Groups of lines -/

/-- A line with a kind starts with the first letter of a tag, or with an at sign. -/
theorem head?_of_lineKind? (h : lineKind? line = some kind) :
    ∃ c ∈ line.head?, c ∈ ['@', 'c', 's', 'i', 'm', 'f', 'p'] := by
  have htag := Kind.ofTag?_eq_some_iff.1 h
  unfold takeMark at htag
  split at htag
  next => exact ⟨'@', rfl, List.mem_cons_self⟩
  next =>
    obtain ⟨rest, hline⟩ := prefix_cutTag line
    rw [hline, htag]
    cases kind <;> exact ⟨_, rfl, by decide⟩

/-- A line that starts as the line of an entity does is read as one. -/
theorem addLine_of_head? (g : Group) {raw : Text}
    (h : ∃ c ∈ (entityText raw).head?, c ∈ ['@', 'c', 's', 'i', 'm', 'f', 'p']) :
    g.addLine raw = parseMember (entityText raw) >>= fun m => g.addEntity m (entityText raw) := by
  obtain ⟨c, hc, hletter⟩ := h
  rcases hline : entityText raw with _ | ⟨d, r⟩
  · rw [hline] at hc
    cases hc
  · rw [hline] at hc
    obtain rfl : d = c := Option.some.inj hc
    unfold Group.addLine
    rw [hline]
    simp only [List.mem_cons, List.not_mem_nil, or_false] at hletter
    rcases hletter with rfl | rfl | rfl | rfl | rfl | rfl | rfl <;> rfl

theorem entities_addAnnot_eq_nil_iff (g : Group) (a : Annot) :
    (g.addAnnot a).entities = [] ↔ g.entities = [] := by
  unfold Group.addAnnot
  split
  next hnil => simp [hnil]
  next hcons => simp [hcons]

/-- The first entity is a class and no other is. -/
theorem addEntity_ok_iff {g : Group} {m : Member} :
    (∃ g', g.addEntity m line = .ok g') ↔ (g.entities = [] ↔ m.kind = .header) := by
  simp only [Group.addEntity_eq_ok_iff, exists_or, exists_and_left, exists_eq, and_true]
  exact iff_iff_and_or_not_and_not.symm

theorem entities_ne_nil_of_addEntity {g g' : Group} {m : Member}
    (h : g.addEntity m line = .ok g') : g'.entities ≠ [] := by
  rcases Group.addEntity_eq_ok_iff.1 h with ⟨-, -, rfl⟩ | ⟨-, -, rfl⟩ <;> exact List.cons_ne_nil _ _

/-- A line that is read in some group: one that says nothing, one of the grammar or one that is
tolerated. -/
def IsReadable (line : Text) : Prop :=
  isIgnored line = true ∨ DocumentedLine line ∨ ToleratedLine line

theorem isReadable_iff_of_lineKind? (hkind : lineKind? line = some kind) :
    IsReadable line ↔
      ∃ marked ts, EntityLine line kind marked ts ∧
        (Documented kind marked ts ∨ Tolerated kind marked ts) := by
  obtain ⟨c, hc, hletter⟩ := head?_of_lineKind? hkind
  have hstart : ∀ d rest, line = d :: rest → d ∈ ['@', 'c', 's', 'i', 'm', 'f', 'p'] := by
    rintro d rest rfl
    obtain rfl := Option.some.inj hc
    exact hletter
  have hhidden : ∀ {tag rest}, tag ∈ [ClassDef.hiddenFieldsTag, ClassDef.hiddenClassesTag] →
      line ≠ tag ++ rest := by
    intro tag rest htag heq
    simp only [List.mem_cons, List.not_mem_nil, or_false] at htag
    rcases htag with rfl | rfl <;> exact absurd (hstart 'h' _ heq) (by decide)
  have hentity : ∀ {kind' marked ts}, EntityLine line kind' marked ts → kind' = kind :=
    fun hline => Option.some.inj (hline.lineKind?.symm.trans hkind)
  constructor
  · rintro (h | h | h)
    · rcases line with _ | ⟨d, rest⟩
      · cases hc
      · obtain rfl : d = '#' := by simpa [isIgnored] using h
        exact absurd (hstart _ _ rfl) (by decide)
    · cases h with
      | annot => exact absurd (hstart 'a' _ rfl) (by decide)
      | noneHidden htag => exact absurd (List.append_nil _).symm (hhidden htag)
      | hidden htag => exact absurd rfl (hhidden htag)
      | entity hline hts =>
        obtain rfl := hentity hline
        exact ⟨_, _, hline, .inl hts⟩
    · cases h with
      | hidden htag => exact absurd rfl (hhidden htag)
      | entity hline hts =>
        obtain rfl := hentity hline
        exact ⟨_, _, hline, .inr hts⟩
  · rintro ⟨marked, ts, hline, hts⟩
    exact .inr (hts.imp (.entity hline) (.entity hline))

theorem isReadable_iff_of_lineKind?_eq_none (hkind : lineKind? line = none) :
    IsReadable line ↔ isIgnored line = true ∨
      (∃ rest a, line = Annot.lineTag ++ rest ∧ Annot.ofLine? line = some a) ∨
      ∃ tag ∈ [ClassDef.hiddenFieldsTag, ClassDef.hiddenClassesTag], ∃ rest, line = tag ++ rest := by
  have hentity : ∀ {kind marked ts}, ¬ EntityLine line kind marked ts :=
    fun hline => nomatch hkind.symm.trans hline.lineKind?
  refine or_congr Iff.rfl ?_
  constructor
  · rintro (h | h)
    · cases h with
      | annot ha => exact .inl ⟨_, _, rfl, ha⟩
      | noneHidden htag => exact .inr ⟨_, htag, [], (List.append_nil _).symm⟩
      | hidden htag => exact .inr ⟨_, htag, _, rfl⟩
      | entity hline => exact absurd hline hentity
    · cases h with
      | hidden htag => exact .inr ⟨_, htag, _, rfl⟩
      | entity hline => exact absurd hline hentity
  · rintro (⟨rest, a, rfl, ha⟩ | ⟨tag, htag, _ | ⟨c, rest⟩, rfl⟩)
    · exact .inl (.annot ha)
    · rw [List.append_nil]
      exact .inl (.noneHidden htag)
    · by_cases hc : c = ' '
      · exact .inl (hc ▸ .hidden htag)
      · exact .inr (.hidden htag hc)

/-- Of the lines without the tag of an entity the readable ones are read. -/
theorem addLine_ok_iff_of_lineKind?_eq_none (g : Group) {raw : Text}
    (hkind : lineKind? (entityText raw) = none) :
    (∃ g', g.addLine raw = .ok g') ↔ IsReadable (entityText raw) := by
  have hmember : ∀ m, parseMember (entityText raw) ≠ .ok m :=
    fun m hm => nomatch hkind.symm.trans (lineKind?_of_parseMember hm)
  rw [isReadable_iff_of_lineKind?_eq_none hkind]
  unfold Group.addLine
  generalize entityText raw = line at *
  dsimp only
  split
  next hignored => exact ⟨fun _ => .inl hignored, fun _ => ⟨g, rfl⟩⟩
  next hignored =>
  split
  next hannot =>
    obtain ⟨rest, hrest⟩ := Option.isSome_iff_exists.1 hannot
    obtain rfl := after?_eq_some_iff.1 hrest
    constructor
    · rintro ⟨g', h⟩
      obtain ⟨a, ha, -⟩ := map_eq_ok_iff.1 h
      exact .inr (.inl ⟨rest, a, rfl, parseAnnot_ok_iff.1 ha⟩)
    · rintro (h | ⟨-, a, -, ha⟩ | ⟨tag, htag, rest', heq⟩)
      · exact absurd h hignored
      · exact ⟨g.addAnnot a, map_eq_ok_iff.2 ⟨a, parseAnnot_ok_iff.2 ha, rfl⟩⟩
      · simp only [List.mem_cons, List.not_mem_nil, or_false] at htag
        rcases htag with rfl | rfl <;> cases (List.cons.inj heq).1
  next hannot =>
  split
  next rest hrest =>
    exact ⟨fun _ => .inr (.inr ⟨_, List.mem_cons_self, rest, after?_eq_some_iff.1 hrest⟩),
      fun _ => ⟨_, rfl⟩⟩
  next hfields =>
  split
  next rest hrest =>
    exact ⟨fun _ => .inr (.inr ⟨_, List.mem_cons_of_mem _ List.mem_cons_self, rest,
      after?_eq_some_iff.1 hrest⟩), fun _ => ⟨_, rfl⟩⟩
  next hclasses =>
    constructor
    · rintro ⟨g', h⟩
      obtain ⟨m, hm, -⟩ := bind_eq_ok_iff.1 h
      exact absurd hm (hmember m)
    · rintro (h | ⟨rest, a, heq, -⟩ | ⟨tag, htag, rest, heq⟩)
      · exact absurd h hignored
      · rw [after?_eq_some_iff.2 heq] at hannot
        exact absurd rfl hannot
      · simp only [List.mem_cons, List.not_mem_nil, or_false] at htag
        rcases htag with rfl | rfl
        · cases hfields.symm.trans (after?_eq_some_iff.2 heq)
        · cases hclasses.symm.trans (after?_eq_some_iff.2 heq)

theorem entities_of_addLine_of_lineKind?_eq_none {g g' : Group} {raw : Text}
    (hkind : lineKind? (entityText raw) = none) (h : g.addLine raw = .ok g') :
    g'.entities = [] ↔ g.entities = [] := by
  rcases Group.of_addLine h with
    ⟨-, rfl⟩ | ⟨a, -, -, rfl⟩ | ⟨rest, -, rfl⟩ | ⟨rest, -, rfl⟩ | ⟨m, hm, -⟩
  · exact Iff.rfl
  · exact entities_addAnnot_eq_nil_iff g a
  · exact Iff.rfl
  · exact Iff.rfl
  · cases hkind.symm.trans (lineKind?_of_parseMember hm)

/-- A line is read if it is readable and, with the tag of an entity, if it is a class exactly as
the first entity of its group. -/
theorem addLine_ok_iff {g : Group} {raw : Text} :
    (∃ g', g.addLine raw = .ok g') ↔ IsReadable (entityText raw) ∧
      ∀ kind, lineKind? (entityText raw) = some kind → (g.entities = [] ↔ kind = .header) := by
  rcases hkind : lineKind? (entityText raw) with _ | kind
  · rw [addLine_ok_iff_of_lineKind?_eq_none g hkind]
    exact (and_iff_left fun _ h => nomatch h).symm
  have hmember : IsReadable (entityText raw) ↔
      ∃ m, parseMember (entityText raw) = .ok m ∧ m.kind = kind := by
    rw [isReadable_iff_of_lineKind? hkind, parseMember_ok_iff, entityText_entityText]
  rw [addLine_of_head? g (head?_of_lineKind? hkind), hmember]
  constructor
  · rintro ⟨g', h⟩
    obtain ⟨m, hm, hadd⟩ := bind_eq_ok_iff.1 h
    obtain rfl := Option.some.inj ((lineKind?_of_parseMember hm).symm.trans hkind)
    refine ⟨⟨m, hm, rfl⟩, fun k hk => ?_⟩
    obtain rfl := Option.some.inj hk
    exact addEntity_ok_iff.1 ⟨g', hadd⟩
  · rintro ⟨⟨m, hm, rfl⟩, horder⟩
    obtain ⟨g', hadd⟩ := addEntity_ok_iff.2 (horder m.kind rfl)
    exact ⟨g', bind_eq_ok_iff.2 ⟨m, hm, hadd⟩⟩

/-- A group has an entity after a line with the tag of one. -/
theorem entities_eq_nil_iff_of_addLine {g g' : Group} {raw : Text} (h : g.addLine raw = .ok g') :
    g'.entities = [] ↔ g.entities = [] ∧ lineKind? (entityText raw) = none := by
  rcases hkind : lineKind? (entityText raw) with _ | kind
  · exact (entities_of_addLine_of_lineKind?_eq_none hkind h).trans (and_iff_left rfl).symm
  · rw [addLine_of_head? g (head?_of_lineKind? hkind)] at h
    obtain ⟨m, -, hadd⟩ := bind_eq_ok_iff.1 h
    exact iff_of_false (entities_ne_nil_of_addEntity hadd) fun hk => nomatch hk.2

/-- A kind more in front is in order exactly if it is a class where nothing was before, and no other
kind is. -/
theorem exists_header_append_cons_iff {fresh : Prop} [Decidable fresh] {kinds : List Kind} :
    (∃ others, kind :: kinds = (if fresh then [Kind.header] else []) ++ others ∧
      Kind.header ∉ others) ↔ (fresh ↔ kind = .header) ∧ Kind.header ∉ kinds := by
  by_cases h : fresh
  · simp only [h, if_true, List.singleton_append, List.cons.injEq, true_iff]
    constructor
    · rintro ⟨others, ⟨hkind, rfl⟩, hnot⟩
      exact ⟨hkind, hnot⟩
    · rintro ⟨hkind, hnot⟩
      exact ⟨kinds, ⟨hkind, rfl⟩, hnot⟩
  · simp only [h, if_false, List.nil_append, false_iff]
    constructor
    · rintro ⟨others, rfl, hnot⟩
      exact ⟨(List.ne_of_not_mem_cons hnot).symm, List.not_mem_of_not_mem_cons hnot⟩
    · rintro ⟨hne, hnot⟩
      exact ⟨_, rfl, List.not_mem_cons_of_ne_of_not_mem (Ne.symm hne) hnot⟩

/-- The lines of a group are read exactly if all are readable and, unless the group has entities
already, the first entity among them is a class and no other is. -/
theorem foldlM_addLine_ok_iff (raws : List Text) (g : Group) :
    (∃ g', raws.foldlM Group.addLine g = .ok g' ∧ g'.entities ≠ []) ↔
      (∀ raw ∈ raws, IsReadable (entityText raw)) ∧
      ∃ kinds, raws.filterMap (fun raw => lineKind? (entityText raw)) =
        (if g.entities = [] then [Kind.header] else []) ++ kinds ∧ Kind.header ∉ kinds := by
  induction raws generalizing g with
  | nil =>
    by_cases hnil : g.entities = []
    · simp [hnil, pure, Except.pure]
    · simp [hnil, pure, Except.pure]
  | cons raw raws ih =>
    have hstep : (∃ g', (raw :: raws).foldlM Group.addLine g = .ok g' ∧ g'.entities ≠ []) ↔
        ∃ g₁, g.addLine raw = .ok g₁ ∧
          ∃ g', raws.foldlM Group.addLine g₁ = .ok g' ∧ g'.entities ≠ [] := by
      simp only [List.foldlM_cons, bind_eq_ok_iff]
      constructor
      · rintro ⟨g', ⟨g₁, hg₁, hrest⟩, hne⟩
        exact ⟨g₁, hg₁, g', hrest, hne⟩
      · rintro ⟨g₁, hg₁, g', hrest, hne⟩
        exact ⟨g', ⟨g₁, hg₁, hrest⟩, hne⟩
    simp only [hstep, ih, List.forall_mem_cons]
    rcases hkind : lineKind? (entityText raw) with _ | kind
    · rw [List.filterMap_cons_none (f := fun raw => lineKind? (entityText raw)) hkind]
      constructor
      · rintro ⟨g₁, hg₁, hreadable, hkinds⟩
        have hsame := entities_of_addLine_of_lineKind?_eq_none hkind hg₁
        simp only [hsame] at hkinds
        exact ⟨⟨(addLine_ok_iff.1 ⟨g₁, hg₁⟩).1, hreadable⟩, hkinds⟩
      · rintro ⟨⟨hline, hreadable⟩, hkinds⟩
        obtain ⟨g₁, hg₁⟩ := (addLine_ok_iff_of_lineKind?_eq_none g hkind).2 hline
        refine ⟨g₁, hg₁, hreadable, ?_⟩
        simpa only [entities_of_addLine_of_lineKind?_eq_none hkind hg₁] using hkinds
    · rw [List.filterMap_cons_some (f := fun raw => lineKind? (entityText raw)) hkind,
        exists_header_append_cons_iff]
      have hfilled : ∀ {g₁}, g.addLine raw = .ok g₁ → g₁.entities ≠ [] := fun hg₁ heq =>
        nomatch hkind.symm.trans ((entities_eq_nil_iff_of_addLine hg₁).1 heq).2
      constructor
      · rintro ⟨g₁, hg₁, hreadable, kinds, hkinds, hnot⟩
        obtain ⟨hline, horder⟩ := addLine_ok_iff.1 ⟨g₁, hg₁⟩
        rw [if_neg (hfilled hg₁), List.nil_append] at hkinds
        exact ⟨⟨hline, hreadable⟩, horder kind hkind, hkinds ▸ hnot⟩
      · rintro ⟨⟨hline, hreadable⟩, horder, hnot⟩
        have hkinds : ∀ k, lineKind? (entityText raw) = some k →
            (g.entities = [] ↔ k = .header) := by
          intro k hk
          rwa [← Option.some.inj (hkind.symm.trans hk)]
        obtain ⟨g₁, hg₁⟩ := addLine_ok_iff.2 ⟨hline, hkinds⟩
        refine ⟨g₁, hg₁, hreadable, _, ?_, hnot⟩
        rw [if_neg (hfilled hg₁), List.nil_append]

/-- A line of hidden names has one tag. -/
theorem hiddenTag_unique {tag tag' rest rest' : Text}
    (htag : tag ∈ [ClassDef.hiddenFieldsTag, ClassDef.hiddenClassesTag])
    (htag' : tag' ∈ [ClassDef.hiddenFieldsTag, ClassDef.hiddenClassesTag])
    (heq : tag ++ rest = tag' ++ rest') : rest = rest' := by
  have hletter := congrArg (fun t : Text => t[6]?) heq
  simp only [List.mem_cons, List.not_mem_nil, or_false] at htag htag'
  rcases htag with rfl | rfl <;> rcases htag' with rfl | rfl
  · exact List.append_cancel_left heq
  · exact absurd (Option.some.inj (show some 'f' = some 'c' from hletter)) (by decide)
  · exact absurd (Option.some.inj (show some 'c' = some 'f' from hletter)) (by decide)
  · exact List.append_cancel_left heq

/-- A line of the grammar is not only tolerated. -/
theorem DocumentedLine.not_tolerated (h : DocumentedLine line) : ¬ ToleratedLine line := by
  have hentity : ∀ {kind marked ts}, EntityLine line kind marked ts →
      ∀ c ∈ line.head?, c ∈ ['@', 'c', 's', 'i', 'm', 'f', 'p'] := by
    intro kind marked ts hline c hc
    obtain ⟨d, hd, hletter⟩ := head?_of_lineKind? hline.lineKind?
    obtain rfl := Option.some.inj (hc.symm.trans hd)
    exact hletter
  intro htolerated
  rw [toleratedLine_iff] at htolerated
  rcases htolerated with ⟨tag, rest, c, htag, hc, heq⟩ | ⟨kind, marked, ts, hline, hts⟩
  · cases h with
    | annot =>
      simp only [List.mem_cons, List.not_mem_nil, or_false] at htag
      rcases htag with rfl | rfl <;> cases (List.cons.inj heq).1
    | noneHidden htag' => cases hiddenTag_unique htag' htag ((List.append_nil _).trans heq)
    | hidden htag' => exact hc (List.cons.inj (hiddenTag_unique htag' htag heq)).1.symm
    | entity hline =>
      have hhead := hentity hline 'h'
      simp only [List.mem_cons, List.not_mem_nil, or_false] at htag
      rcases htag with rfl | rfl <;> exact absurd (hhead (heq ▸ rfl)) (by decide)
  · cases h with
    | annot => exact absurd (hentity hline 'a' rfl) (by decide)
    | noneHidden htag =>
      simp only [List.mem_cons, List.not_mem_nil, or_false] at htag
      rcases htag with rfl | rfl <;> exact absurd (hentity hline 'h' rfl) (by decide)
    | hidden htag =>
      simp only [List.mem_cons, List.not_mem_nil, or_false] at htag
      rcases htag with rfl | rfl <;> exact absurd (hentity hline 'h' rfl) (by decide)
    | entity hline' hts' =>
      obtain ⟨rfl, rfl, rfl⟩ := hline.unique hline'
      exact hts'.not_tolerated hts

theorem finish_ok_iff {g : Group} : (∃ c, g.finish = .ok c) ↔ g.entities ≠ [] := by
  unfold Group.finish
  split
  next hnil => simp [List.reverse_eq_nil_iff.1 hnil]
  next header ms hcons =>
    have hne : g.entities ≠ [] := fun heq => by simp [heq] at hcons
    simp [hne]

end Lines

end Line

open Line

/-- A group of lines is read as a class exactly if each of its lines says nothing, is in the
grammar or is tolerated, and its first entity, and no other, is a class. No line is in the grammar
and only tolerated. -/
theorem parseClass_accepts_iff (lines : List Text) :
    ((∃ c, parseClass lines = .ok c) ↔
      (∀ raw ∈ lines, isIgnored (entityText raw) = true ∨ DocumentedLine (entityText raw) ∨
        ToleratedLine (entityText raw)) ∧
      ∃ kinds, lines.filterMap (fun raw => lineKind? (entityText raw)) = .header :: kinds ∧
        .header ∉ kinds) ∧
    ∀ line, ¬ (DocumentedLine line ∧ ToleratedLine line) := by
  refine ⟨?_, fun line h => h.1.not_tolerated h.2⟩
  have hgroup := foldlM_addLine_ok_iff lines {}
  simp only [if_true, List.singleton_append] at hgroup
  refine Iff.trans ?_ hgroup
  constructor
  · rintro ⟨c, h⟩
    obtain ⟨g, hg, hfinish⟩ := bind_eq_ok_iff.1 h
    exact ⟨g, hg, finish_ok_iff.1 ⟨c, hfinish⟩⟩
  · rintro ⟨g, hg, hne⟩
    obtain ⟨c, hc⟩ := finish_ok_iff.2 hne
    exact ⟨c, bind_eq_ok_iff.2 ⟨g, hg, hc⟩⟩

/-- A second name on the line of a superclass, and a letter behind the tag of hidden fields, are
not in the grammar and are read. -/
theorem undocumented_lines_read :
    (parseClass ["class a.A".toList, "superclass a.B a.C".toList]).isOk = true ∧
    ¬ DocumentedLine "superclass a.B a.C".toList ∧
    (parseClass ["class a.A".toList, "hiddenfieldsx".toList]).isOk = true ∧
    ¬ DocumentedLine "hiddenfieldsx".toList := by
  have hsuperclass : TaggedTokens (Kind.superclass.tag ++ ' ' :: "a.B a.C".toList) .superclass
      (["a.B".toList] ++ ["a.C".toList]) := .tokens (by decide +kernel)
  have hsurplus : Tolerated .superclass false (["a.B".toList] ++ ["a.C".toList]) :=
    .surplus (by decide) (by decide) nofun
  have hletter : ToleratedLine (ClassDef.hiddenFieldsTag ++ 'x' :: []) :=
    .hidden (by decide) (by decide)
  exact ⟨by decide +kernel,
    fun h => h.not_tolerated (.entity (.plain hsuperclass) hsurplus),
    by decide +kernel, fun h => h.not_tolerated hletter⟩

end ApiSurface
