import ApiSurface.Line.Group
import ApiSurface.Proofs.Line.Annot
import ApiSurface.Proofs.Line.Entity

/-!
# Class groups read back

The lines of a well-formed class are read as that class (`parseClass_lines`): every line adds its
entity, its annotation or its hidden names to what the lines before it said, and at the end the
members are put in their places again (`toClass_below`).
-/

namespace ApiSurface

open Text Line

/-! ### Well-formed classes -/

/-- A hidden name is not empty, has no blanks at its ends, and nothing in its line cuts it. -/
def IsHiddenName (n : Text) : Prop := n ≠ [] ∧ trim n = n ∧ ',' ∉ n ∧ '\n' ∉ n

/-- What a class has to satisfy for its lines to say all of it. -/
@[mk_iff]
structure ClassDef.WellFormed (c : ClassDef) : Prop where
  /-- The header is one. -/
  header : c.header.kind = .header
  /-- Every list holds members of its kind. -/
  kinds : ∀ k, ∀ m ∈ c.declared k, m.kind = k
  /-- Constructors, methods, fields and nested types are declared by the class. -/
  own : ∀ m ∈ c.ownMembers ++ c.nested, m.declaring = c.name
  /-- Another type declares the others. -/
  inherited : ∀ m ∈ c.inherited,
    m.kind ∈ [.constructor, .method, .field, .inner] ∧ m.declaring ≠ c.name
  /-- The members are well-formed. -/
  members : ∀ m ∈ c.written, m.WellFormed
  /-- So are their annotations. -/
  annots : ∀ m ∈ c.written, ∀ a ∈ m.annots, a.WellFormed
  /-- The names of hidden fields can be told apart. -/
  hiddenFields : ∀ n ∈ c.hiddenFields, IsHiddenName n
  /-- So can the names of hidden nested types. -/
  hiddenClasses : ∀ n ∈ c.hiddenClasses, IsHiddenName n

instance (n : Text) : Decidable (IsHiddenName n) := inferInstanceAs (Decidable (_ ∧ _))

instance (c : ClassDef) : Decidable c.WellFormed := decidable_of_iff' _ (c.wellFormed_iff)

/-- The kinds of what a class writes below its header, in that order. -/
def Kind.below : List Kind :=
  [superclass, interface, permitted, constructor, method, field, inner]

/-- What a class writes below its header, except for hidden names. -/
def ClassDef.below (c : ClassDef) : List Member := Kind.below.flatMap c.declared ++ c.inherited

theorem ClassDef.written_eq (c : ClassDef) : c.written = c.header :: c.below := by
  simp [written, below, Kind.below, declared, ownMembers]

/-- What the class declares itself is told apart from what it inherits by the declaring type. -/
theorem ClassDef.WellFormed.declaring_eq {c : ClassDef} (h : c.WellFormed) {k : Kind}
    (hk : k ∈ [.constructor, .method, .field, .inner]) :
    ∀ m ∈ c.declared k, m.declaring = c.name := by
  intro m hm
  refine h.own m ?_
  simp only [ownMembers, List.mem_append]
  simp only [List.mem_cons, List.not_mem_nil, or_false] at hk
  rcases hk with rfl | rfl | rfl | rfl
  · exact .inl (.inl (.inl hm))
  · exact .inl (.inl (.inr hm))
  · exact .inl (.inr hm)
  · exact .inr hm

/-- No class is written below the header. -/
theorem ClassDef.WellFormed.kind_ne_header {c : ClassDef} (h : c.WellFormed) :
    ∀ m ∈ c.below, m.kind ≠ .header := by
  intro m hm heq
  rcases List.mem_append.1 hm with hm | hm
  · obtain ⟨k, hk, hmk⟩ := List.mem_flatMap.1 hm
    rw [← h.kinds k m hmk, heq] at hk
    exact absurd hk (by decide)
  · have hlist := (h.inherited m hm).1
    rw [heq] at hlist
    exact absurd hlist (by decide)

namespace Line

/-! ### One line -/

namespace Group

variable {g : Group} {m : Member}

/-- The line of a member adds the member without its annotations. -/
theorem addLine_line (h : m.WellFormed) :
    g.addLine m.line = g.addEntity { m with annots := ∅ } m.line := by
  obtain ⟨rest, hline⟩ := Member.exists_line_eq m
  have hignored : isIgnored m.line = false := by
    rw [hline]
    cases m.kind <;> rfl
  have hannot : after? Annot.lineTag m.line = none := by
    rw [hline]
    cases m.kind <;> rfl
  have hfields : after? ClassDef.hiddenFieldsTag m.line = none := by
    rw [hline]
    cases m.kind <;> rfl
  have hclasses : after? ClassDef.hiddenClassesTag m.line = none := by
    rw [hline]
    cases m.kind <;> rfl
  simp only [addLine, Member.entityText_line h, hignored, hannot, hfields, hclasses,
    Member.parseMember_line h, Option.isSome_none, Bool.false_eq_true, if_false]
  rfl

/-- The line of an annotation adds the annotation. -/
theorem addLine_annot {a : Annot} (h : a.WellFormed) : g.addLine a.line = .ok (g.addAnnot a) := by
  have hignored : isIgnored a.line = false := rfl
  have hafter : after? Annot.lineTag a.line = some a.text := after?_eq_some_iff.2 rfl
  have hannot : (after? Annot.lineTag a.line).isSome = true := by
    rw [hafter]
    rfl
  simp only [addLine, Annot.entityText_line h, hignored, hannot, if_true,
    parseAnnot_line h.readable, Bool.false_eq_true, if_false]
  rfl

/-- What a line can do to a group: nothing, add an annotation, hidden names or a member. -/
theorem of_addLine {g' : Group} {raw : Text} (h : g.addLine raw = .ok g') :
    (isIgnored (entityText raw) = true ∧ g' = g) ∨
      (∃ a, (∃ rest, entityText raw = Annot.lineTag ++ rest) ∧
        Annot.ofLine? (entityText raw) = some a ∧ g' = g.addAnnot a) ∨
      (∃ rest, entityText raw = ClassDef.hiddenFieldsTag ++ rest ∧
        g' = { g with hiddenFields := g.hiddenFields ++ hiddenNames rest }) ∨
      (∃ rest, entityText raw = ClassDef.hiddenClassesTag ++ rest ∧
        g' = { g with hiddenClasses := g.hiddenClasses ++ hiddenNames rest }) ∨
      ∃ m, parseMember (entityText raw) = .ok m ∧ g.addEntity m (entityText raw) = .ok g' := by
  unfold addLine at h
  dsimp only at h
  split at h
  next hignored => exact .inl ⟨hignored, (Except.ok.inj h).symm⟩
  next =>
  split at h
  next htag =>
    obtain ⟨a, ha, rfl⟩ := map_eq_ok_iff.1 h
    obtain ⟨rest, hrest⟩ := Option.isSome_iff_exists.1 htag
    exact .inr (.inl ⟨a, ⟨rest, after?_eq_some_iff.1 hrest⟩, parseAnnot_ok_iff.1 ha, rfl⟩)
  next =>
  split at h
  next rest hrest =>
    exact .inr (.inr (.inl ⟨rest, after?_eq_some_iff.1 hrest, (Except.ok.inj h).symm⟩))
  next =>
  split at h
  next rest hrest =>
    exact .inr (.inr (.inr (.inl ⟨rest, after?_eq_some_iff.1 hrest, (Except.ok.inj h).symm⟩)))
  next =>
    obtain ⟨m, hm, hadd⟩ := bind_eq_ok_iff.1 h
    exact .inr (.inr (.inr (.inr ⟨m, hm, hadd⟩)))

/-- The first member of a group is the class itself, and takes over the annotations in front of it;
no other is a class. -/
theorem addEntity_eq_ok_iff {g' : Group} {line : Text} : g.addEntity m line = .ok g' ↔
    (g.entities = [] ∧ m.kind = .header ∧
        g' = { g with entities := [g.leading.foldr annotate m] }) ∨
      g.entities ≠ [] ∧ m.kind ≠ .header ∧ g' = { g with entities := m :: g.entities } := by
  unfold addEntity
  split
  next hnil => by_cases hkind : m.kind = .header <;> simp [hnil, hkind, eq_comm]
  next hne =>
    have hne : g.entities ≠ [] := hne
    by_cases hkind : m.kind = .header <;> simp [hne, hkind, eq_comm]

/-! ### The lines of a member -/

theorem mem_foldl_insert_iff {l : List Annot} {s : SortedSet Annot} {a : Annot} :
    a ∈ l.foldl (fun s b => s.insert b) s ↔ a ∈ s ∨ a ∈ l := by
  induction l generalizing s with
  | nil => simp
  | cons b l ih =>
    rw [List.foldl_cons, ih, SortedSet.mem_insert_iff, List.mem_cons, or_assoc, or_left_comm]

theorem foldl_annotate (l : List Annot) (m : Member) :
    l.foldl (fun m a => annotate a m) m =
      { m with annots := l.foldl (fun s a => s.insert a) m.annots } := by
  induction l generalizing m with
  | nil => rfl
  | cons a l ih => rw [List.foldl_cons, ih, List.foldl_cons, annotate]

theorem foldr_annotate (l : List Annot) (m : Member) :
    l.foldr annotate m = { m with annots := l.foldr SortedSet.insert m.annots } := by
  induction l with
  | nil => rfl
  | cons a l ih => rw [List.foldr_cons, ih, List.foldr_cons, annotate]

/-- A member without annotations gets all of its own back. -/
theorem foldl_annotate_toList (m : Member) :
    m.annots.toList.foldl (fun m a => annotate a m) { m with annots := ∅ } = m := by
  have hannots : m.annots.toList.foldl (fun s a => s.insert a) ∅ = m.annots := by
    ext a
    rw [mem_foldl_insert_iff]
    simp
  rw [foldl_annotate, hannots]

theorem foldlM_addLine_annots {l : List Annot} (h : ∀ a ∈ l, a.WellFormed) {ms : List Member}
    (hg : g.entities = m :: ms) : (l.map Annot.line).foldlM addLine g =
      .ok { g with entities := l.foldl (fun m a => annotate a m) m :: ms } := by
  induction l generalizing g m with
  | nil =>
    rw [List.foldl_nil, ← hg]
    rfl
  | cons a l ih =>
    obtain ⟨ha, hl⟩ := List.forall_mem_cons.1 h
    have hadd : g.addAnnot a = { g with entities := annotate a m :: ms } := by
      rw [addAnnot, hg]
    rw [List.map_cons, List.foldlM_cons, addLine_annot ha, hadd]
    exact ih hl rfl

/-- The lines of a member below the header add the member. -/
theorem foldlM_addLine_lines (h : m.WellFormed) (hannots : ∀ a ∈ m.annots, a.WellFormed)
    (hm : m.kind ≠ .header) (hg : g.entities ≠ []) :
    m.lines.foldlM addLine g = .ok { g with entities := m :: g.entities } := by
  have hadd : g.addEntity { m with annots := ∅ } m.line =
      .ok { g with entities := { m with annots := ∅ } :: g.entities } := by
    obtain ⟨n, ns, hn⟩ := List.exists_cons_of_ne_nil hg
    rw [addEntity, hn]
    exact if_neg hm
  rw [Member.lines, List.foldlM_cons, addLine_line h, hadd]
  change (m.annots.toList.map Annot.line).foldlM addLine _ = _
  rw [foldlM_addLine_annots hannots rfl, foldl_annotate_toList]

/-- The lines of a header start a group. -/
theorem foldlM_addLine_header (h : m.WellFormed) (hannots : ∀ a ∈ m.annots, a.WellFormed)
    (hm : m.kind = .header) : m.lines.foldlM addLine {} = .ok { entities := [m] } := by
  have hadd : addEntity {} { m with annots := ∅ } m.line =
      .ok { entities := [{ m with annots := ∅ }] } := if_pos hm
  rw [Member.lines, List.foldlM_cons, addLine_line h, hadd]
  change (m.annots.toList.map Annot.line).foldlM addLine _ = _
  rw [foldlM_addLine_annots hannots rfl, foldl_annotate_toList]

/-- Member after member is added, the latest in front. -/
theorem foldlM_addLine_members {ms : List Member} (h : ∀ m ∈ ms, m.WellFormed)
    (hannots : ∀ m ∈ ms, ∀ a ∈ m.annots, a.WellFormed) (hms : ∀ m ∈ ms, m.kind ≠ .header)
    (hg : g.entities ≠ []) : (ms.flatMap Member.lines).foldlM addLine g =
      .ok { g with entities := ms.reverse ++ g.entities } := by
  induction ms generalizing g with
  | nil => rfl
  | cons m ms ih =>
    rw [List.forall_mem_cons] at h hannots hms
    rw [List.flatMap_cons, List.foldlM_append,
      foldlM_addLine_lines h.1 hannots.1 hms.1 hg, List.reverse_cons, List.append_assoc]
    exact ih h.2 hannots.2 hms.2 (List.cons_ne_nil _ _)

/-! ### Hidden names -/

/-- The names on the line of hidden names are read back. -/
theorem hiddenNames_intercalate {names : List Text} (hne : names ≠ [])
    (h : ∀ n ∈ names, IsHiddenName n) :
    hiddenNames (' ' :: [','].intercalate names) = names := by
  have hsplit : split (· == ',') ([','].intercalate names) = names :=
    split_intercalate hne fun n hn => (h n hn).2.2.1
  have htrim : names.map trim = names := by
    rw [List.map_congr_left fun n hn => (h n hn).2.1, List.map_id']
  have hspace : (consHead ' ' names).map trim = names := by
    obtain ⟨n, ns, rfl⟩ := List.exists_cons_of_ne_nil hne
    exact htrim
  have hfilter : names.filter (· ≠ []) = names :=
    List.filter_eq_self.2 fun n hn => decide_eq_true (h n hn).1
  change ((consHead ' ' (split (· == ',') ([','].intercalate names))).map trim).filter _ = names
  rw [hsplit, hspace, hfilter]

theorem intercalate_ne_nil {names : List Text} (hne : names ≠ [])
    (h : ∀ n ∈ names, IsHiddenName n) : [','].intercalate names ≠ [] := by
  obtain ⟨n, ns, rfl⟩ := List.exists_cons_of_ne_nil hne
  cases ns with
  | nil =>
    rw [List.intercalate_singleton]
    exact (h n List.mem_cons_self).1
  | cons u us =>
    rw [List.intercalate_cons_cons]
    simp

/-- The names after a tag are joined to one line, if there are any. -/
theorem hiddenLine_eq {tag : Text} {names : SortedSet Text}
    (h : ∀ n ∈ names, IsHiddenName n) : ClassDef.hiddenLine tag names =
      if names.toList = [] then [] else [tag ++ ' ' :: [','].intercalate names.toList] := by
  rw [ClassDef.hiddenLine]
  split
  next hjoined =>
    rw [if_pos]
    exact not_not.1 fun hne => intercalate_ne_nil hne h hjoined
  next hjoined =>
    rw [if_neg]
    intro hnil
    rw [hnil] at hjoined
    exact hjoined rfl

theorem getLast?_intercalate {names : List Text} (hne : names ≠ [])
    (h : ∀ n ∈ names, IsHiddenName n) :
    ∀ c ∈ ([','].intercalate names).getLast?, isBlank c = false := by
  induction names with
  | nil => exact absurd rfl hne
  | cons n ns ih =>
    obtain ⟨hn, hns⟩ := List.forall_mem_cons.1 h
    cases ns with
    | nil =>
      intro c hc
      rw [List.intercalate_singleton, ← hn.2.1] at hc
      exact getLast?_dropEndWhile isBlank _ c hc
    | cons u us =>
      intro c hc
      rw [List.intercalate_cons_cons, List.getLast?_append] at hc
      rcases hlast : ([','].intercalate (u :: us)).getLast? with _ | d
      · rw [hlast, Option.none_or, List.getLast?_append, List.getLast?_singleton] at hc
        cases hc
        rfl
      · rw [hlast] at hc
        cases hc
        exact ih (List.cons_ne_nil u us) hns c hlast

/-- Nothing is taken off the ends of a line of hidden names. -/
theorem entityText_hidden {tag : Text}
    (htag : tag = ClassDef.hiddenFieldsTag ∨ tag = ClassDef.hiddenClassesTag) {names : List Text}
    (hne : names ≠ []) (h : ∀ n ∈ names, IsHiddenName n) :
    entityText (tag ++ ' ' :: [','].intercalate names) =
      tag ++ ' ' :: [','].intercalate names := by
  obtain ⟨d, hd⟩ := Option.isSome_iff_exists.1 (List.getLast?_isSome.2 (intercalate_ne_nil hne h))
  have hlast : (tag ++ ' ' :: [','].intercalate names).getLast? = some d := by
    rw [List.append_cons, List.getLast?_append, hd]
    rfl
  have hblank : isBlank d = false := getLast?_intercalate hne h d hd
  refine entityText_eq_self ?_ ?_ ?_
  · intro c hc
    rcases htag with rfl | rfl <;> cases hc <;> rfl
  · rw [hlast]
    rintro ⟨⟩
    cases hblank
  · rw [hlast]
    rintro ⟨⟩
    cases hblank

/-- A line of hidden names is read like any other line, and nothing is read if there are none. -/
theorem foldlM_addLine_hiddenLine {tag : Text} {names : SortedSet Text} {g' : Group}
    (h : ∀ n ∈ names, IsHiddenName n) (hnil : names.toList = [] → g = g')
    (hadd : names.toList ≠ [] →
      g.addLine (tag ++ ' ' :: [','].intercalate names.toList) = .ok g') :
    (ClassDef.hiddenLine tag names).foldlM addLine g = .ok g' := by
  rw [hiddenLine_eq h]
  split
  next hempty =>
    rw [hnil hempty]
    rfl
  next hne =>
    rw [List.foldlM_cons, hadd hne]
    rfl

theorem foldlM_addLine_hiddenFields {names : SortedSet Text} (h : ∀ n ∈ names, IsHiddenName n) :
    (ClassDef.hiddenLine ClassDef.hiddenFieldsTag names).foldlM addLine g =
      .ok { g with hiddenFields := g.hiddenFields ++ names.toList } := by
  refine foldlM_addLine_hiddenLine h (fun hnil => by rw [hnil, List.append_nil]) ?_
  intro hne
  have hafter : after? ClassDef.hiddenFieldsTag (ClassDef.hiddenFieldsTag ++
      ' ' :: [','].intercalate names.toList) = some (' ' :: [','].intercalate names.toList) :=
    after?_eq_some_iff.2 rfl
  rw [addLine, entityText_hidden (.inl rfl) hne h, hafter]
  change Except.ok _ = _
  rw [hiddenNames_intercalate hne h]

theorem foldlM_addLine_hiddenClasses {names : SortedSet Text} (h : ∀ n ∈ names, IsHiddenName n) :
    (ClassDef.hiddenLine ClassDef.hiddenClassesTag names).foldlM addLine g =
      .ok { g with hiddenClasses := g.hiddenClasses ++ names.toList } := by
  refine foldlM_addLine_hiddenLine h (fun hnil => by rw [hnil, List.append_nil]) ?_
  intro hne
  have hafter : after? ClassDef.hiddenClassesTag (ClassDef.hiddenClassesTag ++
      ' ' :: [','].intercalate names.toList) = some (' ' :: [','].intercalate names.toList) :=
    after?_eq_some_iff.2 rfl
  rw [addLine, entityText_hidden (.inr rfl) hne h, hafter]
  change Except.ok _ = _
  rw [hiddenNames_intercalate hne h]

/-! ### Members in their places -/

variable {c : ClassDef}

/-- The members of one kind are found again among those of several kinds. -/
theorem filter_flatMap_declared (h : c.WellFormed) {ks : List Kind} (hks : ks.Nodup) {k : Kind}
    (hk : k ∈ ks) : (ks.flatMap c.declared).filter (·.kind = k) = c.declared k := by
  have hself : (c.declared k).filter (·.kind = k) = c.declared k :=
    List.filter_eq_self.2 fun m hm => decide_eq_true (h.kinds k m hm)
  have hother : ∀ ks : List Kind, k ∉ ks → (ks.flatMap c.declared).filter (·.kind = k) = [] := by
    intro ks hks
    refine List.filter_eq_nil_iff.2 fun m hm heq => hks ?_
    obtain ⟨k', hk', hmem⟩ := List.mem_flatMap.1 hm
    rwa [← of_decide_eq_true heq, h.kinds k' m hmem]
  induction ks with
  | nil => cases hk
  | cons k' ks ih =>
    obtain ⟨hnot, hks⟩ := List.nodup_cons.1 hks
    rw [List.flatMap_cons, List.filter_append]
    rcases List.mem_cons.1 hk with rfl | hk
    · rw [hself, hother ks hnot, List.append_nil]
    · have hne : k ∉ [k'] := by
        rintro hmem
        exact hnot (List.mem_singleton.1 hmem ▸ hk)
      have hhead := hother [k'] hne
      rw [List.flatMap_singleton] at hhead
      rw [hhead, List.nil_append, ih hks hk]

/-- The references of one kind are found again among all that is written below the header. -/
theorem filter_below (h : c.WellFormed) {k : Kind}
    (hk : k ∈ [.superclass, .interface, .permitted]) :
    c.below.filter (·.kind = k) = c.declared k := by
  have hinherited : c.inherited.filter (·.kind = k) = [] := by
    refine List.filter_eq_nil_iff.2 ?_
    intro m hm heq
    have hlist := (h.inherited m hm).1
    rw [of_decide_eq_true heq] at hlist
    revert hk hlist
    cases k <;> decide
  have hbelow : k ∈ Kind.below := by
    revert hk
    cases k <;> decide
  rw [ClassDef.below, List.filter_append, filter_flatMap_declared h (by decide) hbelow, hinherited,
    List.append_nil]

/-- So are the members of one kind that the class declares. -/
theorem own_below (h : c.WellFormed) {k : Kind} (hk : k ∈ [.constructor, .method, .field, .inner]) :
    own k c.name c.below = c.declared k := by
  have hinherited : own k c.name c.inherited = [] :=
    List.filter_eq_nil_iff.2 fun m hm heq => (h.inherited m hm).2 (of_decide_eq_true heq).2
  have hdeclared : own k c.name (Kind.below.flatMap c.declared) =
      (Kind.below.flatMap c.declared).filter (·.kind = k) := by
    refine List.filter_congr ?_
    intro m hm
    rw [decide_eq_decide]
    refine ⟨And.left, fun heq => ⟨heq, ?_⟩⟩
    obtain ⟨k', -, hmem⟩ := List.mem_flatMap.1 hm
    have hkind : k' = k := (h.kinds k' m hmem).symm.trans heq
    exact h.declaring_eq hk m (hkind ▸ hmem)
  have hbelow : k ∈ Kind.below := by
    revert hk
    cases k <;> decide
  have happend : own k c.name c.below =
      own k c.name (Kind.below.flatMap c.declared) ++ own k c.name c.inherited :=
    List.filter_append _ _
  rw [happend, hdeclared, hinherited, filter_flatMap_declared h (by decide) hbelow,
    List.append_nil]

/-- What is left are the members that another type declares. -/
theorem inherited_below (h : c.WellFormed) : (c.below.filter fun m =>
    m.kind ∈ [.constructor, .method, .field, .inner] ∧ m.declaring ≠ c.name) = c.inherited := by
  have hinherited : (c.inherited.filter fun m =>
      m.kind ∈ [.constructor, .method, .field, .inner] ∧ m.declaring ≠ c.name) = c.inherited :=
    List.filter_eq_self.2 fun m hm => decide_eq_true (h.inherited m hm)
  have hdeclared : ((Kind.below.flatMap c.declared).filter fun m =>
      m.kind ∈ [.constructor, .method, .field, .inner] ∧ m.declaring ≠ c.name) = [] := by
    refine List.filter_eq_nil_iff.2 ?_
    intro m hm heq
    obtain ⟨hlist, hne⟩ := of_decide_eq_true heq
    obtain ⟨k, -, hmem⟩ := List.mem_flatMap.1 hm
    rw [h.kinds k m hmem] at hlist
    exact hne (h.declaring_eq hlist m hmem)
  rw [ClassDef.below, List.filter_append, hdeclared, hinherited, List.nil_append]

/-- All that is written below the header goes back to its place. -/
theorem toClass_below (h : c.WellFormed) :
    toClass c.header c.below = { c with hiddenFields := ∅, hiddenClasses := ∅ } := by
  have hsuperclass : c.superclass.toList.getLast? = c.superclass := by
    cases c.superclass <;> rfl
  have hname : c.header.name = c.name := rfl
  simp only [toClass, hname, filter_below h (k := .superclass) (by decide),
    filter_below h (k := .interface) (by decide), filter_below h (k := .permitted) (by decide),
    own_below h (k := .constructor) (by decide), own_below h (k := .method) (by decide),
    own_below h (k := .field) (by decide), own_below h (k := .inner) (by decide),
    inherited_below h, ClassDef.declared, hsuperclass]

end Group

end Line

/-- The lines of a well-formed class say all of it. -/
theorem parseClass_lines {c : ClassDef} (h : c.WellFormed) : parseClass c.lines = .ok c := by
  have hmembers := h.members
  have hannots := h.annots
  rw [c.written_eq, List.forall_mem_cons] at hmembers hannots
  have hbelow : (c.below.flatMap Member.lines).foldlM Group.addLine { entities := [c.header] } =
      .ok { entities := c.below.reverse ++ [c.header] } :=
    Group.foldlM_addLine_members hmembers.2 hannots.2 h.kind_ne_header (List.cons_ne_nil _ _)
  have hlines : c.lines.foldlM Group.addLine {} = .ok
      { entities := c.below.reverse ++ [c.header]
        hiddenFields := c.hiddenFields.toList
        hiddenClasses := c.hiddenClasses.toList } := by
    rw [ClassDef.lines, c.written_eq, List.flatMap_cons, List.foldlM_append, List.foldlM_append,
      List.foldlM_append, Group.foldlM_addLine_header hmembers.1 hannots.1 h.header]
    change ((c.below.flatMap Member.lines).foldlM Group.addLine _ >>= _) >>= _ = _
    rw [hbelow]
    change (ClassDef.hiddenLine _ _).foldlM Group.addLine _ >>= _ = _
    rw [Group.foldlM_addLine_hiddenFields h.hiddenFields]
    change (ClassDef.hiddenLine _ _).foldlM Group.addLine _ = _
    rw [Group.foldlM_addLine_hiddenClasses h.hiddenClasses]
    rfl
  rw [parseClass, hlines]
  change Group.finish _ = _
  simp only [Group.finish, List.reverse_append, List.reverse_cons, List.reverse_nil,
    List.nil_append, List.reverse_reverse, List.singleton_append, Group.toClass_below h,
    SortedSet.ofList_toList]

end ApiSurface
