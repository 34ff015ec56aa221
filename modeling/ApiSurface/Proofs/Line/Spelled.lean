import ApiSurface.Proofs.Line.AnnotShape
import ApiSurface.Proofs.Line.Snapshot
import ApiSurface.Proofs.Valid

/-!
# Classes that are read and spelled properly

What a line is read as need not be written as a line that is read as the same again: texts between
brackets may be taken for names, and keywords for types. `ClassDef.Spelled` asks of the texts of a
class that they are names and single tokens where there should be some. A class that is read from
lines and spelled properly is well-formed (`wellFormed_of_parseClass`): all else comes from how it
was read.
-/

namespace ApiSurface

open Text Line

/-! ### Members -/

namespace Member

/-- A text without line ends. -/
def IsLine (t : Text) : Prop := '\r' ∉ t ∧ '\n' ∉ t

/-- No text of a member has a line end. -/
@[mk_iff]
structure OneLine (m : Member) : Prop where
  /-- The declaring type has none. -/
  declaring : IsLine m.declaring
  /-- The name has none. -/
  name : IsLine m.name
  /-- The type has none. -/
  typeName : IsLine m.typeName
  /-- The arguments have none. -/
  args : IsLine m.args
  /-- The exceptions have none. -/
  throws : IsLine m.throws
  /-- The generics declaration or the type arguments have none. -/
  typeParams : ∀ p ∈ m.typeParams, IsLine p
  /-- The constant has none. -/
  constant : ∀ v ∈ m.constant, IsLine v

/-- A text that is neither a keyword nor taken for anything in brackets or for a constant. -/
def IsTypeWord (t : Text) : Prop :=
  Modifier.ofWord? t = none ∧ ∀ c ∈ t.head?, c ∉ ['<', '(', '=']

/-- The texts of a member are names and single tokens where there should be some. -/
@[mk_iff]
structure Spelled (m : Member) : Prop where
  /-- The name is a name. -/
  name : IsName m.name
  /-- The name of a class is no keyword. -/
  keyword : m.kind = .header → Modifier.ofWord? m.name = none
  /-- What declares a member with a simple name is a name. -/
  declaring : m.kind.isTypeRef = false → IsName m.declaring
  /-- The type of a method or field is taken for a type. -/
  typeName : m.kind ∈ [.method, .field] → IsTypeWord m.typeName
  /-- The generics declaration of a class is a single token. -/
  generics : m.kind = .header → ∀ p ∈ m.typeParams, IsToken p
  /-- Exceptions are names. -/
  throws : ∀ n ∈ m.throwsList, IsName n
  /-- The names of annotations have no blanks, and nothing in their lines ends these. -/
  annots : ∀ a ∈ m.annots, (∀ c ∈ a.name, isBlank c = false) ∧ '\n' ∉ a.line
  /-- No text has a line end. -/
  oneLine : m.OneLine

instance (t : Text) : Decidable (IsLine t) := inferInstanceAs (Decidable (_ ∧ _))

instance (t : Text) : Decidable (IsTypeWord t) :=
  have : Decidable (∀ c ∈ t.head?, c ∉ ['<', '(', '=']) := Option.decidableForallMem t.head?
  inferInstanceAs (Decidable (_ ∧ _))

instance (m : Member) : Decidable m.OneLine := decidable_of_iff' _ (oneLine_iff m)

instance (a : Annot) : Decidable ((∀ c ∈ a.name, isBlank c = false) ∧ '\n' ∉ a.line) :=
  have : Decidable (∀ c ∈ a.name, isBlank c = false) := List.decidableBAll _ a.name
  inferInstanceAs (Decidable (_ ∧ _))

set_option synthInstance.maxSize 1000 in
instance (m : Member) : Decidable m.Spelled := decidable_of_iff' _ (m.spelled_iff)

variable {m : Member}

theorem isLine_nil : IsLine [] := ⟨List.not_mem_nil, List.not_mem_nil⟩

theorem IsLine.not_mem {t : Text} {c : Char} (h : IsLine t) (hc : c ∈ ['\r', '\n']) : c ∉ t := by
  simp only [List.mem_cons, List.not_mem_nil, or_false] at hc
  rcases hc with rfl | rfl
  · exact h.1
  · exact h.2

/-- The line of a member is as free of line ends as its texts are. -/
theorem OneLine.not_mem_line {c : Char} (h : m.OneLine) (hc : c ∈ ['\r', '\n']) : c ∉ m.line := by
  have hdeclaring := h.declaring.not_mem hc
  have hname := h.name.not_mem hc
  have htype := h.typeName.not_mem hc
  have hargs := h.args.not_mem hc
  have hthrows := h.throws.not_mem hc
  have hparams : c ∉ m.typeParams.getD [] := by
    rcases hp : m.typeParams with _ | p
    · exact List.not_mem_nil
    · exact (h.typeParams p hp).not_mem hc
  have hmods : c ∉ m.modifiers.text := List.count_eq_zero.1 (count_modifiers_text hc m.modifiers)
  have hmarks : c ≠ '@' ∧ c ≠ '(' ∧ c ≠ ')' ∧ c ≠ '=' ∧ c ≠ ' ' ∧ c ∉ "throws".toList ∧
      c ≠ m.kind.delimiter := by
    simp only [List.mem_cons, List.not_mem_nil, or_false] at hc
    rcases hc with rfl | rfl <;> cases m.kind <;> decide
  obtain ⟨hat, hopen, hclose, hequals, hspace, hkeyword, hdelimiter⟩ := hmarks
  have hqualified : c ∉ m.qualifiedName := by
    unfold qualifiedName
    split
    next => exact hname
    next => simp [hdeclaring, hname, hdelimiter]
  have hmark : c ∉ (if m.direct = true then ['@'] else []) := by
    split <;> simp [hat]
  have hthrowing : c ∉ (if m.throws = [] then [] else ["throws".toList, m.throws]).flatten := by
    split
    next => simp
    next => simp only [List.flatten_cons, List.flatten_nil, List.mem_append, hkeyword, hthrows,
      List.not_mem_nil, or_self, not_false_eq_true]
  rw [← List.count_eq_zero, count_line hc, List.count_eq_zero]
  unfold words
  rcases m.kind
  case header | inner => simp [hmods, hparams, hname, hqualified]
  case superclass | interface | permitted => simp [hmark, hparams, hname]
  case constructor | method =>
    simp only [List.flatten_append, List.mem_append, hthrowing, or_false]
    simp [hmods, hparams, htype, hqualified, hargs, hopen, hclose]
  case field =>
    rcases hvalue : m.constant with _ | _ | ⟨d, r⟩
    · simp [hmods, htype, hqualified]
    · simp [hmods, htype, hqualified, hequals]
    · have hconstant := (h.constant _ hvalue).not_mem hc
      rw [List.mem_cons] at hconstant
      simp [hmods, htype, hqualified, hequals, hspace, hconstant]

/-- So nothing in the line ends it, and its last character is not taken for a line end. -/
theorem OneLine.line (h : m.OneLine) : '\n' ∉ m.line ∧ m.line.getLast? ≠ some '\r' := by
  refine ⟨h.not_mem_line (by decide), fun hlast => ?_⟩
  exact h.not_mem_line (c := '\r') (by decide) (List.mem_of_getLast? hlast)

/-- The exceptions of a callable are a single token, if there are any. -/
theorem Spelled.isToken_throws (h : m.Spelled) (hne : m.throws ≠ []) : IsToken m.throws := by
  have hpieces : ∀ n ∈ split (· == ',') m.throws, IsPlain n := by
    intro n hn
    by_cases hnil : n = []
    · rw [hnil]
      exact List.forall_mem_nil _
    · exact (h.throws n (List.mem_filter.2 ⟨hn, decide_eq_true hnil⟩)).isPlain
  have hnot : ∀ d ∈ [' ', '(', '<'], d ∉ m.throws := by
    intro d hd
    rw [← intercalate_split ',' m.throws]
    refine not_mem_intercalate ?_ fun n hn hmem => ?_
    · simp only [List.mem_cons, List.not_mem_nil, or_false] at hd
      rcases hd with rfl | rfl | rfl <;> decide
    · obtain ⟨hspace, hparen, hangle⟩ := hpieces n hn d hmem
      simp [hspace, hparen, hangle] at hd
  refine tokens_of_isPlain hne fun c hc => ⟨?_, ?_, ?_⟩
  · rintro rfl
    exact hnot ' ' (by decide) hc
  · rintro rfl
    exact hnot '(' (by decide) hc
  · rintro rfl
    exact hnot '<' (by decide) hc

/-- A member that has the shape of those that are read from lines and is spelled properly is
well-formed. -/
theorem Spelled.wellFormed (h : m.Spelled) (hm : m.Shaped) : m.WellFormed where
  valid := hm.valid
  name := h.name
  keyword := h.keyword
  outer := hm.outer
  declaring hk := ⟨h.declaring hk, (hm.declaring hk).2.2⟩
  typeName hk := by
    obtain ⟨hkeyword, hstart⟩ := h.typeName hk
    have hhead : m.typeName.head? ∉ [some '<', some '(', some '='] := by
      rcases hfirst : m.typeName.head? with _ | c
      · decide
      · simpa using hstart c hfirst
    refine ⟨?_, hkeyword, hhead⟩
    simp only [List.mem_cons, List.not_mem_nil, or_false] at hk
    rcases hk with hk | hk
    · exact hm.tokens (.inl (by rw [hk]; decide)) _ (by simp [core, hk])
    · exact hm.tokens (.inl (by rw [hk]; decide)) _ (by simp [core, hk])
  noTypeName := hm.noTypeName
  generics hk p hp := by
    refine ⟨?_, hm.typeParams p hp⟩
    by_cases hheader : m.kind = .header
    · exact h.generics hheader p hp
    · refine hm.generics ?_ p hp
      simp only [List.mem_cons, List.not_mem_nil, or_false] at hk
      exact Kind.isCallable_iff.2 (hk.resolve_left hheader)
  typeArgs hk p hp := by
    refine ⟨?_, hm.typeParams p hp⟩
    have hne : m.kind ≠ .header := by
      rintro heq
      rw [heq] at hk
      exact absurd hk (by decide)
    refine hm.tokens (.inl hne) _ ?_
    rw [core_typeRef hk, Option.mem_def.1 hp]
    exact List.mem_cons_self
  noTypeParams := hm.noTypeParams
  args hk := by
    rcases Kind.isCallable_iff.1 hk with hk | hk
    · exact hm.tokens (.inl (by rw [hk]; decide)) _ (by simp [core, hk])
    · exact hm.tokens (.inl (by rw [hk]; decide)) _ (by simp [core, hk])
  noArgs := hm.noArgs
  throws _ := by
    by_cases hne : m.throws = []
    · exact .inl hne
    · exact .inr ⟨h.isToken_throws hne, hm.throws⟩
  noThrows := hm.noThrows
  constant := hm.noConstant
  direct := hm.direct
  oneLine := h.oneLine.line

theorem Shaped.withAnnots (h : m.Shaped) (annots : SortedSet Annot) :
    Shaped { m with annots } := { h with }

end Member

/-! ### Classes -/

namespace ClassDef

/-- The members of a class are spelled properly, and so are the names in it. -/
@[mk_iff]
structure Spelled (c : ClassDef) : Prop where
  /-- The members and the class itself are spelled properly. -/
  members : ∀ m ∈ c.written, m.Spelled
  /-- After the last `$` of the name there is something, without a dot. -/
  simpleName : ∀ cut ∈ cutLast? (· == '$') c.name, cut.2 ≠ [] ∧ '.' ∉ cut.2
  /-- Nothing ends the line of hidden names. -/
  hidden : ∀ n ∈ c.hiddenFields.toList ++ c.hiddenClasses.toList, '\n' ∉ n

instance (c : ClassDef) : Decidable c.Spelled := decidable_of_iff' _ (c.spelled_iff)

/-- The members of a class are in the lists of their kinds. -/
structure Placed (c : ClassDef) : Prop where
  /-- The header is one. -/
  header : c.header.kind = .header
  /-- Every list holds members of its kind. -/
  kinds : ∀ k, ∀ m ∈ c.declared k, m.kind = k
  /-- Constructors, methods, fields and nested types are declared by the class. -/
  own : ∀ m ∈ c.ownMembers ++ c.nested, m.declaring = c.name
  /-- Another type declares the others. -/
  inherited : ∀ m ∈ c.inherited,
    m.kind ∈ [.constructor, .method, .field, .inner] ∧ m.declaring ≠ c.name

theorem mem_written_iff {c : ClassDef} {m : Member} :
    m ∈ c.written ↔ m = c.header ∨ m ∈ c.members := by
  simp only [written, members, declaredMembers, List.cons_append, List.mem_cons, List.mem_append]
  tauto

end ClassDef

/-! ### Groups of lines -/

namespace Line.Group

variable {g g' : Group}

/-- A member that was read has the shape of those that are, and its annotations were read. -/
def IsRead (m : Member) : Prop :=
  m.Shaped ∧ ∀ a ∈ m.annots, ∃ line, Annot.ofLine? line = some a

/-- What a group holds was read from lines. -/
structure Read (g : Group) : Prop where
  /-- The members. -/
  entities : ∀ m ∈ g.entities, IsRead m
  /-- The annotations in front of the class line. -/
  leading : ∀ a ∈ g.leading, ∃ line, Annot.ofLine? line = some a
  /-- The hidden names, which have no blanks at their ends and no comma. -/
  hidden : ∀ n ∈ g.hiddenFields ++ g.hiddenClasses, n ≠ [] ∧ trim n = n ∧ ',' ∉ n

theorem IsRead.annotate {m : Member} {a : Annot} (h : IsRead m)
    (ha : ∃ line, Annot.ofLine? line = some a) : IsRead (annotate a m) := by
  refine ⟨h.1.withAnnots _, fun b hb => ?_⟩
  rcases SortedSet.mem_insert_iff.1 hb with rfl | hb
  · exact ha
  · exact h.2 b hb

theorem IsRead.foldr_annotate {m : Member} {l : List Annot} (h : IsRead m)
    (hl : ∀ a ∈ l, ∃ line, Annot.ofLine? line = some a) : IsRead (l.foldr Group.annotate m) := by
  induction l with
  | nil => exact h
  | cons a l ih =>
    obtain ⟨ha, hl⟩ := List.forall_mem_cons.1 hl
    exact (ih hl).annotate ha

theorem isRead_of_parseMember {line : Text} {m : Member} (h : parseMember line = .ok m) :
    IsRead m := by
  obtain ⟨hshaped, hannots, -⟩ := shaped_of_parseMember h
  refine ⟨hshaped, fun a ha => ?_⟩
  rw [hannots] at ha
  exact absurd ha (SortedSet.not_mem_empty a)

theorem of_mem_hiddenNames {rest n : Text} (h : n ∈ hiddenNames rest) :
    n ≠ [] ∧ trim n = n ∧ ',' ∉ n := by
  obtain ⟨hmem, hne⟩ := List.mem_filter.1 h
  obtain ⟨piece, hpiece, rfl⟩ := List.mem_map.1 hmem
  refine ⟨of_decide_eq_true hne, trim_trim piece, fun hcomma => ?_⟩
  have hnot := of_mem_split hpiece ',' ((trim_sublist piece).subset hcomma)
  cases hnot

theorem Read.addLine (h : g.Read) {raw : Text} (hadd : g.addLine raw = .ok g') : g'.Read := by
  obtain ⟨hentities, hleading, hhidden⟩ := h
  rcases of_addLine hadd with
    ⟨-, rfl⟩ | ⟨a, -, ha, rfl⟩ | ⟨rest, -, rfl⟩ | ⟨rest, -, rfl⟩ | ⟨m, hm, hadd⟩
  · exact ⟨hentities, hleading, hhidden⟩
  · unfold addAnnot
    split
    next hnil =>
      refine ⟨hentities, fun b hb => ?_, hhidden⟩
      rcases List.mem_append.1 hb with hb | hb
      · exact hleading b hb
      · exact List.mem_singleton.1 hb ▸ ⟨_, ha⟩
    next m ms hcons =>
      rw [hcons, List.forall_mem_cons] at hentities
      exact ⟨List.forall_mem_cons.2 ⟨hentities.1.annotate ⟨_, ha⟩, hentities.2⟩, hleading, hhidden⟩
  · refine ⟨hentities, hleading, fun n hn => ?_⟩
    simp only [List.mem_append] at hn hhidden
    rcases hn with (hn | hn) | hn
    · exact hhidden n (.inl hn)
    · exact of_mem_hiddenNames hn
    · exact hhidden n (.inr hn)
  · refine ⟨hentities, hleading, fun n hn => ?_⟩
    simp only [List.mem_append] at hn hhidden
    rcases hn with hn | hn | hn
    · exact hhidden n (.inl hn)
    · exact hhidden n (.inr hn)
    · exact of_mem_hiddenNames hn
  · have hread := isRead_of_parseMember hm
    rcases addEntity_eq_ok_iff.1 hadd with ⟨-, -, rfl⟩ | ⟨-, -, rfl⟩
    · exact ⟨List.forall_mem_singleton.2 (hread.foldr_annotate hleading), hleading, hhidden⟩
    · exact ⟨List.forall_mem_cons.2 ⟨hread, hentities⟩, hleading, hhidden⟩

/-- Members are put in the lists of their kinds. -/
theorem placed_toClass {header : Member} (hheader : header.kind = .header) (ms : List Member) :
    (toClass header ms).Placed := by
  have hfilter : ∀ {k : Kind}, ∀ m ∈ ms.filter (·.kind = k), m.kind = k :=
    fun m hm => of_decide_eq_true (List.mem_filter.1 hm).2
  have hown : ∀ {k : Kind}, ∀ m ∈ own k header.name ms, m.kind = k ∧ m.declaring = header.name :=
    fun m hm => of_decide_eq_true (List.mem_filter.1 hm).2
  refine ⟨hheader, fun k m hm => ?_, fun m hm => ?_, fun m hm => ?_⟩
  · cases k with
    | header => cases hm
    | superclass => exact hfilter m (List.mem_of_getLast? (Option.mem_toList.1 hm))
    | interface | permitted => exact hfilter m hm
    | constructor | method | field | inner => exact (hown m hm).1
  · simp only [ClassDef.ownMembers, List.mem_append] at hm
    rcases hm with ((hm | hm) | hm) | hm <;> exact (hown m hm).2
  · exact of_decide_eq_true (List.mem_filter.1 hm).2

end Line.Group

open Line.Group

/-- A class that is read from lines and spelled properly is well-formed. -/
theorem wellFormed_of_parseClass {lines : List Text} {c : ClassDef} (h : parseClass lines = .ok c)
    (hc : c.Spelled) : c.WellFormed := by
  obtain ⟨g, hg, hfinish⟩ := bind_eq_ok_iff.1 h
  have hempty : Read {} := ⟨by simp, by simp, by simp⟩
  obtain ⟨hentities, -, hhidden⟩ := of_foldlM_eq_ok (P := Read)
    (fun g raw g' hread hadd => hread.addLine hadd) hempty hg
  have hheader := (valid_of_parseClass h).kind
  unfold finish at hfinish
  split at hfinish
  next => cases hfinish
  next header ms hreverse =>
    obtain rfl := Except.ok.inj hfinish
    have hplaced := placed_toClass hheader ms
    have hread : ∀ m ∈ (toClass header ms).written, IsRead m := by
      intro m hm
      refine hentities m (List.mem_reverse.1 (hreverse ▸ ?_))
      rcases ClassDef.mem_written_iff.1 hm with rfl | hm
      · exact List.mem_cons_self
      · exact List.mem_cons_of_mem _ (mem_of_mem_members_toClass hm)
    refine ⟨hplaced.header, hplaced.kinds, hplaced.own, hplaced.inherited, fun m hm => ?_,
      fun m hm a ha => ?_, fun n hn => ?_, fun n hn => ?_⟩
    · exact (hc.members m hm).wellFormed (hread m hm).1
    · obtain ⟨line, hline⟩ := (hread m hm).2 a ha
      obtain ⟨hname, hend⟩ := (hc.members m hm).annots a ha
      exact Annot.wellFormed_of_ofLine? hline hname hend
    · have hread := SortedSet.mem_ofList_iff.1 hn
      obtain ⟨hne, htrim, hcomma⟩ := hhidden n (List.mem_append_left _ hread)
      have hlisted := SortedSet.mem_toList_iff.2 hn
      exact ⟨hne, htrim, hcomma, hc.hidden n (List.mem_append_left _ hlisted)⟩
    · have hread := SortedSet.mem_ofList_iff.1 hn
      obtain ⟨hne, htrim, hcomma⟩ := hhidden n (List.mem_append_right _ hread)
      have hlisted := SortedSet.mem_toList_iff.2 hn
      exact ⟨hne, htrim, hcomma, hc.hidden n (List.mem_append_right _ hlisted)⟩

end ApiSurface
