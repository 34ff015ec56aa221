import ApiSurface.Proofs.Line.Group
import ApiSurface.Proofs.Snapshot

/-!
# Snapshot text read back

The text of a snapshot of well-formed classes is read as that snapshot (`parseSnapshot_text`): its
lines are the lines of the classes (`entityLines_intercalate`), and as only the line of a header
starts a group, the groups are the classes (`groups_flatMap_lines`).
-/

namespace ApiSurface

open Text Line

/-! ### Lines that stand as they are -/

/-- A line that says something and is read as it stands. -/
structure IsEntityLine (line : Text) : Prop where
  /-- Nothing is taken off its ends. -/
  text : entityText line = line
  /-- It is neither empty nor a comment. -/
  said : isIgnored line = false
  /-- Nothing in it ends it. -/
  oneLine : '\n' ∉ line

/-- A line of which the first word is no class tag. -/
def Continues (line : Text) : Prop := (cutTag line).1 ≠ Kind.header.tag

/-- The first word of a line is the start of the line. -/
theorem prefix_cutTag (line : Text) : ∃ rest, line = (cutTag line).1 ++ rest := by
  rw [cutTag]
  rcases hcut : cutFirst? ' ' line with _ | ⟨a, b⟩
  · exact ⟨[], (List.append_nil line).symm⟩
  · exact ⟨' ' :: b, (cutFirst?_eq_some_iff.1 hcut).1⟩

theorem continues_of_head? {line : Text} (h : line.head? ≠ Kind.header.tag.head?) :
    Continues line := by
  intro heq
  obtain ⟨rest, hline⟩ := prefix_cutTag line
  rw [heq] at hline
  rw [hline] at h
  exact h rfl

theorem Annot.isEntityLine {a : Annot} (h : a.WellFormed) :
    IsEntityLine a.line ∧ Continues a.line := by
  refine ⟨⟨entityText_line h, rfl, h.oneLine⟩, continues_of_head? ?_⟩
  change some 'a' ≠ some 'c'
  decide

theorem Member.isEntityLine {m : Member} (h : m.WellFormed) : IsEntityLine m.line := by
  refine ⟨entityText_line h, ?_, h.oneLine.1⟩
  obtain ⟨rest, hline⟩ := exists_line_eq m
  rw [hline]
  cases m.kind <;> rfl

theorem Member.continues {m : Member} (h : m.kind ≠ .header) : Continues m.line := by
  intro heq
  rw [cutTag_line] at heq
  change m.kind.tag = Kind.header.tag at heq
  have hkind := Kind.ofTag?_tag m.kind
  rw [heq, Kind.ofTag?_tag] at hkind
  exact h (Option.some.inj hkind).symm

theorem isEntityLine_hidden {tag : Text}
    (htag : tag = ClassDef.hiddenFieldsTag ∨ tag = ClassDef.hiddenClassesTag)
    {names : SortedSet Text} (h : ∀ n ∈ names, IsHiddenName n) :
    ∀ l ∈ ClassDef.hiddenLine tag names, IsEntityLine l ∧ Continues l := by
  intro l hl
  rw [Group.hiddenLine_eq h] at hl
  split at hl
  next => cases hl
  next hne =>
    rw [List.mem_singleton.1 hl]
    have hend : '\n' ∉ [','].intercalate names.toList :=
      not_mem_intercalate (by decide) fun n hn => (h n hn).2.2.2
    refine ⟨⟨Group.entityText_hidden htag hne h, ?_, ?_⟩, continues_of_head? ?_⟩
    · rcases htag with rfl | rfl <;> rfl
    · rw [List.mem_append, List.mem_cons]
      rintro (hc | hc | hc)
      · revert hc
        rcases htag with rfl | rfl <;> decide
      · cases hc
      · exact hend hc
    · have hhead : (tag ++ ' ' :: [','].intercalate names.toList).head? = some 'h' := by
        rcases htag with rfl | rfl <;> rfl
      rw [hhead]
      decide

/-- The lines of a class are its class line and lines that do not start a class. -/
theorem ClassDef.WellFormed.lines_eq {c : ClassDef} (h : c.WellFormed) :
    ∃ rest, c.lines = c.header.line :: rest ∧ IsEntityLine c.header.line ∧
      ∀ l ∈ rest, IsEntityLine l ∧ Continues l := by
  have hmembers := h.members
  have hannots := h.annots
  rw [c.written_eq, List.forall_mem_cons] at hmembers hannots
  refine ⟨c.header.annots.toList.map Annot.line ++ c.below.flatMap Member.lines
    ++ hiddenLine hiddenFieldsTag c.hiddenFields ++ hiddenLine hiddenClassesTag c.hiddenClasses,
    ?_, Member.isEntityLine hmembers.1, ?_⟩
  · rw [lines, c.written_eq, List.flatMap_cons, Member.lines]
    simp only [List.cons_append, List.append_assoc]
  · intro l hl
    simp only [List.mem_append, List.mem_map, List.mem_flatMap] at hl
    rcases hl with ((⟨a, ha, rfl⟩ | ⟨m, hm, hl⟩) | hl) | hl
    · exact Annot.isEntityLine (hannots.1 a ha)
    · rw [Member.lines, List.mem_cons, List.mem_map] at hl
      rcases hl with rfl | ⟨a, ha, rfl⟩
      · exact ⟨Member.isEntityLine (hmembers.2 m hm), Member.continues (h.kind_ne_header m hm)⟩
      · exact Annot.isEntityLine (hannots.2 m hm a ha)
    · exact isEntityLine_hidden (.inl rfl) h.hiddenFields l hl
    · exact isEntityLine_hidden (.inr rfl) h.hiddenClasses l hl

theorem ClassDef.WellFormed.isEntityLine {c : ClassDef} (h : c.WellFormed) :
    ∀ l ∈ c.lines, IsEntityLine l := by
  obtain ⟨rest, hlines, hheader, hrest⟩ := h.lines_eq
  rw [hlines, List.forall_mem_cons]
  exact ⟨hheader, fun l hl => (hrest l hl).1⟩

/-! ### Lines of a text -/

/-- Lines that are each written with a line end are cut apart again. -/
theorem lines_flatMap_append {ls : List Text} (h : ∀ l ∈ ls, '\n' ∉ l) (rest : Text) :
    Text.lines (ls.flatMap (· ++ ['\n']) ++ rest) = ls ++ Text.lines rest := by
  induction ls with
  | nil => rfl
  | cons l ls ih =>
    obtain ⟨hl, hls⟩ := List.forall_mem_cons.1 h
    have hpiece : ∀ c ∈ l, (c == '\n') = false := by
      intro c hc
      rw [beq_eq_false_iff_ne]
      rintro rfl
      exact hl hc
    rw [List.flatMap_cons, List.append_assoc, List.append_assoc, List.singleton_append, Text.lines,
      split_append_cons hpiece (beq_self_eq_true '\n')]
    exact congrArg (l :: ·) (ih hls)

theorem filter_entityText {ls : List Text} (h : ∀ l ∈ ls, IsEntityLine l) :
    (ls.map entityText).filter (fun line => !isIgnored line) = ls := by
  rw [List.map_congr_left fun l hl => (h l hl).text, List.map_id']
  exact List.filter_eq_self.2 fun l hl => by rw [(h l hl).said]; rfl

/-- The lines of a text that say something, where a class is written in front. -/
theorem entityLines_text_append {c : ClassDef} (h : c.WellFormed) (rest : Text) :
    entityLines (c.text ++ rest) = c.lines ++ entityLines rest := by
  rw [entityLines, ClassDef.text,
    lines_flatMap_append (fun l hl => (h.isEntityLine l hl).oneLine), List.map_append,
    List.filter_append, filter_entityText h.isEntityLine]
  rfl

/-- An empty line says nothing. -/
theorem entityLines_cons_newline (t : Text) : entityLines ('\n' :: t) = entityLines t := rfl

/-- The lines of a text of classes are the lines of the classes. -/
theorem entityLines_intercalate {cs : List ClassDef} (h : ∀ c ∈ cs, c.WellFormed) :
    entityLines (['\n'].intercalate (cs.map ClassDef.text)) = cs.flatMap ClassDef.lines := by
  induction cs with
  | nil => rfl
  | cons c cs ih =>
    obtain ⟨hc, hcs⟩ := List.forall_mem_cons.1 h
    have hrest := ih hcs
    cases cs with
    | nil =>
      have htext := entityLines_text_append hc []
      rw [List.append_nil] at htext
      rw [List.map_singleton, List.intercalate_singleton, htext, List.flatMap_singleton]
      exact List.append_nil _
    | cons d ds =>
      rw [List.map_cons, List.map_cons, List.intercalate_cons_cons, ← List.map_cons,
        List.append_assoc, entityLines_text_append hc, List.singleton_append,
        entityLines_cons_newline, hrest]
      rfl

/-! ### Groups -/

/-- Lines in front of a class line are grouped by themselves. -/
theorem groups_append (xs : List Text) {ys : List Text}
    (hys : ∀ g ∈ (groups ys).head?, startsGroup g = true) :
    groups (xs ++ ys) = groups xs ++ groups ys := by
  induction xs with
  | nil => rfl
  | cons x xs ih =>
    rw [List.cons_append, groups, groups, ih]
    rcases groups xs with _ | ⟨g, gs⟩
    · rw [List.nil_append]
      rcases hgroups : groups ys with _ | ⟨g, gs⟩
      · rfl
      · rw [hgroups] at hys
        exact if_pos (hys g rfl)
    · simp only [List.cons_append]
      split <;> rfl

/-- A line with lines behind it that do not start a class is one group. -/
theorem groups_of_continues (x : Text) {ys : List Text} (hys : ∀ l ∈ ys, Continues l) :
    groups (x :: ys) = [x :: ys] := by
  induction ys generalizing x with
  | nil => rfl
  | cons y ys ih =>
    obtain ⟨hy, hys⟩ := List.forall_mem_cons.1 hys
    have hstarts : startsGroup (y :: ys) = false := decide_eq_false hy
    rw [groups, ih y hys]
    simp only [hstarts, Bool.false_eq_true, if_false]

theorem ClassDef.WellFormed.startsGroup_lines {c : ClassDef} (h : c.WellFormed) :
    startsGroup c.lines = true := by
  obtain ⟨rest, hlines, -, -⟩ := h.lines_eq
  rw [hlines, startsGroup, Member.cutTag_line, h.header]
  exact decide_eq_true rfl

/-- Every class is a group of its own. -/
theorem groups_flatMap_lines {cs : List ClassDef} (h : ∀ c ∈ cs, c.WellFormed) :
    groups (cs.flatMap ClassDef.lines) = cs.map ClassDef.lines := by
  induction cs with
  | nil => rfl
  | cons c cs ih =>
    obtain ⟨hc, hcs⟩ := List.forall_mem_cons.1 h
    obtain ⟨rest, hlines, -, hrest⟩ := hc.lines_eq
    have hstarts : ∀ g ∈ (groups (cs.flatMap ClassDef.lines)).head?, startsGroup g = true := by
      intro g hg
      rw [ih hcs] at hg
      obtain ⟨d, hd, rfl⟩ := List.mem_map.1 (List.mem_of_head? hg)
      exact (hcs d hd).startsGroup_lines
    rw [List.flatMap_cons, groups_append _ hstarts, ih hcs, List.map_cons, hlines,
      groups_of_continues _ fun l hl => (hrest l hl).2, List.singleton_append]

/-! ### Snapshots -/

/-- The lines of the text of a class are its lines, and an empty line after the last line end. -/
theorem parseClass_lines_text {c : ClassDef} (h : c.WellFormed) :
    parseClass (Text.lines c.text) = .ok c := by
  have hlines : Text.lines c.text = c.lines ++ [[]] := by
    have := lines_flatMap_append (fun l hl => (h.isEntityLine l hl).oneLine) []
    rwa [List.append_nil] at this
  have hread := parseClass_lines h
  rw [parseClass] at hread ⊢
  rw [hlines, List.foldlM_append]
  rcases hfold : c.lines.foldlM Group.addLine {} with e | g
  · rw [hfold] at hread
    cases hread
  · rw [hfold] at hread
    exact hread

theorem foldlM_parseClass {cs : List ClassDef} (h : ∀ c ∈ cs, c.WellFormed) (s : Snapshot) :
    (cs.map ClassDef.lines).foldlM (fun s lines => (parseClass lines).map (Snapshot.add s)) s =
      .ok (cs.foldl Snapshot.add s) := by
  induction cs generalizing s with
  | nil => rfl
  | cons c cs ih =>
    obtain ⟨hc, hcs⟩ := List.forall_mem_cons.1 h
    rw [List.map_cons, List.foldlM_cons, parseClass_lines hc]
    exact ih hcs _

/-- The text of well-formed classes is read as the snapshot that is made of them. -/
theorem parseSnapshot_intercalate {cs : List ClassDef} (h : ∀ c ∈ cs, c.WellFormed) :
    parseSnapshot (['\n'].intercalate (cs.map ClassDef.text)) = .ok (Snapshot.ofClasses cs) := by
  rw [parseSnapshot, entityLines_intercalate h, groups_flatMap_lines h, foldlM_parseClass h]
  rfl

/-- The text of a snapshot of well-formed classes is read as the snapshot, and the text of each
class as the class. -/
theorem parseSnapshot_text {s : Snapshot} (hnamed : s.Named) (h : ∀ c ∈ s.values, c.WellFormed) :
    parseSnapshot s.text = .ok s ∧ ∀ c ∈ s.values,
      parseClass c.lines = .ok c ∧ parseClass (Text.lines c.text) = .ok c := by
  refine ⟨?_, fun c hc => ⟨parseClass_lines (h c hc), parseClass_lines_text (h c hc)⟩⟩
  rw [Snapshot.text, parseSnapshot_intercalate h, Snapshot.ofClasses_values hnamed]

/-- A snapshot with a generic class, of which every list has a member, and an interface. -/
def annotatedSnapshot : Snapshot :=
  .ofClasses
    [{ header :=
         { kind := .header, modifiers := .ofList [.pub, .abstract], name := "a.B".toList
           typeParams := some "<%0 extends java.lang.Object>".toList
           annots := .ofList [{ name := "a.N".toList }, { name := "a.M".toList, members :=
             [("k".toList, "\x7b\"x,y\", z\x7d".toList), ("v".toList, "f(1, 2)".toList)] }] }
       superclass := some
         { Member.typeRef .superclass "a.A".toList with typeParams := some "<%0>".toList }
       interfaces := [{ Member.typeRef .interface "a.I".toList with direct := true }]
       constructors := [{ kind := .constructor, declaring := "a.B".toList, name := "B".toList }]
       methods :=
         [{ kind := .method, declaring := "a.B".toList, name := "m".toList
            typeName := "java.util.List<? super %0>".toList, args := "int,%0[]".toList
            throws := "a.E,a.F".toList, typeParams := some "<%1>".toList }]
       fields :=
         [{ kind := .field, modifiers := .ofList [.static, .final], declaring := "a.B".toList
            name := "f".toList, typeName := "java.lang.String".toList
            constant := some " = ( ".toList, annots := .ofList [{ name := "a.N".toList }] }]
       nested := [{ kind := .inner, declaring := "a.B".toList, name := "C".toList }]
       permitted := [.typeRef .permitted "a.B$C".toList]
       inherited :=
         [{ kind := .field, declaring := "a.A".toList, name := "f".toList
            typeName := "int".toList, constant := some [] }]
       hiddenFields := .ofList ["g".toList, "h".toList]
       hiddenClasses := .ofList ["D".toList] },
     { header :=
         { kind := .header, modifiers := .ofList [.interface, .abstract], name := "a.I".toList } }]

theorem parseSnapshot_text_annotated :
    annotatedSnapshot.Named ∧ (∀ c ∈ annotatedSnapshot.values, c.WellFormed) ∧
      parseSnapshot annotatedSnapshot.text = .ok annotatedSnapshot ∧
      ∀ c ∈ annotatedSnapshot.values,
        parseClass c.lines = .ok c ∧ parseClass (Text.lines c.text) = .ok c := by
  have hnamed : annotatedSnapshot.Named := by decide +kernel
  have hclasses : ∀ c ∈ annotatedSnapshot.values, c.WellFormed := by decide +kernel
  exact ⟨hnamed, hclasses, parseSnapshot_text hnamed hclasses⟩

end ApiSurface
