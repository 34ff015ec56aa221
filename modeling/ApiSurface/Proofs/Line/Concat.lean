import ApiSurface.Proofs.Line.Accepted

/-!
# Texts behind one another, and other layouts of a text

Where a text that is read follows another one, its first line that says something is a class line
(`startsGroup_of_parseSnapshot`), so no group of lines crosses the seam, and reading the second text
after the first only puts its classes in place of those with their names
(`overlay_of_foldlM_parseClass`). What a text is read as depends on the lines that say something
only, which are the same in every layout of its lines
(`LaidOut.entityLines_eq`).
-/

namespace ApiSurface

open Text Line

/-! ### Snapshots over one another -/

namespace Snapshot

/-- A snapshot lists the classes of `new` and, under all other names, those of `old`. -/
def IsOverlay (old new s : Snapshot) : Prop :=
  ∀ name, s.get? name = (new.get? name).or (old.get? name)

theorem isOverlay_empty (s : Snapshot) : IsOverlay s ∅ s := fun name => by
  rw [SortedMap.get?_empty, Option.none_or]

theorem IsOverlay.add {old new s : Snapshot} (h : IsOverlay old new s) (c : ClassDef) :
    IsOverlay old (new.add c) (s.add c) := by
  intro name
  rw [Snapshot.add, Snapshot.add, SortedMap.get?_insert, SortedMap.get?_insert, h name]
  split
  next => exact Option.some_or.symm
  next => rfl

/-- The snapshot with the class of one more group of lines. -/
def addGroup (s : Snapshot) (lines : List Text) : Except ParseError Snapshot :=
  (parseClass lines).map s.add

end Snapshot

theorem parseSnapshot_eq (t : Text) :
    parseSnapshot t = (groups (entityLines t)).foldlM Snapshot.addGroup ∅ := rfl

/-- What is added to nothing is added to any snapshot: groups that are read are read behind other
groups, and their classes come over the classes of those. -/
theorem overlay_of_foldlM_parseClass {gs : List (List Text)} {old new s new' : Snapshot}
    (h : gs.foldlM Snapshot.addGroup new = .ok new')
    (hs : old.IsOverlay new s) :
    ∃ s', gs.foldlM Snapshot.addGroup s = .ok s' ∧
      old.IsOverlay new' s' := by
  induction gs generalizing new s with
  | nil =>
    obtain rfl := Except.ok.inj h
    exact ⟨s, rfl, hs⟩
  | cons g gs ih =>
    rw [List.foldlM_cons] at h
    obtain ⟨new₁, hfirst, hrest⟩ := bind_eq_ok_iff.1 h
    obtain ⟨c, hc, rfl⟩ := map_eq_ok_iff.1 hfirst
    obtain ⟨s', hs', hover⟩ := ih hrest (hs.add c)
    refine ⟨s', ?_, hover⟩
    rw [List.foldlM_cons]
    exact bind_eq_ok_iff.2 ⟨s.add c, map_eq_ok_iff.2 ⟨c, hc, rfl⟩, hs'⟩

/-! ### The first line of a text -/

namespace Line

/-- Behind its first line, a group has no class line. -/
theorem of_mem_groups {g lines : List Text} (h : g ∈ groups lines) :
    ∃ x ys, g = x :: ys ∧ ∀ l ∈ ys, Continues l := by
  induction lines generalizing g with
  | nil => cases h
  | cons line rest ih =>
    have halone : ∃ x ys, [line] = x :: ys ∧ ∀ l ∈ ys, Continues l :=
      ⟨line, [], rfl, List.forall_mem_nil _⟩
    rw [groups] at h
    rcases hgroups : groups rest with _ | ⟨g', gs⟩
    · rw [hgroups] at h
      obtain rfl := List.mem_singleton.1 h
      exact halone
    rw [hgroups] at h ih
    simp only at h
    split at h
    next =>
      rcases List.mem_cons.1 h with rfl | h
      · exact halone
      · exact ih h
    next hstarts =>
      rcases List.mem_cons.1 h with rfl | h
      · obtain ⟨x, ys, rfl, hys⟩ := ih List.mem_cons_self
        exact ⟨line, x :: ys, rfl,
          List.forall_mem_cons.2 ⟨fun heq => hstarts (decide_eq_true heq), hys⟩⟩
      · exact ih (List.mem_cons_of_mem _ h)

/-- The line of a class that is read starts a group: no mark stands in front of its tag. -/
theorem not_continues_of_isReadable {line : Text} (h : IsReadable line)
    (hkind : lineKind? line = some .header) : ¬ Continues line := by
  obtain ⟨marked, ts, hline, -⟩ := (isReadable_iff_of_lineKind? hkind).1 h
  obtain ⟨hmark, hmarked, -⟩ := entityLine_iff.1 hline
  have hplain : (takeMark line).1 = false :=
    Bool.eq_false_iff.2 fun heq => nomatch hmarked (hmark.symm.trans heq)
  have hbody : (takeMark line).2 = line := by
    unfold takeMark at hplain ⊢
    split at hplain
    next => cases hplain
    next => rfl
  have htag := Kind.ofTag?_eq_some_iff.1 hkind
  rw [hbody] at htag
  exact fun hcontinues => hcontinues htag

/-- A group of a text that is read as a class starts at a class line. -/
theorem startsGroup_of_parseClass {g lines : List Text} {c : ClassDef} (hg : g ∈ groups lines)
    (hlines : ∀ l ∈ g, entityText l = l) (h : parseClass g = .ok c) : startsGroup g = true := by
  obtain ⟨group, hgroup, hfinish⟩ := bind_eq_ok_iff.1 h
  obtain ⟨hreadable, kinds, hkinds, -⟩ :=
    (foldlM_addLine_ok_iff g {}).1 ⟨group, hgroup, finish_ok_iff.1 ⟨c, hfinish⟩⟩
  have hmem : Kind.header ∈ g.filterMap fun raw => lineKind? (entityText raw) :=
    hkinds ▸ List.mem_cons_self
  obtain ⟨line, hline, hkind⟩ := List.mem_filterMap.1 hmem
  have hclass : ¬ Continues line := by
    have htext := hlines line hline
    exact htext ▸ not_continues_of_isReadable (hreadable line hline) hkind
  obtain ⟨x, ys, rfl, hys⟩ := of_mem_groups hg
  rcases List.mem_cons.1 hline with rfl | hline
  · exact decide_eq_true (not_not.1 hclass)
  · exact absurd (hys line hline) hclass

/-- The lines of a text that say something are without blanks in front and line ends behind. -/
theorem entityText_of_mem_entityLines {t line : Text} (h : line ∈ entityLines t) :
    entityText line = line := by
  obtain ⟨raw, -, rfl⟩ := List.mem_map.1 (List.mem_of_mem_filter h)
  exact entityText_entityText raw

/-- A text that is read starts at a class line. -/
theorem startsGroup_of_parseSnapshot {t : Text} {s : Snapshot} (h : parseSnapshot t = .ok s) :
    ∀ g ∈ (groups (entityLines t)).head?, startsGroup g = true := by
  intro g hg
  have hmem : g ∈ groups (entityLines t) := List.mem_of_head? hg
  have hlines : ∀ l ∈ g, entityText l = l := by
    intro l hl
    refine entityText_of_mem_entityLines (t := t) ?_
    rw [← flatten_groups (entityLines t)]
    exact List.mem_flatten_of_mem hmem hl
  obtain ⟨gs, hgroups⟩ := List.head?_eq_some_iff.1 hg
  rw [parseSnapshot_eq, hgroups, List.foldlM_cons] at h
  obtain ⟨s₁, hfirst, -⟩ := bind_eq_ok_iff.1 h
  obtain ⟨c, hc, -⟩ := map_eq_ok_iff.1 hfirst
  exact startsGroup_of_parseClass hmem hlines hc

end Line

/-- The groups of two texts, the second of which starts at a class line, are read one after the
other. -/
theorem parseSnapshot_append_newline (t₁ : Text) {t₂ : Text}
    (h : ∀ g ∈ (groups (entityLines t₂)).head?, startsGroup g = true) :
    parseSnapshot (t₁ ++ '\n' :: t₂) = parseSnapshot t₁ >>= fun s =>
      (groups (entityLines t₂)).foldlM Snapshot.addGroup s := by
  have hlines : entityLines (t₁ ++ '\n' :: t₂) = entityLines t₁ ++ entityLines t₂ := by
    have hsplit : Text.lines (t₁ ++ '\n' :: t₂) = Text.lines t₁ ++ Text.lines t₂ :=
      split_append rfl t₁ t₂
    rw [entityLines, hsplit, List.map_append, List.filter_append]
    rfl
  rw [parseSnapshot_eq, hlines, groups_append _ h, List.foldlM_append, parseSnapshot_eq]

/-! ### Layouts -/

namespace Line

/-- A line that says nothing: blanks, and a comment or nothing behind them. -/
inductive Idle : Text → Prop
  /-- An empty line, or one of blanks. -/
  | blank {blanks : Text} : (∀ c ∈ blanks, isBlank c = true) → Idle blanks
  /-- A comment. -/
  | comment (blanks rest : Text) : (∀ c ∈ blanks, isBlank c = true) →
      Idle (blanks ++ '#' :: rest)

/-- The same lines in another layout: further lines that say nothing stand between them, blanks in
front of them and carriage returns behind them. -/
inductive LaidOut : List Text → List Text → Prop
  /-- No lines. -/
  | nil : LaidOut [] []
  /-- One line more, which says nothing. -/
  | idle {line : Text} {old new : List Text} : Idle line → LaidOut old new →
      LaidOut old (line :: new)
  /-- A line of the text, between blanks and carriage returns. -/
  | line (indent line returns : Text) {old new : List Text} :
      (∀ c ∈ indent, isBlank c = true) → (∀ c ∈ returns, c = '\r') → LaidOut old new →
      LaidOut (line :: old) ((indent ++ line ++ returns) :: new)

theorem isIgnored_of_idle {line : Text} (h : Idle line) : isIgnored (entityText line) = true := by
  cases h with
  | blank h =>
    rw [entityText, trimStart, ← List.append_nil line, List.dropWhile_append_of_pos h]
    rfl
  | comment blanks rest h =>
    rw [entityText, trimStart, List.dropWhile_append_of_pos h]
    obtain ⟨dropped, heq, -⟩ :=
      exists_eq_dropEndWhile_append (fun c => c == '\r' || c == '\n') ('#' :: rest)
    change isIgnored (dropEndWhile _ ('#' :: rest)) = true
    generalize dropEndWhile _ ('#' :: rest) = kept at heq ⊢
    cases kept with
    | nil => rfl
    | cons c kept =>
      rw [← (List.cons.inj heq).1]
      rfl

/-- Blanks in front of a line and carriage returns behind it are not part of what it says. -/
theorem entityText_of_indent {indent returns : Text} (line : Text)
    (hindent : ∀ c ∈ indent, isBlank c = true) (hreturns : ∀ c ∈ returns, c = '\r') :
    entityText (indent ++ line ++ returns) = entityText line := by
  have hblank : ∀ c ∈ returns, isBlank c = true := fun c hc => by rw [hreturns c hc]; rfl
  have hend : ∀ c ∈ returns, (c == '\r' || c == '\n') = true :=
    fun c hc => by rw [hreturns c hc]; rfl
  rw [entityText, entityText, trimStart, trimStart, List.append_assoc,
    List.dropWhile_append_of_pos hindent, List.dropWhile_append]
  split
  next hempty =>
    rw [List.isEmpty_iff.1 hempty, ← List.append_nil returns, List.dropWhile_append_of_pos hblank]
    rfl
  next => exact dropEndWhile_append_of_forall hend _

theorem LaidOut.filter_entityText {old new : List Text} (h : LaidOut old new) :
    (new.map entityText).filter (fun line => !isIgnored line) =
      (old.map entityText).filter fun line => !isIgnored line := by
  induction h with
  | nil => rfl
  | idle hidle _ ih =>
    rw [List.map_cons, List.filter_cons_of_neg (by simp [isIgnored_of_idle hidle]), ih]
  | line indent line returns hindent hreturns _ ih =>
    rw [List.map_cons, List.map_cons, entityText_of_indent line hindent hreturns, List.filter_cons,
      List.filter_cons, ih]

/-- Another layout has the same lines that say something. -/
theorem LaidOut.entityLines_eq {t t' : Text} (h : LaidOut (Text.lines t) (Text.lines t')) :
    entityLines t' = entityLines t := h.filter_entityText

end Line

/-- Two texts with a line end between them are read as the classes of the second over those of the
first and, if the first is rejected, are rejected with its error. Another layout of the lines of a
text is read as the text is, and rejected with the same error. -/
theorem parseSnapshot_concat (t₁ t₂ : Text) :
    (∀ s₁ s₂, parseSnapshot t₁ = .ok s₁ → parseSnapshot t₂ = .ok s₂ →
      ∃ s, parseSnapshot (t₁ ++ '\n' :: t₂) = .ok s ∧ s₁.IsOverlay s₂ s) ∧
    (∀ e s₂, parseSnapshot t₁ = .error e → parseSnapshot t₂ = .ok s₂ →
      parseSnapshot (t₁ ++ '\n' :: t₂) = .error e) ∧
    ∀ t t', LaidOut (Text.lines t) (Text.lines t') → parseSnapshot t' = parseSnapshot t := by
  refine ⟨fun s₁ s₂ h₁ h₂ => ?_, fun e s₂ h₁ h₂ => ?_, fun t t' h => ?_⟩
  · rw [parseSnapshot_append_newline t₁ (startsGroup_of_parseSnapshot h₂), h₁]
    exact overlay_of_foldlM_parseClass h₂ s₁.isOverlay_empty
  · rw [parseSnapshot_append_newline t₁ (startsGroup_of_parseSnapshot h₂), h₁]
    rfl
  · rw [parseSnapshot_eq, parseSnapshot_eq, h.entityLines_eq]

/-- A class with a superclass and another class. -/
def earlierSnapshot : Snapshot :=
  .ofClasses
    [{ header := { kind := .header, name := "a.A".toList }
       superclass := some { kind := .superclass, name := "a.S".toList } },
     { header := { kind := .header, name := "a.B".toList } }]

/-- The first of these classes without its superclass. -/
def laterSnapshot : Snapshot :=
  .ofClasses
    [{ header := { kind := .header, name := "a.A".toList }, hiddenFields := .ofList ["f".toList] }]

/-- The lines of the earlier classes, with a line end behind them. -/
def earlierText : Text := "class a.A\nsuperclass a.S\nclass a.B\n".toList

/-- The lines of the later class, behind a comment. -/
def laterText : Text := "# again\nclass a.A\nhiddenfields f".toList

/-- The same with carriage returns, indented lines, empty lines and a comment in the class. -/
def laterTextIndented : Text :=
  "# again\r\n\r\n\tclass a.A\r\n # hidden\r\n\thiddenfields f\r\n".toList

/-- A text of which the last line is not read. -/
def faultyText : Text := "class a.A\nclass a.B\ninterfac a.I".toList

theorem laidOut_laterTextIndented :
    LaidOut (Text.lines laterText) (Text.lines laterTextIndented) := by
  have hold : Text.lines laterText =
      ["# again".toList, "class a.A".toList, "hiddenfields f".toList] := by decide +kernel
  have hnew : Text.lines laterTextIndented =
      [[] ++ "# again".toList ++ ['\r'], ['\r'], ['\t'] ++ "class a.A".toList ++ ['\r'],
        [' '] ++ '#' :: " hidden\r".toList, ['\t'] ++ "hiddenfields f".toList ++ ['\r'],
        []] := by decide +kernel
  have hnone : ∀ c ∈ ([] : Text), isBlank c = true := List.forall_mem_nil _
  have hspace : ∀ c ∈ [' '], isBlank c = true := List.all_eq_true.1 rfl
  have htab : ∀ c ∈ ['\t'], isBlank c = true := List.all_eq_true.1 rfl
  have hempty : ∀ c ∈ ['\r'], isBlank c = true := List.all_eq_true.1 rfl
  have hreturn : ∀ c ∈ ['\r'], c = '\r' := fun c hc => List.mem_singleton.1 hc
  rw [hold, hnew]
  refine .line [] _ ['\r'] hnone hreturn (.idle (.blank hempty) ?_)
  refine .line ['\t'] _ ['\r'] htab hreturn (.idle (.comment [' '] _ hspace) ?_)
  exact .line ['\t'] _ ['\r'] htab hreturn (.idle (.blank hnone) .nil)

theorem parseSnapshot_concat_redefined :
    (∃ s, parseSnapshot (earlierText ++ '\n' :: laterText) = .ok s ∧
      earlierSnapshot.IsOverlay laterSnapshot s) ∧
    parseSnapshot (faultyText ++ '\n' :: laterText) =
      .error (.faulty (.unknownKind "interfac".toList) "interfac a.I".toList) ∧
    parseSnapshot laterTextIndented = .ok laterSnapshot := by
  have hearlier : parseSnapshot earlierText = .ok earlierSnapshot := by decide +kernel
  have hlater : parseSnapshot laterText = .ok laterSnapshot := by decide +kernel
  refine ⟨(parseSnapshot_concat earlierText laterText).1 _ _ hearlier hlater,
    (parseSnapshot_concat faultyText laterText).2.1 _ _ (by decide +kernel) hlater, ?_⟩
  rw [(parseSnapshot_concat earlierText laterText).2.2 _ _ laidOut_laterTextIndented, hlater]

end ApiSurface
