import ApiSurface.Proofs.Line.Annot

/-!
# Annotations that are read

An annotation that is read from a line is readable (`readable_of_ofLine?`), so it is read from its
own line again (`parseAnnot_line_of_parseAnnot`): the commas that cut the list of values cut none of
the values, and the blanks that are taken off their ends play no part in that. As far as its name has
no blanks and nothing in its own line ends it, it is well-formed (`wellFormed_of_ofLine?`).
-/

namespace ApiSurface

open Text

namespace Annot

/-! ### Pieces between commas -/

/-- No comma cuts a text that starts at a place. -/
def Uncut (p : Place) (t : Text) : Prop := splitItems p t = [t]

theorem uncut_nil (p : Place) : Uncut p [] := rfl

theorem uncut_cons_iff {p : Place} {c : Char} {t : Text} :
    Uncut p (c :: t) ↔ ¬ (p = .plain 0 ∧ c = ',') ∧ Uncut (p.next c) t := by
  unfold Uncut
  rw [splitItems]
  split
  next hcut => simp [hcut]
  next hcut =>
    rw [and_iff_right hcut]
    constructor
    · intro h
      rcases hsplit : splitItems (p.next c) t with _ | ⟨u, us⟩
      · have hjoin := intercalate_splitItems (p.next c) t
        rw [hsplit] at h hjoin
        cases hjoin
        cases hsplit
      · rw [hsplit] at h
        obtain ⟨hhead, rfl⟩ := List.cons.inj h
        rw [(List.cons.inj hhead).2]
    · intro h
      rw [h]
      rfl

theorem uncut_append_iff {p : Place} {t u : Text} :
    Uncut p (t ++ u) ↔ Uncut p t ∧ Uncut (t.foldl Place.next p) u := by
  induction t generalizing p with
  | nil => simp [uncut_nil]
  | cons c t ih =>
    rw [List.cons_append, uncut_cons_iff, uncut_cons_iff, ih, and_assoc, List.foldl_cons]

/-- No comma cuts the pieces of a text. The first one starts where the text does and any other
outside brackets and strings, which is where all but the last one end. -/
theorem splitItems_pieces (p : Place) (t : Text) : ∃ u us, splitItems p t = u :: us ∧
    Uncut p u ∧ (us ≠ [] → u.foldl Place.next p = .plain 0) ∧
    (∀ v ∈ us, Uncut (.plain 0) v) ∧
      ∀ v ∈ us.dropLast, v.foldl Place.next (.plain 0) = .plain 0 := by
  induction t generalizing p with
  | nil => exact ⟨[], [], rfl, rfl, fun h => absurd rfl h, by simp, by simp⟩
  | cons c t ih =>
    rw [splitItems]
    split
    next hcut =>
      obtain ⟨rfl, rfl⟩ := hcut
      obtain ⟨u, us, hsplit, hu, hend, hus, hends⟩ := ih (.plain 0)
      refine ⟨[], u :: us, by rw [hsplit], uncut_nil _, fun _ => rfl,
        List.forall_mem_cons.2 ⟨hu, hus⟩, ?_⟩
      rcases us with _ | ⟨v, vs⟩
      · simp
      · exact List.forall_mem_cons.2 ⟨hend (List.cons_ne_nil v vs), hends⟩
    next hcut =>
      obtain ⟨u, us, hsplit, hu, hend, hus, hends⟩ := ih (p.next c)
      refine ⟨c :: u, us, ?_, uncut_cons_iff.2 ⟨hcut, hu⟩, hend, hus, hends⟩
      rw [hsplit]
      rfl

theorem uncut_of_mem_splitItems {t u : Text} (h : u ∈ splitItems (.plain 0) t) :
    Uncut (.plain 0) u := by
  obtain ⟨v, vs, hsplit, hv, -, hvs, -⟩ := splitItems_pieces (.plain 0) t
  rw [hsplit] at h
  exact List.forall_mem_cons.2 ⟨hv, hvs⟩ u h

theorem closed_of_mem_dropLast_splitItems {t u : Text}
    (h : u ∈ (splitItems (.plain 0) t).dropLast) : u.foldl Place.next (.plain 0) = .plain 0 := by
  obtain ⟨v, vs, hsplit, -, hend, -, hends⟩ := splitItems_pieces (.plain 0) t
  rw [hsplit] at h
  rcases vs with _ | ⟨w, ws⟩
  · cases h
  · rw [List.dropLast_cons_cons] at h
    rcases List.mem_cons.1 h with rfl | h
    · exact hend (List.cons_ne_nil w ws)
    · exact hends u h

/-! ### Blanks -/

/-- The place behind a blank: what a backslash stands in front of is used up. -/
def Place.settled : Place → Place
  | plain d => plain d
  | quoted d => quoted d
  | escaped d => quoted d

theorem next_blank (p : Place) {c : Char} (hc : isBlank c = true) : p.next c = p.settled := by
  have hmarks : ['"', '\\', '(', '[', '{', '<', ')', ']', '}', '>'].filter isBlank = [] := by
    decide
  have hne : ∀ d ∈ ['"', '\\', '(', '[', '{', '<', ')', ']', '}', '>'], c ≠ d := by
    rintro d hd rfl
    have hblank := List.mem_filter.2 ⟨hd, hc⟩
    rw [hmarks] at hblank
    cases hblank
  cases p with
  | plain d => simp [Place.next, Place.settled, hne]
  | quoted d => simp [Place.next, Place.settled, hne]
  | escaped d => rfl

theorem foldl_blanks (p : Place) {t : Text} (ht : ∀ c ∈ t, isBlank c = true) :
    t.foldl Place.next p = if t = [] then p else p.settled := by
  induction t generalizing p with
  | nil => rfl
  | cons c t ih =>
    obtain ⟨hc, ht⟩ := List.forall_mem_cons.1 ht
    rw [List.foldl_cons, next_blank p hc, ih _ ht, if_neg (List.cons_ne_nil c t)]
    split
    next => rfl
    next => cases p <;> rfl

/-- Blanks in front of an equals sign make no difference behind it. -/
theorem next_equals_foldl_blanks (p : Place) {t : Text} (ht : ∀ c ∈ t, isBlank c = true) :
    (t.foldl Place.next p).next '=' = p.next '=' := by
  rw [foldl_blanks p ht]
  split
  next => rfl
  next => cases p <;> rfl

/-- Nor do blanks behind one. -/
theorem foldl_blanks_next_equals (p : Place) {t : Text} (ht : ∀ c ∈ t, isBlank c = true) :
    t.foldl Place.next (p.next '=') = p.next '=' := by
  rw [foldl_blanks _ ht]
  split
  next => rfl
  next => cases p <;> rfl

/-- A text that is closed behind blanks is closed in front of them. -/
theorem eq_plain_of_foldl_blanks {p : Place} {t : Text} (ht : ∀ c ∈ t, isBlank c = true)
    (h : t.foldl Place.next p = .plain 0) : p = .plain 0 := by
  rw [foldl_blanks p ht] at h
  split at h
  next => exact h
  next => cases p <;> first | exact h | cases h

theorem exists_eq_trim_append (t : Text) : ∃ front back, t = front ++ (trim t ++ back) ∧
    (∀ c ∈ front, isBlank c = true) ∧ ∀ c ∈ back, isBlank c = true := by
  obtain ⟨back, hback, hblank⟩ := exists_eq_dropEndWhile_append isBlank (trimStart t)
  refine ⟨t.takeWhile isBlank, back, ?_, List.all_eq_true.1 List.all_takeWhile, hblank⟩
  rw [trim, ← hback]
  exact List.takeWhile_append_dropWhile.symm

/-- A named value that no comma cuts is still cut by none when the blanks at the ends of its name and
of its value are gone, and if it was closed it still is. -/
theorem uncut_item_trim {x y : Text} (h : Uncut (.plain 0) (x ++ '=' :: y)) :
    Uncut (.plain 0) (item (trim x, trim y)) ∧
      ((x ++ '=' :: y).foldl Place.next (.plain 0) = .plain 0 →
        (item (trim x, trim y)).foldl Place.next (.plain 0) = .plain 0) := by
  obtain ⟨xfront, xback, hx, hxfront, hxback⟩ := exists_eq_trim_append x
  obtain ⟨yfront, yback, hy, hyfront, hyback⟩ := exists_eq_trim_append y
  have hstart : xfront.foldl Place.next (.plain 0) = .plain 0 := by
    rw [foldl_blanks _ hxfront]
    split <;> rfl
  -- the place behind the name, and the one behind the equals sign
  generalize hp : (trim x).foldl Place.next (.plain 0) = p
  have hequals : (xfront ++ (trim x ++ xback)).foldl Place.next (.plain 0) =
      xback.foldl Place.next p := by
    rw [List.foldl_append, List.foldl_append, hstart, hp]
  have hitem : (item (trim x, trim y)).foldl Place.next (.plain 0) =
      (trim y).foldl Place.next (p.next '=') := by
    rw [item, List.foldl_append, hp, List.foldl_cons]
  refine ⟨?_, fun hclosed => ?_⟩
  · rw [hx, uncut_append_iff, hequals, uncut_cons_iff, next_equals_foldl_blanks p hxback, hy] at h
    obtain ⟨hname, hcomma, hvalue⟩ := h
    obtain ⟨-, hname⟩ := uncut_append_iff.1 hname
    obtain ⟨-, hvalue⟩ := uncut_append_iff.1 hvalue
    rw [hstart] at hname
    rw [foldl_blanks_next_equals p hyfront] at hvalue
    rw [item, uncut_append_iff, hp, uncut_cons_iff]
    refine ⟨(uncut_append_iff.1 hname).1, ?_, (uncut_append_iff.1 hvalue).1⟩
    exact fun heq => nomatch heq.2
  · rw [hx, List.foldl_append, hequals, List.foldl_cons, next_equals_foldl_blanks p hxback, hy,
      List.foldl_append, foldl_blanks_next_equals p hyfront, List.foldl_append] at hclosed
    rw [hitem]
    exact eq_plain_of_foldl_blanks hyback hclosed

/-! ### Whole annotations -/

theorem map_eq_of_mapM_eq_some {α β : Type _} {f : α → Option β} {l : List α} {r : List β}
    (h : l.mapM f = some r) : l.map f = r.map some := by
  induction l generalizing r with
  | nil =>
    cases h
    rfl
  | cons a l ih =>
    rw [List.mapM_cons] at h
    obtain ⟨b, hb, h⟩ := Option.bind_eq_some_iff.1 h
    obtain ⟨r', hr, h⟩ := Option.bind_eq_some_iff.1 h
    cases h
    rw [List.map_cons, List.map_cons, hb, ih hr]

theorem dropLast_filter_subset {α : Type _} (p : α → Bool) (l : List α) :
    (l.filter p).dropLast ⊆ l.dropLast := by
  rcases List.eq_nil_or_concat l with rfl | ⟨front, last, rfl⟩
  · simp
  · rw [List.concat_eq_append, List.dropLast_concat, List.filter_append]
    by_cases h : p last = true
    · rw [List.filter_cons_of_pos h, List.filter_nil, List.dropLast_concat]
      exact List.filter_sublist.subset
    · rw [List.filter_cons_of_neg h, List.filter_nil, List.append_nil]
      exact List.Subset.trans (List.dropLast_subset _) List.filter_sublist.subset

/-- The parts that a line is cut into. -/
theorem of_ofLine? {line : Text} {a : Annot} (h : ofLine? line = some a) :
    ∃ inner, a.name ≠ [] ∧ '(' ∉ a.name ∧ ' ' ∉ a.name ∧ trim a.name = a.name ∧
      ((splitItems (.plain 0) inner).filter fun item => trim item ≠ []).mapM readMember? =
        some a.members := by
  obtain ⟨body, -, h⟩ := Option.bind_eq_some_iff.1 h
  obtain ⟨⟨name, inner⟩, hcut, h⟩ := Option.bind_eq_some_iff.1 h
  dsimp only at h
  split at h
  next => cases h
  next hname =>
    obtain ⟨members, hmembers, h⟩ := Option.bind_eq_some_iff.1 h
    cases h
    have hparts : '(' ∉ name ∧ trim name = name := by
      unfold cutBody? at hcut
      split at hcut
      next before rest hparen =>
        obtain ⟨inner', -, heq⟩ := Option.map_eq_some_iff.1 hcut
        cases heq
        exact ⟨fun hmem => (cutFirst?_eq_some_iff.1 hparen).2 ((trim_sublist before).subset hmem),
          trim_trim before⟩
      next hparen =>
        cases hcut
        exact ⟨cutFirst?_eq_none_iff.1 hparen, trim_trim body⟩
    exact ⟨inner, fun hnil => hname (.inl hnil), hparts.1, fun hmem => hname (.inr hmem), hparts.2,
      hmembers⟩

/-- An annotation that was read from a line is readable. -/
theorem readable_of_ofLine? {line : Text} {a : Annot} (h : ofLine? line = some a) :
    a.Readable := by
  obtain ⟨inner, hnamed, hunopened, hspaceless, htrim, hmembers⟩ := of_ofLine? h
  have hmap := map_eq_of_mapM_eq_some hmembers
  generalize hitems :
    (splitItems (.plain 0) inner).filter (fun item => trim item ≠ []) = items at hmap
  -- every named value is what is left of a piece
  have hread : ∀ {l : List Text} {ms : List (Text × Text)}, l.map readMember? = ms.map some →
      ∀ m ∈ ms, ∃ x y, x ++ '=' :: y ∈ l ∧ '=' ∉ x ∧ m = (trim x, trim y) := by
    intro l ms heq m hm
    have hmem : some m ∈ l.map readMember? := heq ▸ List.mem_map_of_mem hm
    obtain ⟨u, hu, hum⟩ := List.mem_map.1 hmem
    obtain ⟨⟨x, y⟩, hcut, rfl⟩ := Option.map_eq_some_iff.1 hum
    obtain ⟨rfl, hx⟩ := cutFirst?_eq_some_iff.1 hcut
    exact ⟨x, y, hu, hx, rfl⟩
  have hpieces : ∀ u ∈ items, Uncut (.plain 0) u := by
    intro u hu
    rw [← hitems] at hu
    exact uncut_of_mem_splitItems (List.mem_filter.1 hu).1
  refine ⟨hnamed, hunopened, hspaceless, htrim, fun m hm => ?_, fun m hm => ?_, fun m hm => ?_⟩
  · obtain ⟨x, y, -, hx, rfl⟩ := hread hmap m hm
    exact ⟨fun hmem => hx ((trim_sublist x).subset hmem), trim_trim x, trim_trim y⟩
  · obtain ⟨x, y, hmem, -, rfl⟩ := hread hmap m hm
    exact (uncut_item_trim (hpieces _ hmem)).1
  · have hlast := congrArg List.dropLast hmap
    rw [← List.map_dropLast, ← List.map_dropLast] at hlast
    obtain ⟨x, y, hmem, -, rfl⟩ := hread hlast m hm
    refine (uncut_item_trim (hpieces _ (List.dropLast_subset _ hmem))).2 ?_
    rw [← hitems] at hmem
    exact closed_of_mem_dropLast_splitItems (dropLast_filter_subset _ _ hmem)

/-- An annotation that was read from a line is well-formed, if its name has no blanks and nothing in
its own line ends it. -/
theorem wellFormed_of_ofLine? {line : Text} {a : Annot} (h : ofLine? line = some a)
    (hname : ∀ c ∈ a.name, isBlank c = false) (hline : '\n' ∉ a.line) : a.WellFormed := by
  have hreadable := readable_of_ofLine? h
  refine ⟨⟨hreadable.named, fun c hc => ⟨hname c hc, ?_⟩⟩, hreadable.trimmed, hreadable.whole,
    hreadable.closed, hline⟩
  rintro rfl
  exact hreadable.unopened hc

end Annot

/-- An annotation that is read from a line, whatever its values hold, is read from its own line
again. -/
theorem parseAnnot_line_of_parseAnnot {line : Text} {a : Annot} (h : parseAnnot line = .ok a) :
    parseAnnot a.line = .ok a :=
  parseAnnot_line (Annot.readable_of_ofLine? (parseAnnot_ok_iff.1 h))

/-- Two values: one with a comma in a string within a bracket, and one with a backslash in front of
the equals sign, a closing bracket too many, and a string that nothing closes. -/
def intricateAnnot : Annot where
  name := "a.B".toList
  members := [("m".toList, "\x7b x, \"y, z\"\x7d".toList),
    ("\"p\\".toList, "q)(,r , k = \"s>\\\", t".toList)]

/-- They are read from a line with blanks around the names and values, of which one is behind the
backslash, and with blank items; their own line is read again. -/
theorem parseAnnot_line_intricate :
    parseAnnot
        " annotation: a.B ( m = \x7b x, \"y, z\"\x7d, ,, \"p\\ = q)(,r , k = \"s>\\\", t )".toList =
      .ok intricateAnnot ∧ parseAnnot intricateAnnot.line = .ok intricateAnnot := by
  have hread : parseAnnot
      " annotation: a.B ( m = \x7b x, \"y, z\"\x7d, ,, \"p\\ = q)(,r , k = \"s>\\\", t )".toList =
        .ok intricateAnnot := parseAnnot_ok_iff.2 (by decide +kernel)
  exact ⟨hread, parseAnnot_line_of_parseAnnot hread⟩

end ApiSurface
