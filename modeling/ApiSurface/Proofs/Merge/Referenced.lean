import ApiSurface.Proofs.Merge.Nested

/-!
# Nested classes and the classes around them

After nested classes are reconciled, a nested class is listed by the class around it, which is still
there, unless one of the two was to be removed (`nested_class_referenced_iff`). The references are
added before the duplicates are removed, and whether a class is a duplicate is settled before
either: a class around others that is removed takes their references with it and leaves them behind
(`nested_class_left_behind`).
-/

namespace ApiSurface

namespace ClassDef

/-- The class around a nested class is called by the text before the last `$`. -/
def EnclosedByName (c : ClassDef) : Prop :=
  c.header.declaring = ((Text.cutLast? (· == '$') c.name).map (·.1)).getD []

instance (c : ClassDef) : Decidable c.EnclosedByName := inferInstanceAs (Decidable (_ = _))

theorem exists_cut_of_enclosing? {c : ClassDef} {outer : Text} (h : c.EnclosedByName)
    (houter : c.enclosing? = some outer) :
    ∃ simple, Text.cutLast? (· == '$') c.name = some (outer, simple) := by
  unfold EnclosedByName at h
  rw [enclosing?, h] at houter
  rcases hcut : Text.cutLast? (· == '$') c.name with _ | ⟨before, simple⟩
  · simp [hcut] at houter
  · rw [hcut, Option.map_some, Option.getD_some] at houter
    split at houter
    next => cases houter
    next =>
      cases houter
      exact ⟨simple, rfl⟩

/-- The class around a nested class is called by the text before the last `$`, after which there is
no dot. -/
def PlacedByName (c : ClassDef) : Prop :=
  c.header.declaring = (Member.typeRef .header c.name).declaring ∧
    ∀ cut ∈ Text.cutLast? (· == '$') c.name, '.' ∉ cut.2

instance (c : ClassDef) : Decidable c.PlacedByName := inferInstanceAs (Decidable (_ ∧ _))

theorem PlacedByName.enclosedByName {c : ClassDef} (h : c.PlacedByName) : c.EnclosedByName := h.1

theorem name_of_placed {c : ClassDef} {outer : Text} (h : c.PlacedByName)
    (houter : c.enclosing? = some outer) : c.name = outer ++ '$' :: c.simpleName := by
  obtain ⟨simple, hcut⟩ := exists_cut_of_enclosing? h.enclosedByName houter
  obtain ⟨d, hname, hd, hsimple⟩ := Text.eq_of_cutLast?_eq_some hcut
  obtain rfl : d = '$' := by simpa using hd
  have hword : ∀ x ∈ simple, (x == '.' || x == '$') = false := by
    intro x hx
    rw [hsimple x hx, Bool.or_false, beq_eq_false_iff_ne]
    rintro rfl
    exact h.2 _ hcut hx
  rw [simpleName, simpleNameOf, hname, Text.cutLast?_append (by decide) hword, Option.map_some,
    Option.getD_some]

end ClassDef

namespace Snapshot

variable {s : Snapshot} {origins : Origins} {outer : Text} {c d o : ClassDef}

/-! ### What decides the fate of a class -/

/-- The fate of a class goes by its name and the class around it. -/
theorem fate_congr (hname : c.name = d.name) (houter : c.enclosing? = d.enclosing?) :
    s.fate origins c = s.fate origins d := by
  simp only [fate, ClassDef.simpleName, hname, houter]

/-- Classes of one name that are placed by their names have one fate. -/
theorem fate_eq_of_name_eq (hc : c.PlacedByName) (hd : d.PlacedByName) (hname : c.name = d.name) :
    s.fate origins c = s.fate origins d := by
  refine fate_congr hname ?_
  rw [ClassDef.enclosing?, ClassDef.enclosing?, hc.1, hd.1, hname]

/-- A class inside another one is listed by it, or it is a duplicate, or it is to be listed. -/
theorem fate_cases (origins : Origins) (houter : c.enclosing? = some outer)
    (hget : s.get? outer = some o) :
    lists o c.name = true ∧ s.fate origins c = .settled ∨
      lists o c.name = false ∧
        (s.fate origins c = .duplicate ∨ s.fate origins c = .unlisted outer) := by
  rcases hlists : lists o c.name with _ | _
  · refine .inr ⟨rfl, ?_⟩
    simp only [fate, houter, hget, hlists, Bool.false_eq_true, if_false]
    split
    next twin _ =>
      by_cases hshare : origins.share c.name twin.name = true <;> simp [hshare]
    next => exact .inr rfl
  · exact .inl ⟨rfl, by simp [fate, houter, hget, hlists]⟩

/-- Only a class inside another class of the snapshot is removed or listed. -/
theorem enclosing_of_fate_ne_settled (h : s.fate origins c ≠ .settled) :
    ∃ outer, c.enclosing? = some outer ∧ s.contains outer = true := by
  rcases houter : c.enclosing? with _ | outer
  · exact absurd (by simp [fate, houter]) h
  · refine ⟨outer, rfl, ?_⟩
    rcases hget : s.get? outer with _ | o
    · exact absurd (by simp [fate, houter, hget]) h
    · simp [SortedMap.contains, hget]

/-- A class that is to be listed gets its reference from the class around it. -/
theorem enclosing_of_fate_eq_unlisted (h : s.fate origins c = .unlisted outer) :
    c.enclosing? = some outer := by
  obtain ⟨name, hname, hcontains⟩ :=
    enclosing_of_fate_ne_settled fun hsettled => nomatch hsettled.symm.trans h
  obtain ⟨o, hget⟩ := Option.isSome_iff_exists.1 hcontains
  rcases fate_cases origins hname hget with ⟨-, hfate⟩ | ⟨-, hfate | hfate⟩
  · cases hfate.symm.trans h
  · cases hfate.symm.trans h
  · rw [hname, Fate.unlisted.inj (hfate.symm.trans h)]

/-! ### References -/

/-- A reference to a nested class is called by the name of the class. -/
theorem qualifiedName_innerReference (hplaced : c.PlacedByName)
    (houter : c.enclosing? = some outer) : (innerReference outer c).qualifiedName = c.name := by
  have hkey : (innerReference outer c).key = ⟨.inner, outer, c.simpleName, []⟩ :=
    Member.key_withModifiers { kind := .inner, declaring := outer, name := c.simpleName } _
  have hne : outer ≠ [] := by
    rintro rfl
    unfold ClassDef.enclosing? at houter
    split at houter
    next => cases houter
    next hne => exact hne (Option.some.inj houter)
  obtain ⟨hkind, hdeclaring, hname, -⟩ := MemberKey.mk.inj hkey
  rw [Member.qualifiedName, hkind, hdeclaring, hname, ClassDef.name_of_placed hplaced houter]
  simp [Kind.isTypeRef, Kind.delimiter, hne]

/-- Where classes are placed by their names, a class is a duplicate if one of its name is. -/
theorem name_mem_duplicates_iff (origins : Origins)
    (hplaced : ∀ c ∈ s.values, c.PlacedByName) (hc : c ∈ s.values) :
    c.name ∈ s.duplicates origins ↔ s.fate origins c = .duplicate := by
  rw [mem_duplicates_iff]
  constructor
  · rintro ⟨d, hd, hname, hfate⟩
    rw [← hfate]
    exact fate_eq_of_name_eq (hplaced c hc) (hplaced d hd) hname.symm
  · exact fun hfate => ⟨c, hc, rfl, hfate⟩

/-- With the references that it gets, a class lists the classes inside it, but for duplicates. -/
theorem lists_with_references_iff (origins : Origins)
    (hplaced : ∀ c ∈ s.values, c.PlacedByName) (hc : c ∈ s.values)
    (houter : c.enclosing? = some outer) (hget : s.get? outer = some o) :
    lists { o with nested := o.nested ++ s.references origins outer } c.name = true ↔
      s.fate origins c ≠ .duplicate := by
  have happended : (s.references origins outer).any (·.qualifiedName = c.name) = true ↔
      ∃ d ∈ s.values, s.fate origins d = .unlisted outer ∧ d.name = c.name := by
    simp only [references, List.any_map, List.any_eq_true, List.mem_filter, Function.comp_apply,
      decide_eq_true_eq, and_assoc]
    refine exists_congr fun d => and_congr_right fun hd => and_congr_right fun hfate => ?_
    rw [qualifiedName_innerReference (hplaced d hd) (enclosing_of_fate_eq_unlisted hfate)]
  have hlists : lists { o with nested := o.nested ++ s.references origins outer } c.name = true ↔
      lists o c.name = true ∨
        ∃ d ∈ s.values, s.fate origins d = .unlisted outer ∧ d.name = c.name := by
    rw [← happended, ← Bool.or_eq_true]
    exact Bool.eq_iff_iff.1 List.any_append
  rw [hlists]
  rcases fate_cases origins houter hget with ⟨hlisted, hfate⟩ | ⟨hnot, hfate | hfate⟩
  · simp [hlisted, hfate]
  · refine iff_of_false ?_ (by simp [hfate])
    rintro (hlisted | ⟨d, hd, hunlisted, hname⟩)
    · simp [hnot] at hlisted
    · rw [fate_eq_of_name_eq (hplaced d hd) (hplaced c hc) hname, hfate] at hunlisted
      cases hunlisted
  · exact iff_of_true (.inr ⟨c, hc, hfate, rfl⟩) (by simp [hfate])

/-- The snapshot has a class that lists a nested class of a given name. -/
def References (s : Snapshot) (outer name : Text) : Prop :=
  ∃ o, s.get? outer = some o ∧ lists o name = true

/-- A nested class that is left, and around which there was a class, is listed by it exactly if
neither its name nor that of the class around it is the name of a duplicate. Its own name is none if
classes are listed under their names. -/
theorem nested_class_referenced_iff {key : Text} (hplaced : ∀ c ∈ s.values, c.PlacedByName)
    (hget : (s.registerNested origins).get? key = some c) (houter : c.enclosing? = some outer)
    (hbefore : s.contains outer = true) :
    ((s.registerNested origins).References outer c.name ↔
        outer ∉ s.duplicates origins ∧ c.name ∉ s.duplicates origins) ∧
      (s.Named → c.name ∉ s.duplicates origins) := by
  rw [get?_registerNested_of_keys] at hget
  split at hget
  next => cases hget
  next hkey =>
    obtain ⟨before, hc, rfl⟩ := Option.map_eq_some_iff.1 hget
    have hvalue : before ∈ s.values := mem_values_iff.2 ⟨key, hc⟩
    have hduplicate := name_mem_duplicates_iff origins hplaced hvalue
    obtain ⟨o, ho⟩ := Option.isSome_iff_exists.1 hbefore
    have hlists := lists_with_references_iff origins hplaced hvalue houter ho
    refine ⟨?_, fun hs hname => hkey (name_of_get? hs hc ▸ hname)⟩
    rw [References, get?_registerNested_of_keys]
    by_cases hremoved : outer ∈ s.duplicates origins
    · simp [hremoved]
    · simp only [hremoved, ho, if_false, Option.map_some, Option.some.injEq, exists_eq_left',
        not_false_eq_true, true_and]
      exact hlists.trans (not_congr hduplicate).symm

/-- A class and one that extends it. Each has a nested class with a nested class of its own, and
none lists any. -/
def twoLevels : Snapshot :=
  Merge.classesExtending [("a.A", none), ("a.A$I", none), ("a.A$I$J", none), ("a.B", some "a.A"),
    ("a.B$I", none), ("a.B$I$J", none)]

/-- The nested classes of the first class are listed. -/
theorem inner_nested_class_referenced :
    (twoLevels.registerNested (Merge.origins [twoLevels] twoLevels.keys)).References
        "a.A$I".toList "a.A$I$J".toList ∧
      (twoLevels.registerNested (Merge.origins [twoLevels] twoLevels.keys)).References
        "a.A".toList "a.A$I".toList := by
  have hplaced : ∀ c ∈ twoLevels.values, c.PlacedByName := by decide +kernel
  have hkept : ∀ name ∈ ["a.A".toList, "a.A$I".toList, "a.A$I$J".toList],
      name ∉ twoLevels.duplicates (Merge.origins [twoLevels] twoLevels.keys) := by decide +kernel
  have hinner : (twoLevels.registerNested (Merge.origins [twoLevels] twoLevels.keys)).get?
      "a.A$I$J".toList = some (ClassDef.ofName "a.A$I$J".toList) := by decide +kernel
  have hmiddle : (twoLevels.registerNested (Merge.origins [twoLevels] twoLevels.keys)).get?
      "a.A$I".toList = some { ClassDef.ofName "a.A$I".toList with
        nested := [innerReference "a.A$I".toList (ClassDef.ofName "a.A$I$J".toList)] } := by
    decide +kernel
  obtain ⟨hinnerListed, -⟩ := nested_class_referenced_iff hplaced hinner
    (show _ = some "a.A$I".toList by decide) (by decide +kernel)
  obtain ⟨hmiddleListed, -⟩ := nested_class_referenced_iff hplaced hmiddle
    (show _ = some "a.A".toList by decide) (by decide +kernel)
  exact ⟨hinnerListed.2 ⟨hkept _ (by decide), hkept _ (by decide)⟩,
    hmiddleListed.2 ⟨hkept _ (by decide), hkept _ (by decide)⟩⟩

/-- The nested class of the second class is removed as a duplicate, and the class inside it is
left. -/
theorem nested_class_left_behind :
    (∀ c ∈ twoLevels.values, c.PlacedByName) ∧ twoLevels.Named ∧
      twoLevels.contains "a.B$I".toList = true ∧
      ∃ c, (twoLevels.registerNested (Merge.origins [twoLevels] twoLevels.keys)).get?
          "a.B$I$J".toList = some c ∧ c.enclosing? = some "a.B$I".toList ∧
        (twoLevels.registerNested (Merge.origins [twoLevels] twoLevels.keys)).contains
          "a.B$I".toList = false :=
  ⟨by decide +kernel, Snapshot.named_ofClasses _, by decide +kernel,
    ClassDef.ofName "a.B$I$J".toList, by decide +kernel, by decide, by decide +kernel⟩

end Snapshot

end ApiSurface
