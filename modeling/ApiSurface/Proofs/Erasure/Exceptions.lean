import ApiSurface.Proofs.Erasure.Groups
import ApiSurface.Proofs.Erasure.Placeholder

/-!
# Erased exceptions

The exceptions of a member are kept as one text, with the names in ascending order. Erasure goes
over the text in place: where no name leaves a bracket or a brace open, each name is erased by
itself (`throws_erased`), but the names are neither put in order again nor compared. What is in order
before is in order afterwards exactly if the erased names ascend (`normalised_erased_iff`).
-/

namespace ApiSurface

open Text GroupState

/-- A text is a list of exceptions in normal form: names that are not blank, in ascending order,
with commas between them. -/
def Normalised (t : Text) : Prop :=
  ∃ names : List Text, names.Pairwise (compare · · = .lt) ∧
    (∀ n ∈ names, (∃ c ∈ n, isBlank c = false) ∧ ',' ∉ n) ∧ t = [','].intercalate names

/-- A name leaves no bracket and no brace open once its type arguments are removed, and something is
left of it. -/
structure SelfContained (name : Text) : Prop where
  /-- No bracket is open behind the name. -/
  brackets : outside.after (strip name) = outside
  /-- Every opening brace is that of a placeholder. -/
  braces : .plain '{' ∉ pieces (strip name)
  /-- The name is not all type arguments. -/
  not_blank : ∃ c ∈ strip name, isBlank c = false

theorem selfContained_iff {name : Text} :
    SelfContained name ↔ outside.after (strip name) = outside ∧
      .plain '{' ∉ pieces (strip name) ∧ (strip name).any (!isBlank ·) = true := by
  have hblank : (strip name).any (!isBlank ·) = true ↔ ∃ c ∈ strip name, isBlank c = false := by
    simp only [List.any_eq_true, Bool.not_eq_true']
  rw [hblank]
  exact ⟨fun h => ⟨h.brackets, h.braces, h.not_blank⟩, fun h => ⟨h.1, h.2.1, h.2.2⟩⟩

instance (name : Text) : Decidable (SelfContained name) :=
  decidable_of_iff _ selfContained_iff.symm

/-! ### Lists with commas -/

theorem filter_split_intercalate {names : List Text}
    (h : ∀ n ∈ names, (∃ c ∈ n, isBlank c = false) ∧ ',' ∉ n) :
    (split (· == ',') ([','].intercalate names)).filter (· ≠ []) = names := by
  rcases names with _ | ⟨n, names⟩
  · rfl
  · rw [split_intercalate (List.cons_ne_nil n names) fun t ht => (h t ht).2]
    refine List.filter_eq_self.2 fun t ht => ?_
    obtain ⟨⟨c, hc, -⟩, -⟩ := h t ht
    simpa using List.ne_nil_of_mem hc

/-- Names with commas between them are in normal form exactly if they ascend. -/
theorem normalised_intercalate_iff {names : List Text}
    (h : ∀ n ∈ names, (∃ c ∈ n, isBlank c = false) ∧ ',' ∉ n) :
    Normalised ([','].intercalate names) ↔ names.Pairwise (compare · · = .lt) := by
  constructor
  · rintro ⟨names', hascend, h', heq⟩
    rwa [← filter_split_intercalate h, heq, filter_split_intercalate h']
  · exact fun hascend => ⟨names, hascend, h, rfl⟩

theorem normalised_nil : Normalised [] := ⟨[], .nil, List.forall_mem_nil _, rfl⟩

/-! ### Names erased one by one -/

theorem strip_comma (t : Text) : strip (',' :: t) = ',' :: strip t := by
  have hcomma : strip [','] = [','] := strip_of_removeGroup?_eq_none rfl
  have happend := strip_append (t := [',']) (by rw [hcomma]; decide) t
  rwa [hcomma] at happend

section Expand

variable (lookup : Text → Option Text) (depth : Nat)

theorem value_expand_nil : (expand lookup depth []).value = [] := by
  rw [expand_eq_fill, value_fill, pieces]
  rfl

theorem value_expand_comma (t : Text) :
    (expand lookup depth (',' :: t)).value = ',' :: (expand lookup depth t).value := by
  rw [expand_eq_fill, value_fill, pieces, if_neg (by decide), List.flatMap_cons, value_fill]
  rfl

/-- Names that leave nothing open are erased one by one. -/
theorem value_expand_strip_intercalate {names : List Text} (h : ∀ n ∈ names, SelfContained n) :
    (expand lookup depth (strip ([','].intercalate names))).value =
      [','].intercalate (names.map fun n => (expand lookup depth (strip n)).value) := by
  induction names with
  | nil =>
    rw [List.map_nil, show [','].intercalate ([] : List Text) = [] from rfl,
      strip_of_removeGroup?_eq_none rfl, value_expand_nil]
  | cons n names ih =>
    obtain ⟨hn, hnames⟩ := List.forall_mem_cons.1 h
    rcases names with _ | ⟨n', names⟩
    · rw [List.intercalate_singleton, List.map_singleton, List.intercalate_singleton]
    · rw [List.intercalate_cons_cons, List.append_assoc, List.singleton_append,
        strip_append hn.brackets, strip_comma, value_expand_append lookup depth hn.braces,
        value_expand_comma, ih hnames]
      simp only [List.map_cons, List.intercalate_cons_cons, List.append_assoc,
        List.singleton_append]

end Expand

namespace Member

/-- The declared exceptions, each erased by itself. -/
def erasedExceptions (policy : UnboundPolicy) (outer : Params) (m : Member) : List Text :=
  m.throwsList.map fun n =>
    (substituteText outer (.ofDecl? .ofMember policy m.typeParams) n).value

variable {policy : UnboundPolicy} {m : Member}

/-- Exceptions in normal form are the names between commas. -/
theorem of_normalised_throws (h : Normalised m.throws) :
    (∀ n ∈ m.throwsList, (∃ c ∈ n, isBlank c = false) ∧ ',' ∉ n) ∧
      m.throws = [','].intercalate m.throwsList := by
  obtain ⟨names, -, hnames, heq⟩ := h
  have hlist : m.throwsList = names := by rw [throwsList, heq, filter_split_intercalate hnames]
  exact ⟨hlist ▸ hnames, hlist ▸ heq⟩

/-- The erased exceptions are the names erased one by one, in their old order. -/
theorem throws_erased {outer : Params} (hnormal : Normalised m.throws)
    (hnames : ∀ n ∈ m.throwsList, SelfContained n) :
    (m.erased policy outer).throws = [','].intercalate (m.erasedExceptions policy outer) := by
  have hthrows : (m.erased policy outer).throws =
      (substituteText outer (.ofDecl? .ofMember policy m.typeParams) m.throws).value := rfl
  rw [hthrows, value_substituteText, (of_normalised_throws hnormal).2,
    value_expand_strip_intercalate _ _ hnames]
  simp only [erasedExceptions, value_substituteText]

/-- An erased name is a name. -/
theorem name_of_mem_erasedExceptions {scope : Scope} {decl : Option Text}
    (hnormal : Normalised m.throws) (hnames : ∀ n ∈ m.throwsList, SelfContained n) :
    ∀ n ∈ m.erasedExceptions policy (.ofDecl? scope policy decl),
      (∃ c ∈ n, isBlank c = false) ∧ ',' ∉ n := by
  intro n' hn'
  obtain ⟨n, hn, rfl⟩ := List.mem_map.1 hn'
  rw [value_substituteText]
  constructor
  · exact exists_not_blank_expand (fun p value h => (name_of_lookupParam h).2) _
      (hnames n hn).not_blank
  · have hcomma : ∀ c ∈ strip n, c ≠ ',' := by
      rintro c hc rfl
      exact ((of_normalised_throws hnormal).1 n hn).2 ((strip_sublist n).subset hc)
    have hvalue : ∀ p value, lookupParam (.ofDecl? scope policy decl)
        (.ofDecl? .ofMember policy m.typeParams) p = some value → ∀ c ∈ value, c ≠ ',' := by
      rintro p value h c hc rfl
      cases (name_of_lookupParam h).1 ',' hc
    exact fun hmem => forall_mem_expand hvalue maxBoundDepth hcomma ',' hmem rfl

/-- Exceptions in normal form are in normal form after erasure exactly if the erased names
ascend. -/
theorem normalised_erased_iff {scope : Scope} {decl : Option Text} (hnormal : Normalised m.throws)
    (hnames : ∀ n ∈ m.throwsList, SelfContained n) :
    Normalised (m.erased policy (.ofDecl? scope policy decl)).throws ↔
      (m.erasedExceptions policy (.ofDecl? scope policy decl)).Pairwise (compare · · = .lt) := by
  rw [throws_erased hnormal hnames]
  exact normalised_intercalate_iff (name_of_mem_erasedExceptions hnormal hnames)

end Member

end ApiSurface
