import ApiSurface.Proofs.Line.Words

/-!
# Entity lines read back

The line of a well-formed member is read as that member without its annotations
(`parseMember_line`), for each kind by the function that reads its tokens. It is enough that the
member has the shape of those that are read from lines and is legible
(`parseMember_line_of_legible`).
-/

namespace ApiSurface

open Text Line

namespace Member

variable {m : Member}

/-- The member without the parts that are not read from the tokens of its line. -/
def bare (m : Member) : Member := { m with modifiers := .none, annots := ∅ }

/-! ### Reading the tokens -/

theorem cutName_qualifiedName (h : m.Shaped) (hk : m.kind.isTypeRef = false) :
    cutName m.kind.delimiter m.qualifiedName = .ok (m.declaring, m.name) := by
  obtain ⟨hdeclaring, hname, hdelimiter⟩ := h.declaring hk
  rw [cutName, cutLast?_qualifiedName hk hdeclaring hdelimiter]
  simp only
  rw [if_neg (by simp [hdeclaring, hname])]

/-- In front of a generics declaration or a text that is no keyword the modifiers end. -/
theorem takeModifiers_lead (h : m.Shaped) (hk : m.kind ∉ [.superclass, .interface, .permitted])
    (us : List Text) :
    takeModifiers (m.lead ++ us) = (m.modifiers, m.typeParams.toList ++ (m.core ++ us)) := by
  rw [lead, List.append_assoc, List.append_assoc]
  refine takeModifiers_toList h.valid.1 fun t ht => ?_
  rcases hp : m.typeParams with _ | p
  · rw [hp, Option.toList_none, List.nil_append, List.head?_append_of_ne_nil _ m.core_ne_nil] at ht
    exact h.keyword hk hp t ht
  · rw [hp, Option.toList_some, List.singleton_append, List.head?_cons, Option.some.injEq] at ht
    rw [← ht]
    exact ofWord?_eq_none_of_mem (c := '<') (by decide) (List.mem_of_head? (h.typeParams p hp))

theorem takeGenerics_core (h : m.Shaped) (hk : m.kind ∈ [.header, .constructor, .method])
    (us : List Text) :
    takeGenerics (m.typeParams.toList ++ (m.core ++ us)) = (m.typeParams, m.core ++ us) := by
  rcases hp : m.typeParams with _ | p
  · obtain ⟨t, ts, hcore⟩ := List.exists_cons_of_ne_nil m.core_ne_nil
    have hne : t.head? ≠ some '<' := by
      simp only [List.mem_cons, List.not_mem_nil, or_false] at hk
      rcases hk with hk | hk | hk
      · obtain ⟨rfl, -⟩ : m.name = t ∧ [] = ts := by simpa [core, hk] using hcore
        exact fun heq => h.name (by rw [hk]; rfl) (List.mem_of_head? heq)
      all_goals exact h.noGenerics (by rw [hk]; rfl) hp t (by rw [hcore]; rfl)
    rw [Option.toList_none, List.nil_append, hcore, List.cons_append, takeGenerics, if_neg hne]
  · rw [Option.toList_some, List.singleton_append, takeGenerics, if_pos (h.typeParams p hp)]

theorem takeArgs_args (args : Text) (ts : List Text) :
    takeArgs (('(' :: args ++ [')']) :: ts) = .ok (args, ts) := by
  have hargs : argsOf? ('(' :: args ++ [')']) = some args := dropEnd?_eq_some_iff.2 rfl
  rw [takeArgs, hargs]

/-- The constant at the end of a field's line is read back. -/
theorem readConstant_constantTokens (constant : Option Text) :
    readConstant (constantTokens constant) = .ok constant := by
  rcases constant with _ | _ | ⟨c, r⟩ <;> rfl

/-- A name and the type arguments behind it are cut apart again. -/
theorem cutTypeArgs_append {name : Text} (hname : '<' ∉ name) (params : Option Text)
    (hparams : ∀ p ∈ params, p.head? = some '<') :
    cutTypeArgs (name ++ params.getD []) = (name, params) := by
  have hall : ∀ c ∈ name, decide (c ≠ '<') = true := fun c hc =>
    decide_eq_true fun heq => hname (heq ▸ hc)
  rw [cutTypeArgs, List.takeWhile_append_of_pos hall, List.dropWhile_append_of_pos hall]
  rcases hp : params with _ | p
  · simp
  · obtain ⟨r, rfl⟩ : ∃ r, p = '<' :: r := by
      obtain ⟨c, r, rfl⟩ := List.exists_cons_of_ne_nil (l := p) fun hnil => by
        have := hparams p hp
        rw [hnil] at this
        cases this
      have := hparams (c :: r) hp
      cases this
      exact ⟨r, rfl⟩
    simp

/-- A member without anything else is made of the parts that its line shows. -/
theorem bare_eq (h : m.Plain) : m.bare =
    { kind := m.kind
      declaring :=
        if m.kind.isTypeRef then (Member.typeRef m.kind m.name).declaring else m.declaring
      name := m.name
      typeName := if m.kind ∈ [.method, .field] then m.typeName else []
      args := if m.kind.isCallable then m.args else []
      throws := if m.kind.isCallable then m.throws else []
      typeParams := if m.kind ∈ [.field, .inner] then none else m.typeParams
      constant := if m.kind = .field then m.constant else none
      direct := if m.kind = .interface then m.direct else false } := by
  have houter : (if m.kind.isTypeRef then (Member.typeRef m.kind m.name).declaring
      else m.declaring) = m.declaring := by
    split
    next hk => exact (h.outer hk).symm
    next => rfl
  have htype : (if m.kind ∈ [.method, .field] then m.typeName else []) = m.typeName := by
    split
    next => rfl
    next hk => exact (h.noTypeName hk).symm
  have hargs : (if m.kind.isCallable then m.args else []) = m.args := by
    split
    next => rfl
    next hk => exact (h.noArgs (by simpa using hk)).symm
  have hthrows : (if m.kind.isCallable then m.throws else []) = m.throws := by
    split
    next => rfl
    next hk => exact (h.noThrows (by simpa using hk)).symm
  have hparams : (if m.kind ∈ [.field, .inner] then none else m.typeParams) = m.typeParams := by
    split
    next hk => exact (h.noTypeParams hk).symm
    next => rfl
  have hconstant : (if m.kind = .field then m.constant else none) = m.constant := by
    split
    next => rfl
    next hk => exact (h.noConstant hk).symm
  have hdirect : (if m.kind = .interface then m.direct else false) = m.direct := by
    split
    next => rfl
    next hk => exact (h.direct hk).symm
  rw [houter, htype, hargs, hthrows, hparams, hconstant, hdirect]
  rfl

theorem readHeader_lead (h : m.Shaped) (hk : m.kind = .header) :
    (readHeader m.lead).result = .ok ⟨m.bare, m.modifiers⟩ := by
  have hcut : cutTypeArgs m.name = (m.name, none) := by
    have := cutTypeArgs_append (h.name (by rw [hk]; rfl)) none (by simp)
    rwa [Option.getD_none, List.append_nil] at this
  have hcore : m.core = [m.name] := by simp only [core, hk]
  have hmods := takeModifiers_lead h (by rw [hk]; decide) []
  have hgenerics := takeGenerics_core h (by rw [hk]; decide) []
  simp only [hcore, List.append_nil] at hmods hgenerics
  rw [bare_eq h.toPlain, hk]
  simp only [readHeader, hmods, hgenerics, hcut, expectEnd]
  cases m.typeParams <;> rfl

/-- A reference is read from its last token, whatever stands in front of it. -/
theorem readTypeRef_core (h : m.Shaped) (hk : m.kind ∈ [.superclass, .interface, .permitted])
    (us : List Text) :
    (readTypeRef m.kind m.direct (us ++ m.core)).result = .ok ⟨m.bare, m.modifiers⟩ := by
  have href : m.kind.isTypeRef = true := by
    simp only [List.mem_cons, List.not_mem_nil, or_false] at hk
    rcases hk with hk | hk | hk <;> rw [hk] <;> rfl
  have hmods : m.modifiers = .none := by
    have hsubset := h.valid.1
    have hnone : m.kind.allowed = .none := by
      simp only [List.mem_cons, List.not_mem_nil, or_false] at hk
      rcases hk with hk | hk | hk <;> rw [hk] <;> rfl
    rw [hnone, Modifiers.isSubset_iff] at hsubset
    ext i hi
    have := hsubset i hi
    simpa [Modifiers.none] using this
  have hcut := cutTypeArgs_append (h.name href) m.typeParams h.typeParams
  have hlast : (us ++ m.core).getLast? = some (m.name ++ m.typeParams.getD []) := by
    rw [core_typeRef hk, List.getLast?_append, List.getLast?_singleton]
    rfl
  simp only [readTypeRef, hlast, hcut]
  rw [bare_eq h.toPlain, hmods]
  have hdirect : (if m.kind = .interface then m.direct else false) = m.direct := by
    split
    next => rfl
    next hne => exact (h.direct hne).symm
  rw [hdirect]
  simp only [List.mem_cons, List.not_mem_nil, or_false] at hk
  rcases hk with hk | hk | hk <;> rw [hk] <;> rfl

/-- What follows the arguments of a constructor is read as its exceptions. -/
theorem readConstructor_lead (h : m.Shaped) (hk : m.kind = .constructor) (us : List Text) :
    (readConstructor (m.lead ++ us)).result = (readThrows us).map fun list =>
      ⟨{ m.bare with throws := throwsText list }, m.modifiers⟩ := by
  have hcut : cutName '.' m.qualifiedName = .ok (m.declaring, m.name) := by
    have := cutName_qualifiedName h (by rw [hk]; rfl)
    rwa [hk] at this
  have hcore : m.core = [m.qualifiedName, '(' :: m.args ++ [')']] := by simp only [core, hk]
  have hmods := takeModifiers_lead h (by rw [hk]; decide) us
  have hgenerics := takeGenerics_core h (by rw [hk]; decide) us
  rw [hcore] at hmods hgenerics
  rw [bare_eq h.toPlain, hk]
  simp only [readConstructor, hmods, hgenerics]
  change Reading.result (liftM (cutName '.' m.qualifiedName) >>= _) = _
  rw [hcut]
  change Reading.result (liftM (takeArgs (('(' :: m.args ++ [')']) :: us)) >>= _) = _
  rw [takeArgs_args]
  change Reading.result (liftM (readThrows us) >>= _) = _
  cases readThrows us <;> rfl

/-- What follows the arguments of a method is read as its exceptions. -/
theorem readMethod_lead (h : m.Shaped) (hk : m.kind = .method) (us : List Text) :
    (readMethod (m.lead ++ us)).result = (readThrows us).map fun list =>
      ⟨{ m.bare with throws := throwsText list }, m.modifiers⟩ := by
  have hcut : cutName '.' m.qualifiedName = .ok (m.declaring, m.name) := by
    have := cutName_qualifiedName h (by rw [hk]; rfl)
    rwa [hk] at this
  have hcore : m.core = [m.typeName, m.qualifiedName, '(' :: m.args ++ [')']] := by
    simp only [core, hk]
  have hmods := takeModifiers_lead h (by rw [hk]; decide) us
  have hgenerics := takeGenerics_core h (by rw [hk]; decide) us
  rw [hcore] at hmods hgenerics
  rw [bare_eq h.toPlain, hk]
  simp only [readMethod, hmods, hgenerics]
  change Reading.result (liftM (cutName '.' m.qualifiedName) >>= _) = _
  rw [hcut]
  change Reading.result (liftM (takeArgs (('(' :: m.args ++ [')']) :: us)) >>= _) = _
  rw [takeArgs_args]
  change Reading.result (liftM (readThrows us) >>= _) = _
  cases readThrows us <;> rfl

theorem readField_lead (h : m.Shaped) (hk : m.kind = .field) :
    (readField (m.lead ++ constantTokens m.constant)).result = .ok ⟨m.bare, m.modifiers⟩ := by
  have hcut : cutName '.' m.qualifiedName = .ok (m.declaring, m.name) := by
    have := cutName_qualifiedName h (by rw [hk]; rfl)
    rwa [hk] at this
  have hcore : m.core = [m.typeName, m.qualifiedName] := by simp only [core, hk]
  have hparams : m.typeParams = none := h.noTypeParams (by rw [hk]; decide)
  have hmods := takeModifiers_lead h (by rw [hk]; decide) (constantTokens m.constant)
  rw [hcore, hparams] at hmods
  rw [bare_eq h.toPlain, hk]
  simp only [readField, hmods, Option.toList_none, List.cons_append, List.nil_append, hcut]
  change Reading.result (liftM (readConstant _) >>= _) = _
  rw [readConstant_constantTokens]
  rfl

theorem readInner_lead (h : m.Shaped) (hk : m.kind = .inner) :
    (readInner m.lead).result = .ok ⟨m.bare, m.modifiers⟩ := by
  have hcut : cutName '$' m.qualifiedName = .ok (m.declaring, m.name) := by
    have := cutName_qualifiedName h (by rw [hk]; rfl)
    rwa [hk] at this
  have hcore : m.core = [m.qualifiedName] := by simp only [core, hk]
  have hparams : m.typeParams = none := h.noTypeParams (by rw [hk]; decide)
  have hmods := takeModifiers_lead h (by rw [hk]; decide) []
  rw [hcore, hparams, List.append_nil] at hmods
  rw [bare_eq h.toPlain, hk]
  simp only [readInner, hmods, Option.toList_none, List.append_nil, List.nil_append, expectEnd,
    hcut]
  rfl

/-! ### Whole lines -/

/-- A line is the tag of the kind with the words behind it. -/
theorem cutTag_line (m : Member) :
    cutTag m.line = (m.kind.tag, [' '].intercalate (m.words.filter (· ≠ []))) := by
  have hspace : ' ' ∉ m.kind.tag := by cases m.kind <;> decide
  unfold line
  rcases m.words.filter (· ≠ []) with _ | ⟨w, ws⟩
  · have hcut : cutFirst? ' ' m.kind.tag = none := cutFirst?_eq_none_iff.2 hspace
    simp [cutTag, hcut]
  · have hcut : cutFirst? ' ' (m.kind.tag ++ ' ' :: [' '].intercalate (w :: ws)) =
        some (m.kind.tag, [' '].intercalate (w :: ws)) := cutFirst?_eq_some_iff.2 ⟨rfl, hspace⟩
    rw [List.intercalate_cons_cons, List.append_assoc, List.singleton_append, cutTag, hcut]
    rfl

theorem exists_line_eq (m : Member) : ∃ rest, m.line = m.kind.tag ++ rest := by
  unfold line
  rcases m.words.filter (· ≠ []) with _ | ⟨w, ws⟩
  · exact ⟨[], by simp⟩
  · exact ⟨_, by rw [List.intercalate_cons_cons, List.append_assoc]⟩

theorem head?_line (m : Member) : ∀ c ∈ m.line.head?, isBlank c = false ∧ c ≠ '@' := by
  intro c hc
  obtain ⟨rest, hline⟩ := exists_line_eq m
  rw [hline] at hc
  cases hk : m.kind <;> rw [hk] at hc <;> cases hc <;> decide

theorem takeMark_line (m : Member) : takeMark m.line = (false, m.line) := by
  rcases hline : m.line with _ | ⟨c, r⟩
  · rfl
  · have hc : c ≠ '@' := (head?_line m c (by rw [hline]; rfl)).2
    unfold takeMark
    split
    next heq => exact absurd (List.cons.inj heq).1 hc
    next => rfl

/-- What is left to ask of the texts of a member, if its line is to be read as it. -/
@[mk_iff]
structure Legible (m : Member) : Prop where
  /-- The name and the generics declaration of a class are tokens. -/
  header : m.kind = .header → IsToken m.name ∧ ∀ p ∈ m.typeParams, IsToken p
  /-- The name of an interface is not taken for the mark of direct interfaces. -/
  mark : m.kind = .interface → m.direct = false → m.name ++ m.typeParams.getD [] ≠ ['@']
  /-- The exceptions are one token. -/
  throws : m.throws ≠ [] → IsToken m.throws
  /-- The last character of the line is not taken for a line end. -/
  lineEnd : m.line.getLast? ≠ some '\r' ∧ m.line.getLast? ≠ some '\n'

instance (m : Member) : Decidable m.Legible := decidable_of_iff' _ (legible_iff m)

theorem WellFormed.legible (h : m.WellFormed) : m.Legible where
  header hk := ⟨h.name.isToken, fun p hp => (h.generics (by rw [hk]; decide) p hp).1⟩
  mark _ _ heq := by
    obtain ⟨c, r, hname⟩ := List.exists_cons_of_ne_nil h.name.1
    have hhead := h.name.head?_ne (c := '@') (by decide)
    rw [hname, List.cons_append] at heq
    rw [hname, List.head?_cons] at hhead
    exact hhead (congrArg some (List.cons.inj heq).1)
  throws hne := by
    rcases hk : m.kind.isCallable
    · exact absurd (h.noThrows hk) hne
    · exact ((h.throws hk).resolve_left hne).1
  lineEnd := ⟨h.oneLine.2, fun hlast => h.oneLine.1 (List.mem_of_getLast? hlast)⟩

/-- Nothing is taken off the ends of a line that does not end in a line end. -/
theorem entityText_line_of_legible (h : m.Legible) : entityText m.line = m.line :=
  entityText_eq_self (fun c hc => (head?_line m c hc).1) h.lineEnd.1 h.lineEnd.2

theorem entityText_line (h : m.WellFormed) : entityText m.line = m.line :=
  entityText_line_of_legible h.legible

/-- The exceptions at the end of a callable's line are read back. -/
theorem readThrows_exceptionWords (h : m.Shaped) (hl : m.Legible) :
    ∃ us list, tokens ([' '].intercalate (m.exceptionWords.filter (· ≠ []))) = .ok us ∧
      readThrows us = .ok list ∧ throwsText list = m.throws := by
  by_cases hnil : m.throws = []
  · refine ⟨[], [], ?_, rfl, ?_⟩
    · rw [exceptionWords, if_pos hnil, List.filter_nil, List.intercalate_nil, tokens_nil]
    · rw [hnil]
      rfl
  · refine ⟨["throws".toList, m.throws], split (· == ',') m.throws, ?_, rfl, h.throws⟩
    have hword : tokens "throws".toList = .ok ["throws".toList] ∧ Closed ["throws".toList] :=
      ⟨tokens_of_isPlain (by decide) (by decide), closed_singleton (by decide)⟩
    have hthrows : tokens m.throws = .ok [m.throws] := hl.throws hnil
    have happend := tokens_intercalate_append (.cons hword .nil) [m.throws]
    rw [intercalate_filter_singleton, hthrows] at happend
    rw [exceptionWords, if_neg hnil]
    exact happend

/-- The tokens of a member's line are read as the member. -/
theorem readTokens_line (h : m.Shaped) (hl : m.Legible) :
    ∃ ts, tokens ([' '].intercalate (m.words.filter (· ≠ []))) = .ok ts ∧
      (readTokens m.kind false ts).result = .ok ⟨m.bare, m.modifiers⟩ := by
  rcases hk : m.kind
  case header =>
    obtain ⟨hname, hparams⟩ := hl.header hk
    refine ⟨m.lead, ?_, readHeader_lead h hk⟩
    rw [tokens_words_header hk, tokens_typeParams_name h hparams, hname]
    simp [lead, core, hk, Except.map]
  case superclass | permitted =>
    have href : m.kind ∈ [.superclass, .interface, .permitted] := by rw [hk]; decide
    have hdirect : m.direct = false := h.direct (by rw [hk]; decide)
    have hread := readTypeRef_core h href []
    rw [hk, hdirect] at hread
    refine ⟨m.core, ?_, hread⟩
    rw [tokens_words_typeRef h href, hdirect]
    rfl
  case interface =>
    have href : m.kind ∈ [.superclass, .interface, .permitted] := by rw [hk]; decide
    have hmark : (((if m.direct then [['@']] else []) ++ m.core).head? == some ['@']) =
        m.direct := by
      rcases hdirect : m.direct
      · have hne := hl.mark hk hdirect
        rw [core_typeRef href]
        simpa using hne
      · rfl
    refine ⟨_, tokens_words_typeRef h href, ?_⟩
    have hread := readTypeRef_core h href (if m.direct then [['@']] else [])
    rw [readTokens, Bool.false_or, hmark]
    rwa [hk] at hread
  case constructor =>
    obtain ⟨us, list, hus, hread, hthrows⟩ := readThrows_exceptionWords h hl
    refine ⟨m.lead ++ us, ?_, ?_⟩
    · rw [tokens_words_callable h (by rw [hk]; rfl), hus]
      rfl
    · rw [readTokens, readConstructor_lead h hk, hread, Except.map, hthrows]
      rfl
  case method =>
    obtain ⟨us, list, hus, hread, hthrows⟩ := readThrows_exceptionWords h hl
    refine ⟨m.lead ++ us, ?_, ?_⟩
    · rw [tokens_words_callable h (by rw [hk]; rfl), hus]
      rfl
    · rw [readTokens, readMethod_lead h hk, hread, Except.map, hthrows]
      rfl
  case field => exact ⟨_, tokens_words_field h hk, readField_lead h hk⟩
  case inner => exact ⟨_, tokens_words_inner h hk, readInner_lead h hk⟩

/-- A line without line ends behind it is read by the tokens behind its tag. -/
theorem readDraft_line (hl : entityText m.line = m.line) {ts : List Text}
    (hts : tokens ([' '].intercalate (m.words.filter (· ≠ []))) = .ok ts) :
    (readDraft m.line).result =
      (readTokens m.kind false ts).result.mapError (.faulty · m.line) := by
  have hscan : scan ([' '].intercalate (m.words.filter (· ≠ []))) = .ok ts := by
    rw [scan, hts]
    rfl
  simp only [readDraft, hl, takeMark_line, cutTag_line, Kind.ofTag?_tag, hscan,
    Bool.false_eq_true, false_and, if_false]
  rfl

/-- The line of a member says all of it but the annotations, if it has the shape of those that are
read from lines and is legible. -/
theorem parseMember_line_of_legible (h : m.Shaped) (hl : m.Legible) :
    parseMember m.line = .ok { m with annots := ∅ } := by
  have hset : m.bare.setModifiers? m.modifiers = .ok { m with annots := ∅ } := by
    refine setModifiers?_eq_ok_iff.2 ⟨h.valid.1, ?_⟩
    rw [closeModifiers_of_valid h.valid]
    rfl
  obtain ⟨ts, hts, hread⟩ := readTokens_line h hl
  rw [parseMember_eq, readDraft_line (entityText_line_of_legible hl) hts, hread]
  change (m.bare.setModifiers? m.modifiers).mapError _ = _
  rw [hset]
  rfl

/-- The line of a well-formed member says all of it but the annotations. -/
theorem parseMember_line (h : m.WellFormed) : parseMember m.line = .ok { m with annots := ∅ } :=
  parseMember_line_of_legible h.shaped h.legible

end Member

end ApiSurface
