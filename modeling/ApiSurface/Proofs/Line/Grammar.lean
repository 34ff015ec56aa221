import ApiSurface.Line.Group
import ApiSurface.Proofs.Line.Shape

/-!
# The grammar of lines

The grammar of the lines of a class (`DocumentedLine`), and the lines that are read although they
are not in it (`ToleratedLine`): what stands in front of the name on the line of a supertype or a
permitted subtype is passed over, a name may be missing, a class may have a second generics
declaration, and the tag of hidden names need not end where it ends. The tokens of a line are read
exactly if they are of one of these two kinds (`reads_tokens`), and never of both
(`Documented.not_tolerated`).
-/

namespace ApiSurface

open Text Line

namespace Line

/-! ### The grammar -/

/-- The token of a type: a name and, in one pair of brackets, type arguments. -/
def IsTypeToken (t : Text) : Prop :=
  ∃ name args, t = name ++ args ∧ name ≠ [] ∧ '<' ∉ name ∧ (args = [] ∨ span? args = some (args, []))

/-- A qualified name: a declaring type and a simple name with a delimiter between them. -/
def IsQualified (delimiter : Char) (t : Text) : Prop :=
  ∃ declaring name, t = declaring ++ delimiter :: name ∧ declaring ≠ [] ∧ name ≠ [] ∧
    delimiter ∉ name

/-- Modifiers that an entity of a kind may have, in front of tokens that start with no keyword. -/
structure IsLead (kind : Kind) (mods : List Modifier) (ts : List Text) : Prop where
  /-- The modifiers are in the mask of the kind. -/
  allowed : ∀ m ∈ mods, kind.allowed.has m = true
  /-- What follows is no modifier. -/
  keyword : ∀ t ∈ ts.head?, Modifier.ofWord? t = none

/-- A generics declaration, or none, in front of other tokens. -/
structure IsGenerics (generics : Option Text) (ts : List Text) : Prop where
  /-- A declaration stands in angle brackets. -/
  bracket : ∀ g ∈ generics, g.head? = some '<'
  /-- Without a declaration no bracket follows. -/
  none : generics = none → ∀ t ∈ ts.head?, t.head? ≠ some '<'

/-- Nothing, or exceptions behind their keyword. -/
def IsThrows (ts : List Text) : Prop := ts = [] ∨ ∃ list, ts = ["throws".toList, list]

/-- Nothing, or a constant behind an equals sign. -/
def IsConstant (ts : List Text) : Prop := ts = [] ∨ ∃ value, ts = ['=' :: value]

/-- The tokens behind the tag of an entity line, where `marked` says whether an at sign stands in
front of the tag. -/
inductive Documented : (kind : Kind) → (marked : Bool) → List Text → Prop where
  /-- `class <mods> [<T,...>] <qualified.Name>`, with the declaration in front of or behind the
  name. -/
  | header {mods : List Modifier} {generics : Option Text} {t : Text} :
    IsLead .header mods (generics.toList ++ [t]) → IsGenerics generics [t] → IsTypeToken t →
    (generics ≠ none → '<' ∉ t) →
    Documented .header false (mods.map Modifier.word ++ (generics.toList ++ [t]))
  /-- `superclass <qualified.Name>[<actualArgs>]`. -/
  | superclass {t : Text} : IsTypeToken t → Documented .superclass false [t]
  /-- `interface <qualified.Name>[<actualArgs>]`, and with `@` in front. -/
  | interface {marked : Bool} {t : Text} : IsTypeToken t → t ≠ ['@'] →
    Documented .interface marked [t]
  /-- `interface @ <qualified.Name>[<actualArgs>]`. -/
  | direct {t : Text} : IsTypeToken t → t ≠ ['@'] → Documented .interface false [['@'], t]
  /-- `permittedsubclass <qualified.Name>`. -/
  | permitted {t : Text} : IsTypeToken t → Documented .permitted false [t]
  /-- `field <mods> <type> <declClass>.<name> [= <const>]`. -/
  | field {mods : List Modifier} {typeName qualified : Text} {rest : List Text} :
    IsLead .field mods (typeName :: qualified :: rest) → IsQualified '.' qualified →
    IsConstant rest →
    Documented .field false (mods.map Modifier.word ++ (typeName :: qualified :: rest))
  /-- `method <mods> [<T,...>] <type> <declClass>.<name>(<argTypes>) [throws <exc,...>]`. -/
  | method {mods : List Modifier} {generics : Option Text} {typeName qualified args : Text}
    {rest : List Text} :
    IsLead .method mods
      (generics.toList ++ typeName :: qualified :: ('(' :: args ++ [')']) :: rest) →
    IsGenerics generics (typeName :: qualified :: ('(' :: args ++ [')']) :: rest) →
    IsQualified '.' qualified → IsThrows rest →
    Documented .method false (mods.map Modifier.word ++
      (generics.toList ++ typeName :: qualified :: ('(' :: args ++ [')']) :: rest))
  /-- `constructor <mods> [<T,...>] <declClass>.<name>(<argTypes>) [throws <exc,...>]`. -/
  | constructor {mods : List Modifier} {generics : Option Text} {qualified args : Text}
    {rest : List Text} :
    IsLead .constructor mods (generics.toList ++ qualified :: ('(' :: args ++ [')']) :: rest) →
    IsGenerics generics (qualified :: ('(' :: args ++ [')']) :: rest) →
    IsQualified '.' qualified → IsThrows rest →
    Documented .constructor false (mods.map Modifier.word ++
      (generics.toList ++ qualified :: ('(' :: args ++ [')']) :: rest))
  /-- `inner <mods> <declClass>$<name>`. -/
  | inner {mods : List Modifier} {qualified : Text} : IsLead .inner mods [qualified] →
    IsQualified '$' qualified → Documented .inner false (mods.map Modifier.word ++ [qualified])

/-- The tokens that are read although the grammar does not have them. -/
@[mk_iff]
inductive Tolerated : (kind : Kind) → (marked : Bool) → List Text → Prop where
  /-- Tokens in front of the name of a supertype or a permitted subtype, other than the mark of an
  interface. -/
  | surplus {kind : Kind} {marked : Bool} {ts : List Text} {t : Text} :
    kind ∈ [.superclass, .interface, .permitted] → ts ≠ [] →
    (kind = .interface → marked = false → ts ≠ [['@']]) → Tolerated kind marked (ts ++ [t])
  /-- A supertype or a permitted subtype without a name, or with a text behind its type arguments;
  the mark of an interface is taken for its name. -/
  | reference {kind : Kind} {marked : Bool} {ts : List Text} {t : Text} :
    kind ∈ [.superclass, .interface, .permitted] →
    (¬ IsTypeToken t ∨ kind = .interface ∧ t = ['@']) → Tolerated kind marked (ts ++ [t])
  /-- A class without a name, with a text behind its generics declaration, or with a second such
  declaration. -/
  | header {mods : List Modifier} {generics : Option Text} {t : Text} :
    IsLead .header mods (generics.toList ++ [t]) → IsGenerics generics [t] →
    (¬ IsTypeToken t ∨ generics ≠ none ∧ '<' ∈ t) →
    Tolerated .header false (mods.map Modifier.word ++ (generics.toList ++ [t]))

/-- A tag and the tokens behind the space after it. -/
inductive TaggedTokens : Text → Kind → List Text → Prop where
  /-- The tag alone. -/
  | tag (kind : Kind) : TaggedTokens kind.tag kind []
  /-- The tag and more. -/
  | tokens {kind : Kind} {rest : Text} {ts : List Text} : tokens rest = .ok ts →
    TaggedTokens (kind.tag ++ ' ' :: rest) kind ts

/-- The line of an entity, with an at sign in front of the tag or without. -/
inductive EntityLine : Text → Kind → (marked : Bool) → List Text → Prop where
  /-- Without an at sign. -/
  | plain {line : Text} {kind : Kind} {ts : List Text} : TaggedTokens line kind ts →
    EntityLine line kind false ts
  /-- The line of an interface, with an at sign. -/
  | marked {blanks body : Text} {ts : List Text} : (∀ c ∈ blanks, isBlank c = true) →
    TaggedTokens body .interface ts → EntityLine ('@' :: (blanks ++ body)) .interface true ts

/-- A line of the grammar. -/
inductive DocumentedLine : Text → Prop where
  /-- The line of an annotation. -/
  | annot {rest : Text} {a : Annot} : Annot.ofLine? (Annot.lineTag ++ rest) = some a →
    DocumentedLine (Annot.lineTag ++ rest)
  /-- The tag of hidden names alone. -/
  | noneHidden {tag : Text} : tag ∈ [ClassDef.hiddenFieldsTag, ClassDef.hiddenClassesTag] →
    DocumentedLine tag
  /-- The tag of hidden names, a space and the names. -/
  | hidden {tag rest : Text} : tag ∈ [ClassDef.hiddenFieldsTag, ClassDef.hiddenClassesTag] →
    DocumentedLine (tag ++ ' ' :: rest)
  /-- The line of an entity. -/
  | entity {line : Text} {kind : Kind} {marked : Bool} {ts : List Text} :
    EntityLine line kind marked ts → Documented kind marked ts → DocumentedLine line

/-- A line that is read although it is not in the grammar. -/
@[mk_iff]
inductive ToleratedLine : Text → Prop where
  /-- The tag of hidden names with anything but a space behind it. -/
  | hidden {tag rest : Text} {c : Char} :
    tag ∈ [ClassDef.hiddenFieldsTag, ClassDef.hiddenClassesTag] → c ≠ ' ' →
    ToleratedLine (tag ++ c :: rest)
  /-- The line of an entity. -/
  | entity {line : Text} {kind : Kind} {marked : Bool} {ts : List Text} :
    EntityLine line kind marked ts → Tolerated kind marked ts → ToleratedLine line

/-- The kind whose tag starts a line. -/
def lineKind? (line : Text) : Option Kind := Kind.ofTag? (cutTag (takeMark line).2).1

/-! ### Modifiers and generics declarations -/

section Tokens

variable {kind : Kind} {mods : List Modifier} {generics : Option Text} {ts : List Text}
  {d : Member.Draft}

theorem isSubset_foldr_iff :
    (mods.foldr (fun m s => s.insert m) Modifiers.none).isSubset kind.allowed = true ↔
      ∀ m ∈ mods, kind.allowed.has m = true := by
  rw [Modifiers.isSubset_iff]
  simp only [getLsbD_foldr_insert, List.any_eq_true, decide_eq_true_eq]
  constructor
  · exact fun h m hm => h _ m.bitIndex_lt ⟨m, hm, rfl⟩
  · rintro h i - ⟨m, hm, rfl⟩
    exact h m hm

theorem exists_lead (ts : List Text) : ∃ (mods : List Modifier) (rest : List Text),
    ts = mods.map Modifier.word ++ rest ∧ (∀ t ∈ rest.head?, Modifier.ofWord? t = none) ∧
      takeModifiers ts = (mods.foldr (fun m s => s.insert m) .none, rest) := by
  obtain ⟨mods, hts, hkeyword⟩ := exists_of_takeModifiers ts
  refine ⟨mods, (takeModifiers ts).2, hts, hkeyword, ?_⟩
  conv => lhs; rw [hts]
  exact takeModifiers_words mods hkeyword

theorem takeGenerics_of_isGenerics (h : IsGenerics generics ts) :
    takeGenerics (generics.toList ++ ts) = (generics, ts) := by
  rcases generics with _ | g
  · rcases ts with _ | ⟨t, ts⟩
    · rfl
    · exact if_neg (h.none rfl t rfl)
  · exact if_pos (h.bracket g rfl)

theorem exists_generics (ts : List Text) : ∃ generics rest,
    ts = generics.toList ++ rest ∧ IsGenerics generics rest ∧
      takeGenerics ts = (generics, rest) := by
  obtain ⟨hts, hbracket, hnone⟩ :=
    of_takeGenerics (rfl : takeGenerics ts = ((takeGenerics ts).1, (takeGenerics ts).2))
  exact ⟨(takeGenerics ts).1, (takeGenerics ts).2, hts, ⟨hbracket, hnone⟩, rfl⟩

theorem cutName_eq_ok_iff {delimiter : Char} {qualified : Text} :
    (∃ p, cutName delimiter qualified = .ok p) ↔ IsQualified delimiter qualified := by
  constructor
  · rintro ⟨⟨declaring, name⟩, h⟩
    exact ⟨declaring, name, of_cutName h⟩
  · rintro ⟨declaring, name, rfl, hdeclaring, hname, hdelimiter⟩
    have hcut : cutLast? (· == delimiter) (declaring ++ delimiter :: name) =
        some (declaring, name) := cutLast?_append (beq_self_eq_true _) fun c hc => by
      rw [beq_eq_false_iff_ne]
      rintro rfl
      exact hdelimiter hc
    refine ⟨(declaring, name), ?_⟩
    rw [cutName, hcut]
    exact if_neg (by simp [hdeclaring, hname])

/-! ### The tokens of each kind -/

/-- What a reader of the entities of one kind accepts: it gives a draft of that kind, whose
modifiers are in the mask, exactly for the tokens that satisfy a condition. -/
structure Reads (kind : Kind) (read : List Text → Reading Fault Member.Draft)
    (P : List Text → Prop) : Prop where
  /-- A draft has the kind. -/
  draftKind : ∀ ts d, (read ts).result = .ok d → d.member.kind = kind
  /-- A draft with modifiers in the mask is that of tokens that satisfy the condition. -/
  sound : ∀ ts d, (read ts).result = .ok d → d.modifiers.isSubset kind.allowed = true → P ts
  /-- Tokens that satisfy the condition give such a draft. -/
  complete : ∀ ts, P ts → ∃ d, (read ts).result = .ok d ∧ d.modifiers.isSubset kind.allowed = true

theorem reads_header : Reads .header readHeader fun ts =>
    ∃ (mods : List Modifier) (generics : Option Text) (t : Text),
      ts = mods.map Modifier.word ++ (generics.toList ++ [t]) ∧
      IsLead .header mods (generics.toList ++ [t]) ∧ IsGenerics generics [t] := by
  have hread : ∀ {ts d}, (readHeader ts).result = .ok d → d.member.kind = .header ∧
      (d.modifiers.isSubset Kind.header.allowed = true →
        ∃ mods generics t, ts = mods.map Modifier.word ++ (generics.toList ++ [t]) ∧
          IsLead .header mods (generics.toList ++ [t]) ∧ IsGenerics generics [t]) := by
    intro ts d h
    obtain ⟨mods, rest, rfl, hkeyword, hmods⟩ := exists_lead ts
    obtain ⟨generics, us, rfl, hgenerics, hrest⟩ := exists_generics rest
    simp only [readHeader, hmods, hrest] at h
    rcases us with _ | ⟨t, us⟩
    · cases h
    · obtain ⟨_, hend, h⟩ := Reading.result_bind_eq_ok_iff.1 h
      obtain rfl := of_expectEnd hend
      cases h
      exact ⟨rfl, fun hs =>
        ⟨mods, generics, t, rfl, ⟨isSubset_foldr_iff.1 hs, hkeyword⟩, hgenerics⟩⟩
  refine ⟨fun ts d h => (hread h).1, fun ts d h => (hread h).2, ?_⟩
  rintro ts ⟨mods, generics, t, rfl, hlead, hgenerics⟩
  simp only [readHeader, takeModifiers_words mods hlead.keyword,
    takeGenerics_of_isGenerics hgenerics]
  exact ⟨_, rfl, isSubset_foldr_iff.2 hlead.allowed⟩

theorem reads_inner : Reads .inner readInner (Documented .inner false) := by
  have hread : ∀ {ts d}, (readInner ts).result = .ok d → d.member.kind = .inner ∧
      (d.modifiers.isSubset Kind.inner.allowed = true → Documented .inner false ts) := by
    intro ts d h
    obtain ⟨mods, rest, rfl, hkeyword, hmods⟩ := exists_lead ts
    simp only [readInner, hmods] at h
    rcases rest with _ | ⟨qualified, us⟩
    · cases h
    · obtain ⟨_, hend, hrest⟩ := Reading.result_bind_eq_ok_iff.1 h
      obtain ⟨p, hname, hdraft⟩ := Reading.result_bind_eq_ok_iff.1 hrest
      obtain rfl := of_expectEnd hend
      obtain rfl := Except.ok.inj hdraft
      exact ⟨rfl, fun hs => .inner ⟨isSubset_foldr_iff.1 hs, hkeyword⟩
        (cutName_eq_ok_iff.1 ⟨p, hname⟩)⟩
  refine ⟨fun ts d h => (hread h).1, fun ts d h => (hread h).2, ?_⟩
  intro ts hdocumented
  cases hdocumented with | @inner mods qualified hlead hqualified => ?_
  obtain ⟨p, hname⟩ := cutName_eq_ok_iff.2 hqualified
  simp only [readInner, takeModifiers_words mods hlead.keyword]
  refine ⟨_, Reading.result_bind_eq_ok_iff.2 ⟨(), rfl,
    Reading.result_bind_eq_ok_iff.2 ⟨p, hname, rfl⟩⟩, isSubset_foldr_iff.2 hlead.allowed⟩

theorem readThrows_ok_iff {ts : List Text} : (∃ list, readThrows ts = .ok list) ↔ IsThrows ts := by
  constructor
  · rintro ⟨list, h⟩
    rcases of_readThrows h with ⟨rfl, -⟩ | ⟨t, rfl, -⟩
    · exact .inl rfl
    · exact .inr ⟨t, rfl⟩
  · rintro (rfl | ⟨list, rfl⟩)
    · exact ⟨[], rfl⟩
    · exact ⟨split (· == ',') list, rfl⟩

theorem readConstant_ok_iff {ts : List Text} :
    (∃ constant, readConstant ts = .ok constant) ↔ IsConstant ts := by
  constructor
  · rintro ⟨constant, h⟩
    unfold readConstant at h
    split at h
    next => exact .inl rfl
    next t rest =>
      split at h
      next value =>
        obtain ⟨_, hend, -⟩ := map_eq_ok_iff.1 h
        exact .inr ⟨' ' :: value, by rw [of_expectEnd hend]⟩
      next value _ =>
        obtain ⟨_, hend, -⟩ := map_eq_ok_iff.1 h
        exact .inr ⟨value, by rw [of_expectEnd hend]⟩
      next => cases h
  · rintro (rfl | ⟨value, rfl⟩)
    · exact ⟨none, rfl⟩
    · rcases value with _ | ⟨c, value⟩
      · exact ⟨some [], rfl⟩
      · by_cases hc : c = ' '
        · subst hc
          exact ⟨some value, rfl⟩
        · refine ⟨some (c :: value), ?_⟩
          unfold readConstant
          split
          next heq => cases heq
          next t rest heq =>
            cases heq
            split
            next heq => exact absurd (List.cons.inj (List.cons.inj heq).2).1 hc
            next heq =>
              cases heq
              rfl
            next hnot => exact absurd rfl (hnot (c :: value))

theorem reads_field : Reads .field readField (Documented .field false) := by
  have hread : ∀ {ts d}, (readField ts).result = .ok d → d.member.kind = .field ∧
      (d.modifiers.isSubset Kind.field.allowed = true → Documented .field false ts) := by
    intro ts d h
    obtain ⟨mods, rest, rfl, hkeyword, hmods⟩ := exists_lead ts
    simp only [readField, hmods] at h
    rcases rest with _ | ⟨typeName, _ | ⟨qualified, us⟩⟩
    · cases h
    · cases h
    · obtain ⟨p, hname, hrest⟩ := Reading.result_bind_eq_ok_iff.1 h
      obtain ⟨constant, hconstant, hdraft⟩ := Reading.result_bind_eq_ok_iff.1 hrest
      obtain rfl := Except.ok.inj hdraft
      exact ⟨rfl, fun hs => .field ⟨isSubset_foldr_iff.1 hs, hkeyword⟩
        (cutName_eq_ok_iff.1 ⟨p, hname⟩) (readConstant_ok_iff.1 ⟨constant, hconstant⟩)⟩
  refine ⟨fun ts d h => (hread h).1, fun ts d h => (hread h).2, ?_⟩
  intro ts hdocumented
  cases hdocumented with | @field mods typeName qualified us hlead hqualified hconstant => ?_
  obtain ⟨p, hname⟩ := cutName_eq_ok_iff.2 hqualified
  obtain ⟨constant, hread⟩ := readConstant_ok_iff.2 hconstant
  simp only [readField, takeModifiers_words mods hlead.keyword]
  exact ⟨_, Reading.result_bind_eq_ok_iff.2 ⟨p, hname,
    Reading.result_bind_eq_ok_iff.2 ⟨constant, hread, rfl⟩⟩, isSubset_foldr_iff.2 hlead.allowed⟩

theorem reads_method : Reads .method readMethod (Documented .method false) := by
  have hread : ∀ {ts d}, (readMethod ts).result = .ok d → d.member.kind = .method ∧
      (d.modifiers.isSubset Kind.method.allowed = true → Documented .method false ts) := by
    intro ts d h
    obtain ⟨mods, rest, rfl, hkeyword, hmods⟩ := exists_lead ts
    obtain ⟨generics, us, rfl, hgenerics, htake⟩ := exists_generics rest
    simp only [readMethod, hmods, htake] at h
    rcases us with _ | ⟨typeName, _ | ⟨qualified, us⟩⟩
    · cases h
    · cases h
    · obtain ⟨p, hname, hrest⟩ := Reading.result_bind_eq_ok_iff.1 h
      obtain ⟨⟨args, vs⟩, hargs, hrest⟩ := Reading.result_bind_eq_ok_iff.1 hrest
      obtain ⟨list, hthrows, hdraft⟩ := Reading.result_bind_eq_ok_iff.1 hrest
      obtain rfl := Except.ok.inj hdraft
      obtain rfl := of_takeArgs hargs
      exact ⟨rfl, fun hs => .method ⟨isSubset_foldr_iff.1 hs, hkeyword⟩ hgenerics
        (cutName_eq_ok_iff.1 ⟨p, hname⟩) (readThrows_ok_iff.1 ⟨list, hthrows⟩)⟩
  refine ⟨fun ts d h => (hread h).1, fun ts d h => (hread h).2, ?_⟩
  intro ts hdocumented
  cases hdocumented with
  | @method mods generics typeName qualified args us hlead hgenerics hqualified hthrows =>
    obtain ⟨p, hname⟩ := cutName_eq_ok_iff.2 hqualified
    obtain ⟨list, hread⟩ := readThrows_ok_iff.2 hthrows
    simp only [readMethod, takeModifiers_words mods hlead.keyword,
      takeGenerics_of_isGenerics hgenerics]
    exact ⟨_, Reading.result_bind_eq_ok_iff.2 ⟨p, hname,
      Reading.result_bind_eq_ok_iff.2 ⟨(args, us), Member.takeArgs_args args us,
        Reading.result_bind_eq_ok_iff.2 ⟨list, hread, rfl⟩⟩⟩, isSubset_foldr_iff.2 hlead.allowed⟩

theorem reads_constructor : Reads .constructor readConstructor (Documented .constructor false) := by
  have hread : ∀ {ts d}, (readConstructor ts).result = .ok d → d.member.kind = .constructor ∧
      (d.modifiers.isSubset Kind.constructor.allowed = true →
        Documented .constructor false ts) := by
    intro ts d h
    obtain ⟨mods, rest, rfl, hkeyword, hmods⟩ := exists_lead ts
    obtain ⟨generics, us, rfl, hgenerics, htake⟩ := exists_generics rest
    simp only [readConstructor, hmods, htake] at h
    rcases us with _ | ⟨qualified, us⟩
    · cases h
    · obtain ⟨p, hname, hrest⟩ := Reading.result_bind_eq_ok_iff.1 h
      obtain ⟨⟨args, vs⟩, hargs, hrest⟩ := Reading.result_bind_eq_ok_iff.1 hrest
      obtain ⟨list, hthrows, hdraft⟩ := Reading.result_bind_eq_ok_iff.1 hrest
      obtain rfl := Except.ok.inj hdraft
      obtain rfl := of_takeArgs hargs
      exact ⟨rfl, fun hs => .constructor ⟨isSubset_foldr_iff.1 hs, hkeyword⟩ hgenerics
        (cutName_eq_ok_iff.1 ⟨p, hname⟩) (readThrows_ok_iff.1 ⟨list, hthrows⟩)⟩
  refine ⟨fun ts d h => (hread h).1, fun ts d h => (hread h).2, ?_⟩
  intro ts hdocumented
  cases hdocumented with
  | @constructor mods generics qualified args us hlead hgenerics hqualified hthrows =>
    obtain ⟨p, hname⟩ := cutName_eq_ok_iff.2 hqualified
    obtain ⟨list, hread⟩ := readThrows_ok_iff.2 hthrows
    simp only [readConstructor, takeModifiers_words mods hlead.keyword,
      takeGenerics_of_isGenerics hgenerics]
    exact ⟨_, Reading.result_bind_eq_ok_iff.2 ⟨p, hname,
      Reading.result_bind_eq_ok_iff.2 ⟨(args, us), Member.takeArgs_args args us,
        Reading.result_bind_eq_ok_iff.2 ⟨list, hread, rfl⟩⟩⟩, isSubset_foldr_iff.2 hlead.allowed⟩

theorem reads_typeRef (kind : Kind) (direct : List Text → Bool) :
    Reads kind (fun ts => readTypeRef kind (direct ts) ts) (· ≠ []) := by
  have hread : ∀ {ts d}, (readTypeRef kind (direct ts) ts).result = .ok d →
      d.member.kind = kind ∧ ts ≠ [] := by
    intro ts d h
    unfold readTypeRef at h
    split at h
    next => cases h
    next t hlast =>
      obtain rfl := Except.ok.inj h
      refine ⟨rfl, ?_⟩
      rintro rfl
      cases hlast
  refine ⟨fun ts d h => (hread h).1, fun ts d h _ => (hread h).2, fun ts hne => ?_⟩
  refine ⟨⟨{ Member.typeRef kind (cutTypeArgs (ts.getLast hne)).1 with
    typeParams := (cutTypeArgs (ts.getLast hne)).2, direct := direct ts }, .none⟩, ?_,
    isSubset_foldr_iff.2 (List.forall_mem_nil _)⟩
  rw [readTypeRef, List.getLast?_eq_some_getLast hne]
  rfl

theorem Reads.congr {kind : Kind} {read : List Text → Reading Fault Member.Draft}
    {P Q : List Text → Prop} (h : Reads kind read P) (hPQ : ∀ ts, P ts ↔ Q ts) :
    Reads kind read Q where
  draftKind := h.draftKind
  sound ts d hread hmods := (hPQ ts).1 (h.sound ts d hread hmods)
  complete ts hQ := h.complete ts ((hPQ ts).2 hQ)

/-- The tokens of a reference to a type are in the grammar or tolerated, if there are any. -/
theorem ne_nil_iff_documented_or_tolerated {marked : Bool}
    (hkind : kind ∈ [.superclass, .interface, .permitted])
    (hmarked : marked = true → kind = .interface) :
    ts ≠ [] ↔ Documented kind marked ts ∨ Tolerated kind marked ts := by
  constructor
  · intro hne
    obtain ⟨us, t, rfl⟩ : ∃ us t, ts = us ++ [t] := ⟨_, _, (List.dropLast_append_getLast hne).symm⟩
    by_cases hbad : ¬ IsTypeToken t ∨ kind = .interface ∧ t = ['@']
    · exact .inr (.reference hkind hbad)
    rw [not_or, not_not] at hbad
    obtain ⟨ht, hmark⟩ := hbad
    by_cases hmiddle : us = []
    · subst hmiddle
      simp only [List.mem_cons, List.not_mem_nil, or_false] at hkind
      rcases hkind with rfl | rfl | rfl
      · cases marked with
        | false => exact .inl (.superclass ht)
        | true => cases hmarked rfl
      · exact .inl (.interface ht fun heq => hmark ⟨rfl, heq⟩)
      · cases marked with
        | false => exact .inl (.permitted ht)
        | true => cases hmarked rfl
    by_cases hdirect : kind = .interface ∧ marked = false ∧ us = [['@']]
    · obtain ⟨rfl, rfl, rfl⟩ := hdirect
      exact .inl (.direct ht fun heq => hmark ⟨rfl, heq⟩)
    · exact .inr (.surplus hkind hmiddle fun hk hm hus => hdirect ⟨hk, hm, hus⟩)
  · rintro (h | h)
    · cases h <;> simp
    · cases h <;> simp

/-- Tokens are read exactly if they are in the grammar or tolerated. -/
theorem reads_tokens {marked : Bool} (hmarked : marked = true → kind = .interface) :
    Reads kind (readTokens kind marked)
      fun ts => Documented kind marked ts ∨ Tolerated kind marked ts := by
  have hplain : kind ≠ .interface → marked = false := fun hne =>
    Bool.eq_false_iff.2 fun hm => hne (hmarked hm)
  have honly : ∀ {ts}, kind ∉ [.header, .superclass, .interface, .permitted] →
      (Documented kind marked ts ↔ Documented kind marked ts ∨ Tolerated kind marked ts) := by
    intro ts hkind
    refine (or_iff_left fun htolerated => hkind ?_).symm
    cases htolerated with
    | surplus hk => exact List.mem_cons_of_mem _ hk
    | reference hk => exact List.mem_cons_of_mem _ hk
    | header => exact List.mem_cons_self
  cases kind with
  | header =>
    obtain rfl := hplain (by decide)
    refine reads_header.congr fun ts => ?_
    constructor
    · rintro ⟨mods, generics, t, rfl, hlead, hgenerics⟩
      by_cases hbad : ¬ IsTypeToken t ∨ generics ≠ none ∧ '<' ∈ t
      · exact .inr (.header hlead hgenerics hbad)
      · rw [not_or, not_not] at hbad
        exact .inl (.header hlead hgenerics hbad.1 fun hne hmem => hbad.2 ⟨hne, hmem⟩)
    · rintro (h | h)
      · cases h with
        | header hlead hgenerics => exact ⟨_, _, _, rfl, hlead, hgenerics⟩
      · cases h with
        | header hlead hgenerics => exact ⟨_, _, _, rfl, hlead, hgenerics⟩
        | surplus hk => exact absurd hk (by decide)
        | reference hk => exact absurd hk (by decide)
  | superclass =>
    exact (reads_typeRef .superclass fun _ => false).congr fun _ =>
      ne_nil_iff_documented_or_tolerated (by decide) hmarked
  | interface =>
    exact (reads_typeRef .interface fun ts => marked || ts.head? == some ['@']).congr fun _ =>
      ne_nil_iff_documented_or_tolerated (by decide) hmarked
  | permitted =>
    exact (reads_typeRef .permitted fun _ => false).congr fun _ =>
      ne_nil_iff_documented_or_tolerated (by decide) hmarked
  | constructor =>
    obtain rfl := hplain (by decide)
    exact reads_constructor.congr fun _ => honly (by decide)
  | method =>
    obtain rfl := hplain (by decide)
    exact reads_method.congr fun _ => honly (by decide)
  | field =>
    obtain rfl := hplain (by decide)
    exact reads_field.congr fun _ => honly (by decide)
  | inner =>
    obtain rfl := hplain (by decide)
    exact reads_inner.congr fun _ => honly (by decide)

/-- Tokens have one generics declaration and one rest behind their modifiers. -/
theorem lead_unique {mods' : List Modifier} {generics' : Option Text} {us : List Text}
    (h : IsLead kind mods (generics.toList ++ ts)) (hgenerics : IsGenerics generics ts)
    (h' : IsLead kind mods' (generics'.toList ++ us)) (hgenerics' : IsGenerics generics' us)
    (heq : mods.map Modifier.word ++ (generics.toList ++ ts) =
      mods'.map Modifier.word ++ (generics'.toList ++ us)) : generics = generics' ∧ ts = us := by
  have hrest := congrArg (fun l => takeGenerics (takeModifiers l).2) heq
  simp only [takeModifiers_words mods h.keyword, takeModifiers_words mods' h'.keyword,
    takeGenerics_of_isGenerics hgenerics, takeGenerics_of_isGenerics hgenerics',
    Prod.mk.injEq] at hrest
  exact hrest

/-- No tokens of the grammar are only tolerated. -/
theorem Documented.not_tolerated {marked : Bool} (h : Documented kind marked ts) :
    ¬ Tolerated kind marked ts := by
  have hlast : ∀ (us : List Text) {vs : List Text} {t u : Text}, us ++ [u] = vs ++ [t] →
      vs = us ∧ t = u := by
    intro us vs t u heq
    have hinj := List.append_inj' heq rfl
    exact ⟨hinj.1.symm, (List.cons.inj hinj.2).1.symm⟩
  intro htolerated
  rw [tolerated_iff] at htolerated
  rcases htolerated with ⟨us, t, hk, hne, hmark, heq⟩ | ⟨us, t, hk, hbad, heq⟩ |
    ⟨mods, generics, t, hlead, hgenerics, hbad, rfl, rfl, heq⟩
  · -- tokens in front of the name
    cases h with
    | superclass => exact hne (hlast [] heq).1
    | interface => exact hne (hlast [] heq).1
    | permitted => exact hne (hlast [] heq).1
    | direct => exact hmark rfl rfl (hlast [['@']] heq).1
    | _ => exact absurd hk (by decide)
  · -- no name
    cases h with
    | superclass ht =>
      obtain rfl := (hlast [] heq).2
      exact hbad.elim (fun hnot => hnot ht) fun hk => nomatch hk.1
    | interface ht hmark =>
      obtain rfl := (hlast [] heq).2
      exact hbad.elim (fun hnot => hnot ht) fun hk => hmark hk.2
    | permitted ht =>
      obtain rfl := (hlast [] heq).2
      exact hbad.elim (fun hnot => hnot ht) fun hk => nomatch hk.1
    | direct ht hmark =>
      obtain rfl := (hlast [['@']] heq).2
      exact hbad.elim (fun hnot => hnot ht) fun hk => hmark hk.2
    | _ => exact absurd hk (by decide)
  · -- a class without a name or with two generics declarations
    cases h with
    | header hlead' hgenerics' ht honce =>
      obtain ⟨rfl, hsame⟩ := lead_unique hlead' hgenerics' hlead hgenerics heq
      obtain rfl := (List.cons.inj hsame).1
      exact hbad.elim (fun hnot => hnot ht) fun hk => honce hk.1 hk.2

end Tokens

end Line

end ApiSurface
