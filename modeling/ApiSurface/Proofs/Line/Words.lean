import ApiSurface.Line.Entity
import ApiSurface.Line.Printer
import ApiSurface.Proofs.Line.Token
import Mathlib.Tactic.MkIffOfInductiveProp

/-!
# Words of an entity line

A member is well-formed if its texts are single tokens of the shape that the line of its kind asks
for, and if it has nothing that the line does not show (`Member.WellFormed`). `Member.Shaped` asks
for less, so that members that were read from lines have it too: their texts need not be names, and
some of them need not be single tokens. Where those that can be cut are single tokens, the words of
the line are cut into the tokens that they were made of (`tokens_words_header`,
`tokens_words_typeRef`, `tokens_words_callable`, `tokens_words_field`, `tokens_words_inner`).
-/

namespace ApiSurface

open Text Line

/-! ### Modifiers -/

theorem isPlain_word (m : Modifier) : IsPlain m.word := by
  cases m <;> decide

theorem word_ne_nil (m : Modifier) : m.word ≠ [] := by
  cases m <;> decide

theorem closed_modifiers (s : Modifiers) : Closed (s.toList.map Modifier.word) := by
  intro t ht
  obtain ⟨m, -, rfl⟩ := List.mem_map.1 ht
  cases m <;> decide

/-- The words of a set of modifiers are tokens of their own. -/
theorem tokens_modifiers (s : Modifiers) : tokens s.text = .ok (s.toList.map Modifier.word) := by
  have hwords : List.Forall₂ (fun w l => tokens w = .ok l ∧ Closed l)
      (s.toList.map Modifier.word) (s.toList.map fun m => [m.word]) := by
    rw [List.forall₂_map_left_iff, List.forall₂_map_right_iff, List.forall₂_same]
    intro m _
    refine ⟨tokens_of_isPlain (word_ne_nil m) (isPlain_word m), closed_singleton ?_⟩
    cases m <;> decide
  have hfilter : (s.toList.map Modifier.word).filter (· ≠ []) = s.toList.map Modifier.word := by
    refine List.filter_eq_self.2 ?_
    intro w hw
    obtain ⟨m, -, rfl⟩ := List.mem_map.1 hw
    simpa using word_ne_nil m
  have htokens := tokens_intercalate_append hwords []
  rw [List.append_nil, hfilter, List.filter_nil, List.intercalate_nil, tokens_nil] at htokens
  rw [Modifiers.text, htokens]
  change Except.ok ((s.toList.map fun m => [m.word]).flatten ++ []) = _
  rw [List.append_nil, ← List.flatMap_def]
  exact congrArg Except.ok List.map_eq_flatMap.symm

theorem takeModifiers_words (ms : List Modifier) {ts : List Text}
    (hts : ∀ t, ts.head? = some t → Modifier.ofWord? t = none) :
    takeModifiers (ms.map Modifier.word ++ ts) =
      (ms.foldr (fun m s => s.insert m) .none, ts) := by
  induction ms with
  | nil =>
    cases ts with
    | nil => rfl
    | cons t ts => simp [takeModifiers, hts t rfl]
  | cons m ms ih =>
    rw [List.map_cons, List.cons_append, takeModifiers, Modifier.ofWord?_word, ih]
    rfl

theorem getLsbD_foldr_insert (ms : List Modifier) (i : Nat) :
    (ms.foldr (fun m s => s.insert m) Modifiers.none).bits.getLsbD i =
      ms.any (·.bitIndex = i) := by
  induction ms with
  | nil => simp [Modifiers.none]
  | cons m ms ih =>
    rw [List.foldr_cons, Modifiers.insert, BitVec.getLsbD_or, ih, List.any_cons,
      BitVec.getLsbD_twoPow, Bool.or_comm, decide_eq_true (Modifier.bitIndex_lt m), Bool.true_and]

/-- A set within the mask of a kind is made of the modifiers that it has. -/
theorem foldr_insert_toList {s : Modifiers} {k : Kind} (h : s.isSubset k.allowed = true) :
    s.toList.foldr (fun m s => s.insert m) .none = s := by
  have hknown : ∀ i < 32, k.allowed.bits.getLsbD i = true → ∃ m ∈ Modifier.all, m.bitIndex = i := by
    cases k <;> decide
  ext i hi
  rw [getLsbD_foldr_insert, Bool.eq_iff_iff, List.any_eq_true]
  constructor
  · rintro ⟨m, hm, hmi⟩
    rw [← of_decide_eq_true hmi]
    exact Modifiers.mem_toList_iff.1 hm
  · intro hs
    obtain ⟨m, -, rfl⟩ := hknown i hi (Modifiers.isSubset_iff.1 h i hi hs)
    exact ⟨m, Modifiers.mem_toList_iff.2 hs, decide_eq_true rfl⟩

/-- The modifiers of a member are read back, where no keyword follows them. -/
theorem takeModifiers_toList {s : Modifiers} {k : Kind} (h : s.isSubset k.allowed = true)
    {ts : List Text} (hts : ∀ t, ts.head? = some t → Modifier.ofWord? t = none) :
    takeModifiers (s.toList.map Modifier.word ++ ts) = (s, ts) := by
  rw [takeModifiers_words _ hts, foldr_insert_toList h]

/-- No keyword has any of the characters that cut a qualified name or open a bracket. -/
theorem ofWord?_eq_none_of_mem {t : Text} {c : Char} (hc : c ∈ ['.', '$', '<', '(']) (h : c ∈ t) :
    Modifier.ofWord? t = none := by
  rcases hword : Modifier.ofWord? t with _ | m
  · rfl
  · rw [Modifier.ofWord?_eq_some_iff.1 hword] at h
    have hnot : '.' ∉ m.word ∧ '$' ∉ m.word ∧ '<' ∉ m.word ∧ '(' ∉ m.word := by
      cases m <;> decide
    simp only [List.mem_cons, List.not_mem_nil, or_false] at hc
    rcases hc with rfl | rfl | rfl | rfl
    · exact absurd h hnot.1
    · exact absurd h hnot.2.1
    · exact absurd h hnot.2.2.1
    · exact absurd h hnot.2.2.2

/-! ### Well-formed members -/

/-- A name has no blanks and none of the characters that structure a line. -/
def IsName (t : Text) : Prop :=
  t ≠ [] ∧ ∀ c ∈ t, isBlank c = false ∧ c ∉ ['(', ')', '<', '>', '=', ',', '@', '#']

/-- A text that is a single token. -/
def IsToken (t : Text) : Prop := tokens t = .ok [t]

/-- What a member has to satisfy for its line to say all of it. -/
@[mk_iff]
structure Member.WellFormed (m : Member) : Prop where
  /-- The modifiers lie in the mask of the kind, and an interface is abstract. -/
  valid : m.Valid
  /-- The name is a name. -/
  name : IsName m.name
  /-- The name of a class is no keyword. -/
  keyword : m.kind = .header → Modifier.ofWord? m.name = none
  /-- What a reference to a type is declared by is told by its name. -/
  outer : m.kind.isTypeRef = true → m.declaring = (Member.typeRef m.kind m.name).declaring
  /-- What any other member is declared by is a name too, with which the simple name is not mixed
  up. -/
  declaring : m.kind.isTypeRef = false → IsName m.declaring ∧ m.kind.delimiter ∉ m.name
  /-- The type of a method or field is one token that nothing else can be taken for. -/
  typeName : m.kind ∈ [.method, .field] → IsToken m.typeName ∧
    Modifier.ofWord? m.typeName = none ∧ m.typeName.head? ∉ [some '<', some '(', some '=']
  /-- Nothing else has a type. -/
  noTypeName : m.kind ∉ [.method, .field] → m.typeName = []
  /-- A generics declaration is one token in angle brackets. -/
  generics : m.kind ∈ [.header, .constructor, .method] →
    ∀ p ∈ m.typeParams, IsToken p ∧ p.head? = some '<'
  /-- Type arguments make up one token with the name. -/
  typeArgs : m.kind ∈ [.superclass, .interface, .permitted] →
    ∀ p ∈ m.typeParams, IsToken (m.name ++ p) ∧ p.head? = some '<'
  /-- Fields and references to nested types have neither. -/
  noTypeParams : m.kind ∈ [.field, .inner] → m.typeParams = none
  /-- The arguments of a callable are one token in parentheses. -/
  args : m.kind.isCallable = true → IsToken ('(' :: m.args ++ [')'])
  /-- Nothing else has arguments. -/
  noArgs : m.kind.isCallable = false → m.args = []
  /-- The exceptions of a callable are one token, if there are any, and are in order. -/
  throws : m.kind.isCallable = true → m.throws = [] ∨
    IsToken m.throws ∧ Member.throwsText (split (· == ',') m.throws) = m.throws
  /-- Nothing else has exceptions. -/
  noThrows : m.kind.isCallable = false → m.throws = []
  /-- Only fields have constants. -/
  constant : m.kind ≠ .field → m.constant = none
  /-- Only interfaces are marked as direct. -/
  direct : m.kind ≠ .interface → m.direct = false
  /-- Nothing in the line ends it, and its last character is not taken for a line end. -/
  oneLine : '\n' ∉ m.line ∧ m.line.getLast? ≠ some '\r'

instance (t : Text) : Decidable (IsName t) :=
  have : Decidable (∀ c ∈ t, isBlank c = false ∧ c ∉ ['(', ')', '<', '>', '=', ',', '@', '#']) :=
    List.decidableBAll _ t
  inferInstanceAs (Decidable (_ ∧ _))

instance (t : Text) : Decidable (IsToken t) :=
  match h : tokens t with
  | .ok [u] => decidable_of_iff (u = t) (by simp [IsToken, h])
  | .ok [] => isFalse (by simp [IsToken, h])
  | .ok (_ :: _ :: _) => isFalse (by simp [IsToken, h])
  | .error _ => isFalse (by simp [IsToken, h])

set_option synthInstance.maxSize 1000 in
instance (m : Member) : Decidable m.WellFormed := decidable_of_iff' _ (Member.wellFormed_iff m)

theorem IsName.isPlain {t : Text} (h : IsName t) : IsPlain t := by
  intro c hc
  obtain ⟨hblank, hspecial⟩ := h.2 c hc
  refine ⟨?_, ?_, ?_⟩
  · rintro rfl
    exact absurd hblank (by decide)
  · rintro rfl
    exact hspecial (by decide)
  · rintro rfl
    exact hspecial (by decide)

theorem IsName.isToken {t : Text} (h : IsName t) : IsToken t := tokens_of_isPlain h.1 h.isPlain

theorem IsName.not_mem {t : Text} (h : IsName t) {c : Char}
    (hc : c ∈ ['(', ')', '<', '>', '=', ',', '@', '#']) : c ∉ t := fun hmem => (h.2 c hmem).2 hc

theorem IsName.head?_ne {t : Text} (h : IsName t) {c : Char}
    (hc : c ∈ ['(', ')', '<', '>', '=', ',', '@', '#']) : t.head? ≠ some c :=
  fun hhead => h.not_mem hc (List.mem_of_head? hhead)

namespace Member

variable {m : Member}

/-! ### Shapes -/

/-- The tokens of a member's line behind its modifiers and its generics declaration, up to its
exceptions or its constant. -/
def core (m : Member) : List Text :=
  match m.kind with
  | .header => [m.name]
  | .superclass | .interface | .permitted => [m.name ++ m.typeParams.getD []]
  | .constructor => [m.qualifiedName, '(' :: m.args ++ [')']]
  | .method => [m.typeName, m.qualifiedName, '(' :: m.args ++ [')']]
  | .field => [m.typeName, m.qualifiedName]
  | .inner => [m.qualifiedName]

/-- A member has nothing that the line of its kind does not show, apart from annotations. -/
structure Plain (m : Member) : Prop where
  /-- What a reference to a type is declared by is told by its name. -/
  outer : m.kind.isTypeRef = true → m.declaring = (Member.typeRef m.kind m.name).declaring
  /-- Fields and references to nested types have no generics declaration. -/
  noTypeParams : m.kind ∈ [.field, .inner] → m.typeParams = none
  /-- Only methods and fields have a type. -/
  noTypeName : m.kind ∉ [.method, .field] → m.typeName = []
  /-- Only callables have arguments. -/
  noArgs : m.kind.isCallable = false → m.args = []
  /-- Only callables have exceptions. -/
  noThrows : m.kind.isCallable = false → m.throws = []
  /-- Only fields have constants. -/
  noConstant : m.kind ≠ .field → m.constant = none
  /-- Only interfaces are marked as direct. -/
  direct : m.kind ≠ .interface → m.direct = false

/-- What the members that are read from lines have in common: their texts are the tokens that the
kind asks for. -/
structure Shaped (m : Member) : Prop extends Plain m where
  /-- The modifiers lie in the mask of the kind, and an interface is abstract. -/
  valid : m.Valid
  /-- A member with a simple name is declared by something, with which the name is not mixed up. -/
  declaring : m.kind.isTypeRef = false →
    m.declaring ≠ [] ∧ m.name ≠ [] ∧ m.kind.delimiter ∉ m.name
  /-- The texts are tokens, apart from what is left of a class name without its type arguments. -/
  tokens : m.kind ≠ .header ∨ m.typeParams = none → ∀ t ∈ m.core, IsToken t
  /-- Only the last of them can reach to the end of the line. -/
  closed : Closed m.core.dropLast
  /-- The first of them is no keyword, where it follows the modifiers. -/
  keyword : m.kind ∉ [.superclass, .interface, .permitted] → m.typeParams = none →
    ∀ t ∈ m.core.head?, Modifier.ofWord? t = none
  /-- It is no generics declaration either, where there can be one. -/
  noGenerics : m.kind.isCallable = true → m.typeParams = none →
    ∀ t ∈ m.core.head?, t.head? ≠ some '<'
  /-- The name of a type ends before its first angle bracket. -/
  name : m.kind.isTypeRef = true → '<' ∉ m.name
  /-- Generics declarations and type arguments start with an angle bracket. -/
  typeParams : ∀ p ∈ m.typeParams, p.head? = some '<'
  /-- The generics declaration of a callable is one token. -/
  generics : m.kind.isCallable = true → ∀ p ∈ m.typeParams, IsToken p
  /-- The exceptions are in order. -/
  throws : throwsText (split (· == ',') m.throws) = m.throws
  /-- In front of a constant no token reaches to the end of the line. -/
  constant : m.constant ≠ none → Closed m.core

/-- The qualified name of a member with a simple name. -/
theorem qualifiedName_eq (hk : m.kind.isTypeRef = false) (hne : m.declaring ≠ []) :
    m.qualifiedName = m.declaring ++ m.kind.delimiter :: m.name := by
  rw [qualifiedName, if_neg (by simp [hk, hne])]

/-- A qualified name is cut at the delimiter that its simple name does not have. -/
theorem cutLast?_qualifiedName (hk : m.kind.isTypeRef = false) (hne : m.declaring ≠ [])
    (hdelimiter : m.kind.delimiter ∉ m.name) :
    cutLast? (· == m.kind.delimiter) m.qualifiedName = some (m.declaring, m.name) := by
  rw [qualifiedName_eq hk hne]
  refine cutLast?_append (beq_self_eq_true _) fun c hc => ?_
  rw [beq_eq_false_iff_ne]
  rintro rfl
  exact hdelimiter hc

theorem isTypeRef_of_isCallable (hk : m.kind.isCallable = true) : m.kind.isTypeRef = false := by
  rcases Kind.isCallable_iff.1 hk with hk | hk <;> rw [hk] <;> rfl

theorem header_or_reference (hk : m.kind.isTypeRef = true) :
    m.kind = .header ∨ m.kind ∈ [.superclass, .interface, .permitted] := by
  cases hkind : m.kind <;> simp [hkind, Kind.isTypeRef] at hk ⊢

theorem core_ne_nil (m : Member) : m.core ≠ [] := by
  unfold core
  cases m.kind <;> exact List.cons_ne_nil _ _

/-- A qualified name that is made of names is a token that is no keyword. -/
theorem WellFormed.qualifiedName (h : m.WellFormed) (hk : m.kind.isTypeRef = false) :
    IsToken m.qualifiedName ∧ Modifier.ofWord? m.qualifiedName = none ∧
      m.qualifiedName.head? ∉ [some '<', some '='] := by
  obtain ⟨hdeclaring, -⟩ := h.declaring hk
  have heq := qualifiedName_eq hk hdeclaring.1
  have hplain : IsPlain m.qualifiedName := by
    rw [heq]
    intro c hc
    rcases List.mem_append.1 hc with hc | hc
    · exact hdeclaring.isPlain c hc
    rcases List.mem_cons.1 hc with rfl | hc
    · cases m.kind <;> decide
    · exact h.name.isPlain c hc
  have hhead : m.qualifiedName.head? = m.declaring.head? := by
    obtain ⟨d, r, hd⟩ := List.exists_cons_of_ne_nil hdeclaring.1
    rw [heq, hd]
    rfl
  refine ⟨tokens_of_isPlain (by simp [heq]) hplain, ?_, ?_⟩
  · rw [heq]
    exact ofWord?_eq_none_of_mem (c := m.kind.delimiter) (by cases m.kind <;> decide) (by simp)
  · rw [hhead]
    simp [hdeclaring.head?_ne (c := '<') (by decide), hdeclaring.head?_ne (c := '=') (by decide)]

/-- Type arguments of a well-formed reference make up one token with the name. -/
theorem WellFormed.isToken_name_append (h : m.WellFormed)
    (hk : m.kind ∈ [.superclass, .interface, .permitted]) :
    IsToken (m.name ++ m.typeParams.getD []) := by
  rcases hp : m.typeParams with _ | p
  · rw [Option.getD_none, List.append_nil]
    exact h.name.isToken
  · exact (h.typeArgs hk p hp).1

/-- What the line of a well-formed member with a simple name is made of is not mixed up with
anything else. -/
theorem WellFormed.core (h : m.WellFormed) (hk : m.kind.isTypeRef = false) :
    ∀ t ∈ m.core, IsToken t ∧ Modifier.ofWord? t = none ∧ t.head? ∉ [some '<', some '='] := by
  have hargs : m.kind.isCallable = true → IsToken ('(' :: m.args ++ [')']) ∧
      Modifier.ofWord? ('(' :: m.args ++ [')']) = none ∧
      ('(' :: m.args ++ [')']).head? ∉ [some '<', some '='] := fun hcallable =>
    ⟨h.args hcallable, ofWord?_eq_none_of_mem (c := '(') (by decide) List.mem_cons_self,
      by simp⟩
  have htype : m.kind ∈ [.method, .field] → IsToken m.typeName ∧
      Modifier.ofWord? m.typeName = none ∧ m.typeName.head? ∉ [some '<', some '='] := by
    intro hmem
    obtain ⟨htoken, hword, hhead⟩ := h.typeName hmem
    refine ⟨htoken, hword, fun hin => hhead ?_⟩
    simp only [List.mem_cons, List.not_mem_nil, or_false] at hin ⊢
    exact hin.imp_right .inr
  have hname := h.qualifiedName hk
  rcases hkind : m.kind
  case header | superclass | interface | permitted => simp [hkind, Kind.isTypeRef] at hk
  all_goals simp only [Member.core, hkind, List.forall_mem_cons]
  case constructor => exact ⟨hname, hargs (by rw [hkind]; rfl), List.forall_mem_nil _⟩
  case method =>
    exact ⟨htype (by rw [hkind]; decide), hname, hargs (by rw [hkind]; rfl), List.forall_mem_nil _⟩
  case field => exact ⟨htype (by rw [hkind]; decide), hname, List.forall_mem_nil _⟩
  case inner => exact ⟨hname, List.forall_mem_nil _⟩

theorem dropLast_core (hk : m.kind.isTypeRef = true) : m.core.dropLast = [] := by
  unfold Member.core
  cases hkind : m.kind <;> simp [hkind, Kind.isTypeRef] at hk ⊢

theorem core_typeRef (hk : m.kind ∈ [.superclass, .interface, .permitted]) :
    m.core = [m.name ++ m.typeParams.getD []] := by
  simp only [List.mem_cons, List.not_mem_nil, or_false] at hk
  rcases hk with hk | hk | hk <;> simp only [Member.core, hk]

/-- A well-formed member has the shape of those that are read from lines. -/
theorem WellFormed.shaped (h : m.WellFormed) : m.Shaped where
  valid := h.valid
  outer := h.outer
  declaring hk := ⟨(h.declaring hk).1.1, h.name.1, (h.declaring hk).2⟩
  tokens _ t ht := by
    rcases hk : m.kind.isTypeRef
    · exact (h.core hk t ht).1
    · rcases header_or_reference hk with hheader | href
      · simp only [Member.core, hheader, List.mem_singleton] at ht
        rw [ht]
        exact h.name.isToken
      · rw [core_typeRef href, List.mem_singleton] at ht
        rw [ht]
        exact h.isToken_name_append href
  closed := by
    rcases hk : m.kind.isTypeRef
    · intro t ht heq
      exact (h.core hk t (List.dropLast_subset _ ht)).2.2 (by simp [heq])
    · rw [dropLast_core hk]
      exact closed_nil
  keyword hk _ t ht := by
    rcases href : m.kind.isTypeRef
    · exact (h.core href t (List.mem_of_mem_head? ht)).2.1
    · have hheader := (header_or_reference href).resolve_right hk
      simp only [Member.core, hheader, List.head?_cons, Option.mem_def, Option.some.injEq] at ht
      rw [← ht]
      exact h.keyword hheader
  noGenerics hk _ t ht heq :=
    (h.core (isTypeRef_of_isCallable hk) t (List.mem_of_mem_head? ht)).2.2 (by simp [heq])
  name _ := h.name.not_mem (by decide)
  typeParams p hp := by
    rcases hk : m.kind
    case header | constructor | method => exact (h.generics (by rw [hk]; decide) p hp).2
    case superclass | interface | permitted => exact (h.typeArgs (by rw [hk]; decide) p hp).2
    case field | inner =>
      rw [h.noTypeParams (by rw [hk]; decide)] at hp
      cases hp
  generics hk p hp := by
    refine (h.generics ?_ p hp).1
    rcases Kind.isCallable_iff.1 hk with hk | hk <;> rw [hk] <;> decide
  noTypeParams := h.noTypeParams
  noTypeName := h.noTypeName
  noArgs := h.noArgs
  throws := by
    have hnil : m.throws = [] → throwsText (split (· == ',') m.throws) = m.throws := by
      intro hnil
      rw [hnil]
      rfl
    rcases hk : m.kind.isCallable
    · exact hnil (h.noThrows hk)
    · exact (h.throws hk).elim hnil And.right
  noThrows := h.noThrows
  noConstant := h.constant
  constant hne t ht heq := by
    have hfield : m.kind = .field := Decidable.not_imp_self.1 fun hk => absurd (h.constant hk) hne
    exact (h.core (by rw [hfield]; rfl) t ht).2.2 (by simp [heq])
  direct := h.direct

/-! ### Tokens of a line -/

/-- The tokens of the last word of a field's line. -/
def constantTokens : Option Text → List Text
  | none => []
  | some [] => [['=']]
  | some value => ['=' :: ' ' :: value]

/-- The last words of a callable's line. -/
def exceptionWords (m : Member) : List Text :=
  if m.throws = [] then [] else ["throws".toList, m.throws]

/-- The tokens in front of exceptions and constants. -/
def lead (m : Member) : List Text :=
  m.modifiers.toList.map Modifier.word ++ (m.typeParams.toList ++ m.core)

theorem tokens_typeParams (h : m.Shaped) (hparams : ∀ p ∈ m.typeParams, IsToken p) :
    Line.tokens (m.typeParams.getD []) = .ok m.typeParams.toList ∧
      Closed m.typeParams.toList := by
  rcases hp : m.typeParams with _ | p
  · exact ⟨tokens_nil, closed_nil⟩
  · refine ⟨hparams p hp, closed_singleton ?_⟩
    rw [h.typeParams p hp]
    decide

theorem tokens_words_header (hk : m.kind = .header) :
    Line.tokens ([' '].intercalate (m.words.filter (· ≠ []))) =
      (Line.tokens ([' '].intercalate ([m.typeParams.getD [], m.name].filter (· ≠ [])))).map
        (m.modifiers.toList.map Modifier.word ++ ·) := by
  have hwords : m.words = [m.modifiers.text] ++ [m.typeParams.getD [], m.name] := by
    simp only [words, hk, List.singleton_append]
  rw [hwords, tokens_intercalate_append
    (.cons ⟨tokens_modifiers m.modifiers, closed_modifiers m.modifiers⟩ .nil)]
  simp only [List.flatten_cons, List.flatten_nil, List.append_nil]

theorem tokens_typeParams_name (h : m.Shaped) (hparams : ∀ p ∈ m.typeParams, IsToken p) :
    Line.tokens ([' '].intercalate ([m.typeParams.getD [], m.name].filter (· ≠ []))) =
      (Line.tokens m.name).map (m.typeParams.toList ++ ·) := by
  have happend := tokens_intercalate_append (.cons (tokens_typeParams h hparams) .nil) [m.name]
  rw [intercalate_filter_singleton] at happend
  refine happend.trans ?_
  simp only [List.flatten_cons, List.flatten_nil, List.append_nil]

theorem tokens_words_typeRef (h : m.Shaped) (hk : m.kind ∈ [.superclass, .interface, .permitted]) :
    Line.tokens ([' '].intercalate (m.words.filter (· ≠ []))) =
      .ok ((if m.direct then [['@']] else []) ++ m.core) := by
  have htoken : IsToken (m.name ++ m.typeParams.getD []) := by
    refine h.tokens (.inl fun heq => by simp [heq] at hk) _ ?_
    rw [core_typeRef hk]
    exact List.mem_singleton.2 rfl
  have hmark : Line.tokens (if m.direct then ['@'] else []) =
        .ok (if m.direct then [['@']] else []) ∧
      Closed (if m.direct then [['@']] else []) := by
    split
    next => exact ⟨tokens_of_isPlain (by decide) (by decide), closed_singleton (by decide)⟩
    next => exact ⟨tokens_nil, closed_nil⟩
  have hwords : m.words =
      [if m.direct then ['@'] else []] ++ [m.name ++ m.typeParams.getD []] := by
    simp only [List.mem_cons, List.not_mem_nil, or_false] at hk
    rcases hk with hk | hk | hk <;> simp only [words, hk, List.singleton_append]
  rw [hwords, tokens_intercalate_append (.cons hmark .nil), intercalate_filter_singleton, htoken,
    core_typeRef hk]
  simp only [List.flatten_cons, List.flatten_nil, List.append_nil]
  rfl

/-- A list of arguments follows the name of a callable without a space. -/
theorem tokens_qualifiedName_args (h : m.Shaped) (hk : m.kind.isCallable = true) :
    Line.tokens (m.qualifiedName ++ '(' :: m.args ++ [')']) =
        .ok [m.qualifiedName, '(' :: m.args ++ [')']] ∧
      Closed [m.qualifiedName, '(' :: m.args ++ [')']] := by
  have hmem : m.qualifiedName ∈ m.core.dropLast ∧ ('(' :: m.args ++ [')']) ∈ m.core := by
    rcases Kind.isCallable_iff.1 hk with hk | hk <;> simp [core, hk]
  have hheader : m.kind ≠ .header := by
    intro heq
    rw [heq] at hk
    cases hk
  have hname : IsToken m.qualifiedName := h.tokens (.inl hheader) _ (List.dropLast_subset _ hmem.1)
  have hclosed : m.qualifiedName.head? ≠ some '=' := h.closed _ hmem.1
  constructor
  · have happend := tokens_append hname (closed_singleton hclosed) (.inr rfl) (m.args ++ [')'])
    have hargs : IsToken ('(' :: (m.args ++ [')'])) := h.tokens (.inl hheader) _ hmem.2
    rw [List.append_assoc, List.cons_append, happend, hargs]
    rfl
  · refine List.forall_mem_cons.2 ⟨hclosed, closed_singleton ?_⟩
    rw [List.cons_append, List.head?_cons]
    decide

theorem tokens_words_callable (h : m.Shaped) (hk : m.kind.isCallable = true) :
    Line.tokens ([' '].intercalate (m.words.filter (· ≠ []))) =
      (Line.tokens ([' '].intercalate (m.exceptionWords.filter (· ≠ [])))).map (m.lead ++ ·) := by
  have hparams := tokens_typeParams h (h.generics hk)
  have hargs := tokens_qualifiedName_args h hk
  have hmods := And.intro (tokens_modifiers m.modifiers) (closed_modifiers m.modifiers)
  rcases Kind.isCallable_iff.1 hk with hkind | hkind
  · have hnone : m.typeName = [] := h.noTypeName (by rw [hkind]; decide)
    have hwords : m.words = [m.modifiers.text, m.typeParams.getD [], [],
        m.qualifiedName ++ '(' :: m.args ++ [')']] ++ m.exceptionWords := by
      simp only [words, hkind, hnone, exceptionWords]
    rw [hwords, tokens_intercalate_append
      (.cons hmods (.cons hparams (.cons ⟨tokens_nil, closed_nil⟩ (.cons hargs .nil))))]
    simp [lead, core, hkind]
  · have htype : IsToken m.typeName ∧ m.typeName.head? ≠ some '=' :=
      ⟨h.tokens (.inl (by simp [hkind])) _ (by simp [core, hkind]),
        h.closed _ (by simp [core, hkind])⟩
    have hwords : m.words = [m.modifiers.text, m.typeParams.getD [], m.typeName,
        m.qualifiedName ++ '(' :: m.args ++ [')']] ++ m.exceptionWords := by
      simp only [words, hkind, exceptionWords]
    rw [hwords, tokens_intercalate_append (.cons hmods (.cons hparams
      (.cons ⟨htype.1, closed_singleton htype.2⟩ (.cons hargs .nil))))]
    simp [lead, core, hkind]

theorem tokens_constant (constant : Option Text) :
    Line.tokens (match constant with
      | none => []
      | some [] => ['=']
      | some value => '=' :: ' ' :: value) =
    .ok (constantTokens constant) := by
  rcases constant with _ | _ | ⟨c, r⟩
  · exact tokens_nil
  · exact tokens_equals []
  · exact tokens_equals (' ' :: c :: r)

theorem tokens_words_field (h : m.Shaped) (hk : m.kind = .field) :
    Line.tokens ([' '].intercalate (m.words.filter (· ≠ []))) =
      .ok (m.lead ++ constantTokens m.constant) := by
  have hparams : m.typeParams = none := h.noTypeParams (by rw [hk]; decide)
  have hmods := And.intro (tokens_modifiers m.modifiers) (closed_modifiers m.modifiers)
  have htype : IsToken m.typeName ∧ Closed [m.typeName] :=
    ⟨h.tokens (.inl (by simp [hk])) _ (by simp [core, hk]),
      closed_singleton (h.closed _ (by simp [core, hk]))⟩
  have hname : IsToken m.qualifiedName := h.tokens (.inl (by simp [hk])) _ (by simp [core, hk])
  rcases hconstant : m.constant with _ | value
  · -- Without a constant the name ends the line, and may reach to its end.
    have hwords : m.words.filter (· ≠ []) =
        ([m.modifiers.text, m.typeName] ++ [m.qualifiedName]).filter (· ≠ []) := by
      simp [words, hk, hconstant, List.filter_cons]
    rw [hwords, tokens_intercalate_append (.cons hmods (.cons htype .nil)),
      intercalate_filter_singleton, hname]
    simp [lead, core, hk, hparams, constantTokens, Except.map]
  · have hclosed : Closed [m.qualifiedName] :=
      closed_singleton (h.constant (by simp [hconstant]) _ (by simp [core, hk]))
    have hwords : m.words =
        [m.modifiers.text, m.typeName, m.qualifiedName] ++ [match m.constant with
          | none => []
          | some [] => ['=']
          | some value => '=' :: ' ' :: value] := by
      simp only [words, hk]
      rfl
    rw [hwords, tokens_intercalate_append (.cons hmods (.cons htype (.cons ⟨hname, hclosed⟩ .nil))),
      intercalate_filter_singleton, tokens_constant, hconstant]
    simp [lead, core, hk, hparams, Except.map]

theorem tokens_words_inner (h : m.Shaped) (hk : m.kind = .inner) :
    Line.tokens ([' '].intercalate (m.words.filter (· ≠ []))) = .ok m.lead := by
  have hparams : m.typeParams = none := h.noTypeParams (by rw [hk]; decide)
  have hname : IsToken m.qualifiedName := h.tokens (.inl (by simp [hk])) _ (by simp [core, hk])
  have hwords : m.words = [m.modifiers.text] ++ [m.qualifiedName] := by
    simp only [words, hk, List.singleton_append]
  rw [hwords, tokens_intercalate_append
    (.cons ⟨tokens_modifiers m.modifiers, closed_modifiers m.modifiers⟩ .nil),
    intercalate_filter_singleton, hname]
  simp [lead, core, hk, hparams, Except.map]

end Member

end ApiSurface
