import ApiSurface.Proofs.Line.Entity
import ApiSurface.Proofs.Line.Exceptions
import ApiSurface.Proofs.Line.Stable

/-!
# The shape of what is read

Every member that is read from a line has the shape of those that are written to lines, and its
line has no more line ends than the text that was read (`shaped_of_parseMember`): its words are
made of the tokens of that text (`madeOf_of_readTokens`).
-/

namespace ApiSurface

open Text Line

namespace Line

/-! ### Parts of a line -/

/-- Modifiers are taken up to the first token that is no keyword. -/
theorem exists_of_takeModifiers (ts : List Text) : ∃ ms : List Modifier,
    ts = ms.map Modifier.word ++ (takeModifiers ts).2 ∧
      ∀ t ∈ (takeModifiers ts).2.head?, Modifier.ofWord? t = none := by
  induction ts with
  | nil => exact ⟨[], rfl, fun _ ht => nomatch ht⟩
  | cons t ts ih =>
    obtain ⟨ms, heq, hhead⟩ := ih
    unfold takeModifiers
    split
    next m hword =>
      refine ⟨m :: ms, ?_, hhead⟩
      rw [List.map_cons, List.cons_append, ← heq, ← Modifier.ofWord?_eq_some_iff.1 hword]
    next hword =>
      refine ⟨[], rfl, fun u hu => ?_⟩
      obtain rfl : t = u := Option.some.inj hu
      exact hword

/-- A generics declaration is taken if the first token starts with an angle bracket. -/
theorem of_takeGenerics {ts rest : List Text} {generics : Option Text}
    (h : takeGenerics ts = (generics, rest)) :
    ts = generics.toList ++ rest ∧ (∀ p ∈ generics, p.head? = some '<') ∧
      (generics = none → ∀ t ∈ rest.head?, t.head? ≠ some '<') := by
  unfold takeGenerics at h
  split at h
  next =>
    cases h
    exact ⟨rfl, (fun _ hp => nomatch hp), fun _ _ ht => nomatch ht⟩
  next t ts =>
    split at h
    next hhead =>
      cases h
      refine ⟨rfl, fun p hp => ?_, fun hnone => nomatch hnone⟩
      obtain rfl : t = p := Option.some.inj hp
      exact hhead
    next hhead =>
      cases h
      refine ⟨rfl, (fun _ hp => nomatch hp), fun _ u hu => ?_⟩
      obtain rfl : t = u := Option.some.inj hu
      exact hhead

/-- A name and its type arguments make up the text that they are cut from. -/
theorem of_cutTypeArgs {t name : Text} {args : Option Text} (h : cutTypeArgs t = (name, args)) :
    name ++ args.getD [] = t ∧ '<' ∉ name ∧ ∀ p ∈ args, p.head? = some '<' := by
  cases h
  have hall := (List.all_eq_true.1 (List.all_takeWhile (l := t) (p := (· ≠ '<'))))
  have hhead := List.head?_dropWhile_not (fun c => decide (c ≠ '<')) t
  refine ⟨?_, fun hmem => by simpa using hall _ hmem, fun p hp => ?_⟩
  · split
    next hnil =>
      have happend := List.takeWhile_append_dropWhile (l := t) (p := fun c => decide (c ≠ '<'))
      rw [hnil] at happend
      exact happend
    next => exact List.takeWhile_append_dropWhile
  · split at hp
    next => cases hp
    next hne =>
      cases hp
      obtain ⟨c, r, hcons⟩ := List.exists_cons_of_ne_nil hne
      rw [hcons] at hhead ⊢
      simpa using hhead

theorem of_cutName {delimiter : Char} {qualified declaring name : Text}
    (h : cutName delimiter qualified = .ok (declaring, name)) :
    qualified = declaring ++ delimiter :: name ∧ declaring ≠ [] ∧ name ≠ [] ∧
      delimiter ∉ name := by
  unfold cutName at h
  split at h
  next a b hcut =>
    split at h
    next => cases h
    next hne =>
      cases h
      rw [not_or] at hne
      obtain ⟨c, heq, hc, hname⟩ := eq_of_cutLast?_eq_some hcut
      rw [beq_iff_eq] at hc
      subst hc
      refine ⟨heq, hne.1, hne.2, fun hmem => ?_⟩
      have := hname _ hmem
      simp at this
  next => cases h

theorem of_takeArgs {ts rest : List Text} {args : Text} (h : takeArgs ts = .ok (args, rest)) :
    ts = ('(' :: args ++ [')']) :: rest := by
  unfold takeArgs at h
  split at h
  next => cases h
  next t ts =>
    split at h
    next hargs =>
      cases h
      unfold argsOf? at hargs
      split at hargs
      next => rw [dropEnd?_eq_some_iff.1 hargs, List.cons_append]
      next => cases hargs
    next => cases h

theorem of_expectEnd {ts : List Text} {u : Unit} (h : expectEnd ts = .ok u) : ts = [] := by
  rcases ts with _ | ⟨t, ts⟩
  · rfl
  · cases h

theorem of_readThrows {ts list : List Text} (h : readThrows ts = .ok list) :
    (ts = [] ∧ list = []) ∨ ∃ t, ts = ["throws".toList, t] ∧ list = split (· == ',') t := by
  unfold readThrows at h
  split at h
  next =>
    cases h
    exact .inl ⟨rfl, rfl⟩
  next keyword ts =>
    split at h
    next => cases h
    next hkeyword =>
      split at h
      next => cases h
      next t rest =>
        obtain ⟨_, hend, rfl⟩ := map_eq_ok_iff.1 h
        rw [of_expectEnd hend, not_not.1 hkeyword]
        exact .inr ⟨t, rfl, rfl⟩

/-- The tokens of a constant have no more line ends than the tokens that it is read from. -/
theorem of_readConstant {ts : List Text} {constant : Option Text}
    (h : readConstant ts = .ok constant) :
    (constant ≠ none → ts ≠ []) ∧
      ∀ c ∈ ['\r', '\n'],
        (Member.constantTokens constant).flatten.count c ≤ ts.flatten.count c := by
  unfold readConstant at h
  split at h
  next =>
    cases h
    exact ⟨fun hne => absurd rfl hne, fun _ _ => Nat.le_refl _⟩
  next t rest =>
    refine ⟨fun _ => List.cons_ne_nil _ _, fun c hc => ?_⟩
    have hcount : ∀ value : Text,
        (Member.constantTokens (some value)).flatten.count c ≤ ('=' :: value).count c := by
      intro value
      simp only [List.mem_cons, List.not_mem_nil, or_false] at hc
      rcases value with _ | ⟨d, r⟩ <;> rcases hc with rfl | rfl <;>
        simp [Member.constantTokens, List.count_cons]
    split at h
    next value =>
      obtain ⟨_, hend, rfl⟩ := map_eq_ok_iff.1 h
      refine Nat.le_trans (hcount value) ?_
      simp only [List.flatten_cons, List.count_append, List.count_cons]
      omega
    next value _ =>
      obtain ⟨_, hend, rfl⟩ := map_eq_ok_iff.1 h
      refine Nat.le_trans (hcount value) ?_
      rw [List.flatten_cons, List.count_append]
      omega
    next => cases h

end Line

namespace Member

variable {m : Member} {ts us : List Text}

/-! ### Members made of tokens -/

/-- A member has the shape of those that are read from lines and no annotations, and its words have
no more line ends than a list of tokens. -/
structure MadeOf (ts : List Text) (m : Member) : Prop where
  /-- It has the right shape. -/
  shaped : m.Shaped
  /-- It has no annotations. -/
  annots : m.annots = ∅
  /-- Its words have no line ends of their own. -/
  lineEnds : ∀ c ∈ ['\r', '\n'], m.words.flatten.count c ≤ ts.flatten.count c

theorem count_modifiers_text {c : Char} (hc : c ∈ ['\r', '\n']) (s : Modifiers) :
    s.text.count c = 0 := by
  simp only [List.mem_cons, List.not_mem_nil, or_false] at hc
  refine List.count_eq_zero.2 (not_mem_intercalate ?_ fun w hw => ?_)
  · rcases hc with rfl | rfl <;> decide
  · obtain ⟨m, -, rfl⟩ := List.mem_map.1 hw
    have hnot : '\r' ∉ m.word ∧ '\n' ∉ m.word := by cases m <;> decide
    rcases hc with rfl | rfl
    · exact hnot.1
    · exact hnot.2

/-- The words of a member with a simple name have the characters of the tokens in front of its
exceptions and its constant, and those of the exceptions and the constant. -/
theorem count_words (h : m.Plain) (hk : m.kind.isTypeRef = false) {c : Char}
    (hc : c ∈ ['\r', '\n']) : m.words.flatten.count c =
      (m.typeParams.toList ++ m.core).flatten.count c +
        (m.exceptionWords ++ constantTokens m.constant).flatten.count c := by
  have hmods := count_modifiers_text hc m.modifiers
  have hparams : (m.typeParams.getD []).count c = m.typeParams.toList.flatten.count c := by
    cases m.typeParams <;> simp
  rcases hkind : m.kind
  case header | superclass | interface | permitted => simp [hkind, Kind.isTypeRef] at hk
  case constructor =>
    have htype := h.noTypeName (by rw [hkind]; decide)
    have hconstant := h.noConstant (by rw [hkind]; decide)
    simp only [words, core, hkind, htype, hconstant, constantTokens, exceptionWords,
      List.flatten_append, List.flatten_cons, List.flatten_nil, List.count_append, hmods, hparams,
      List.append_nil, List.nil_append]
    omega
  case method =>
    have hconstant := h.noConstant (by rw [hkind]; decide)
    simp only [words, core, hkind, hconstant, constantTokens, exceptionWords,
      List.flatten_append, List.flatten_cons, List.flatten_nil, List.count_append, hmods, hparams,
      List.append_nil]
    omega
  case field =>
    have hnone := h.noTypeParams (by rw [hkind]; decide)
    have hthrows := h.noThrows (by rw [hkind]; rfl)
    rcases hconstant : m.constant with _ | _ | ⟨d, r⟩ <;>
      simp [words, core, hkind, hnone, hthrows, hconstant, constantTokens, exceptionWords, hmods,
        List.count_append, Nat.add_assoc]
  case inner =>
    have hnone := h.noTypeParams (by rw [hkind]; decide)
    have hthrows := h.noThrows (by rw [hkind]; rfl)
    have hconstant := h.noConstant (by rw [hkind]; decide)
    simp [words, core, hkind, hnone, hthrows, hconstant, constantTokens, exceptionWords, hmods]

/-- A member with a simple name is made of tokens that are its modifiers, its generics declaration,
its texts and what its exceptions or its constant are read from. -/
theorem madeOf_of_lead {qualified : Text} (us : List Text) {rest : List Text}
    (hk : m.kind.isTypeRef = false) (hplain : m.Plain) (hannots : m.annots = ∅) (hvalid : m.Valid)
    (htokens : ∀ t ∈ ts, IsToken t) (hclosed : Closed ts.dropLast)
    (hname : cutName m.kind.delimiter qualified = .ok (m.declaring, m.name))
    (hcut : m.qualifiedName = qualified → m.core ++ us = rest)
    (hmods : (takeModifiers ts).2 = m.typeParams.toList ++ rest)
    (hnoGenerics : m.kind.isCallable = true → m.typeParams = none →
      ∀ t ∈ rest.head?, t.head? ≠ some '<')
    (htypeParams : ∀ p ∈ m.typeParams, p.head? = some '<')
    (hthrows : throwsText (split (· == ',') m.throws) = m.throws)
    (hconstant : m.constant ≠ none → us ≠ [])
    (hcount : ∀ c ∈ ['\r', '\n'],
      (m.exceptionWords ++ constantTokens m.constant).flatten.count c ≤ us.flatten.count c) :
    m.MadeOf ts := by
  obtain ⟨rfl, hdeclaring⟩ := of_cutName hname
  obtain rfl := hcut (qualifiedName_eq hk hdeclaring.1)
  obtain ⟨ms, hts, hkeyword⟩ := exists_of_takeModifiers ts
  rw [hmods] at hts hkeyword
  have hhead : (m.core ++ us).head? = m.core.head? := List.head?_append_of_ne_nil _ m.core_ne_nil
  have hcore : ∀ t ∈ m.core, t ∈ ts := by
    intro t ht
    simp [hts, ht]
  have hmiddle : us ≠ [] → ∀ t ∈ m.core, t ∈ ts.dropLast := by
    intro hne t ht
    rw [hts, ← List.append_assoc, ← List.append_assoc, List.dropLast_append_of_ne_nil hne]
    simp [ht]
  have hdropLast : ∀ t ∈ m.core.dropLast, t ∈ ts.dropLast := by
    intro t ht
    by_cases hne : us = []
    · rw [hts, hne, List.append_nil, ← List.append_assoc,
        List.dropLast_append_of_ne_nil m.core_ne_nil]
      exact List.mem_append_right _ ht
    · exact hmiddle hne t (List.dropLast_subset _ ht)
  refine ⟨{ hplain with
    valid := hvalid
    declaring := fun _ => hdeclaring
    tokens := fun _ t ht => htokens t (hcore t ht)
    closed := fun t ht => hclosed t (hdropLast t ht)
    keyword := fun _ hnone t ht => hkeyword t (by rwa [hnone, Option.toList_none, List.nil_append,
      hhead])
    noGenerics := fun hcallable hnone t ht => hnoGenerics hcallable hnone t (by rwa [hhead])
    name := fun href => by simp [hk] at href
    typeParams := htypeParams
    generics := fun _ p hp => htokens p (by simp [hts, Option.mem_def.1 hp])
    throws := hthrows
    constant := fun hne t ht => hclosed t (hmiddle (hconstant hne) t ht) }, hannots,
    fun c hc => ?_⟩
  rw [count_words hplain hk hc, hts]
  have hle := hcount c hc
  simp only [List.flatten_append, List.count_append] at hle ⊢
  omega

/-- Exceptions that are read are in order, and have no more line ends than what they are read
from. -/
theorem exceptions_of_readThrows {list : List Text} (h : readThrows us = .ok list)
    (hm : m.throws = throwsText list) :
    throwsText (split (· == ',') m.throws) = m.throws ∧
      ∀ c ∈ ['\r', '\n'], m.exceptionWords.flatten.count c ≤ us.flatten.count c := by
  rcases of_readThrows h with ⟨rfl, rfl⟩ | ⟨t, rfl, rfl⟩
  · have hnil : m.throws = [] := hm
    have hwords : m.exceptionWords = [] := if_pos hnil
    exact ⟨by rw [hnil]; rfl, fun c _ => by simp [hwords]⟩
  · refine ⟨by rw [hm, throwsText_split fun u hu => not_mem_of_mem_split hu], fun c _ => ?_⟩
    have hle : m.throws.count c ≤ t.count c := hm ▸ (throwsText_subperm t).count_le c
    unfold exceptionWords
    split
    next => exact Nat.zero_le _
    next =>
      simp only [List.flatten_cons, List.flatten_nil, List.count_append]
      omega

/-- A callable is made of its modifiers, its generics declaration, its texts and its exceptions. -/
theorem madeOf_callable {qualified : Text} {rest list : List Text} (hk : m.kind.isCallable = true)
    (hplain : m.Plain) (hannots : m.annots = ∅) (hvalid : m.Valid) (htokens : ∀ t ∈ ts, IsToken t)
    (hclosed : Closed ts.dropLast)
    (hname : cutName m.kind.delimiter qualified = .ok (m.declaring, m.name))
    (hcut : m.qualifiedName = qualified → m.core ++ us = rest)
    (hgenerics : takeGenerics (takeModifiers ts).2 = (m.typeParams, rest))
    (hread : readThrows us = .ok list) (hthrows : m.throws = throwsText list) : m.MadeOf ts := by
  obtain ⟨hmods, htypeParams, hfirst⟩ := of_takeGenerics hgenerics
  obtain ⟨hordered, hcount⟩ := exceptions_of_readThrows hread hthrows
  have hconstant : m.constant = none := by
    refine hplain.noConstant fun heq => ?_
    rw [heq] at hk
    cases hk
  refine madeOf_of_lead us (isTypeRef_of_isCallable hk) hplain hannots hvalid htokens hclosed
    hname hcut hmods
    (fun _ => hfirst) htypeParams hordered (fun hne => absurd hconstant hne) ?_
  rw [hconstant, constantTokens, List.append_nil]
  exact hcount

section Readers

variable {d : Draft} {mods : Modifiers}

theorem madeOf_of_readConstructor (h : (readConstructor ts).result = .ok d)
    (htokens : ∀ t ∈ ts, IsToken t) (hclosed : Closed ts.dropLast)
    (hvalid : Valid { d.member with modifiers := mods }) :
    d.member.kind = .constructor ∧ MadeOf ts { d.member with modifiers := mods } := by
  unfold readConstructor at h
  rcases hgenerics : takeGenerics (takeModifiers ts).2 with ⟨generics, _ | ⟨qualified, us⟩⟩
  · simp only [hgenerics] at h
    cases h
  · simp only [hgenerics] at h
    obtain ⟨⟨declaring, name⟩, hname, h⟩ := Reading.result_bind_eq_ok_iff.1 h
    obtain ⟨⟨args, rest⟩, hargs, h⟩ := Reading.result_bind_eq_ok_iff.1 h
    obtain ⟨list, hthrows, h⟩ := Reading.result_bind_eq_ok_iff.1 h
    obtain rfl := Except.ok.inj h
    obtain rfl := of_takeArgs hargs
    refine ⟨rfl, madeOf_callable rfl ?_ rfl hvalid htokens hclosed hname (fun hq => ?_)
      hgenerics hthrows rfl⟩
    · constructor <;> simp [Kind.isTypeRef, Kind.isCallable]
    · exact congrArg (fun q => [q, '(' :: args ++ [')']] ++ rest) hq

theorem madeOf_of_readMethod (h : (readMethod ts).result = .ok d) (htokens : ∀ t ∈ ts, IsToken t)
    (hclosed : Closed ts.dropLast) (hvalid : Valid { d.member with modifiers := mods }) :
    d.member.kind = .method ∧ MadeOf ts { d.member with modifiers := mods } := by
  unfold readMethod at h
  rcases hgenerics : takeGenerics (takeModifiers ts).2 with
    ⟨generics, _ | ⟨typeName, _ | ⟨qualified, us⟩⟩⟩
  · simp only [hgenerics] at h
    cases h
  · simp only [hgenerics] at h
    cases h
  · simp only [hgenerics] at h
    obtain ⟨⟨declaring, name⟩, hname, h⟩ := Reading.result_bind_eq_ok_iff.1 h
    obtain ⟨⟨args, rest⟩, hargs, h⟩ := Reading.result_bind_eq_ok_iff.1 h
    obtain ⟨list, hthrows, h⟩ := Reading.result_bind_eq_ok_iff.1 h
    obtain rfl := Except.ok.inj h
    obtain rfl := of_takeArgs hargs
    refine ⟨rfl, madeOf_callable rfl ?_ rfl hvalid htokens hclosed hname (fun hq => ?_)
      hgenerics hthrows rfl⟩
    · constructor <;> simp [Kind.isTypeRef, Kind.isCallable]
    · exact congrArg (fun q => [typeName, q, '(' :: args ++ [')']] ++ rest) hq

theorem madeOf_of_readField (h : (readField ts).result = .ok d) (htokens : ∀ t ∈ ts, IsToken t)
    (hclosed : Closed ts.dropLast) (hvalid : Valid { d.member with modifiers := mods }) :
    d.member.kind = .field ∧ MadeOf ts { d.member with modifiers := mods } := by
  unfold readField at h
  rcases hmods : (takeModifiers ts).2 with _ | ⟨typeName, _ | ⟨qualified, us⟩⟩
  · simp only [hmods] at h
    cases h
  · simp only [hmods] at h
    cases h
  · simp only [hmods] at h
    obtain ⟨⟨declaring, name⟩, hname, h⟩ := Reading.result_bind_eq_ok_iff.1 h
    obtain ⟨constant, hread, h⟩ := Reading.result_bind_eq_ok_iff.1 h
    obtain rfl := Except.ok.inj h
    obtain ⟨hconstant, hcount⟩ := of_readConstant hread
    refine ⟨rfl, madeOf_of_lead us rfl ?_ rfl hvalid htokens hclosed hname (fun hq => ?_) hmods
      (fun hk => nomatch hk) (fun _ hp => nomatch hp) rfl hconstant hcount⟩
    · constructor <;> simp [Kind.isTypeRef, Kind.isCallable]
    · exact congrArg (fun q => [typeName, q] ++ us) hq

theorem madeOf_of_readInner (h : (readInner ts).result = .ok d) (htokens : ∀ t ∈ ts, IsToken t)
    (hclosed : Closed ts.dropLast) (hvalid : Valid { d.member with modifiers := mods }) :
    d.member.kind = .inner ∧ MadeOf ts { d.member with modifiers := mods } := by
  unfold readInner at h
  rcases hmods : (takeModifiers ts).2 with _ | ⟨qualified, us⟩
  · simp only [hmods] at h
    cases h
  · simp only [hmods] at h
    obtain ⟨_, hend, h⟩ := Reading.result_bind_eq_ok_iff.1 h
    obtain ⟨⟨declaring, name⟩, hname, h⟩ := Reading.result_bind_eq_ok_iff.1 h
    obtain rfl := Except.ok.inj h
    obtain rfl := of_expectEnd hend
    refine ⟨rfl, madeOf_of_lead [] rfl ?_ rfl hvalid htokens hclosed hname (fun hq => ?_) hmods
      (fun hk => nomatch hk) (fun _ hp => nomatch hp) rfl (fun hne => absurd rfl hne)
      fun _ _ => Nat.le_refl _⟩
    · constructor <;> simp [Kind.isTypeRef, Kind.isCallable]
    · exact congrArg (fun q => [q]) hq

/-- The reference to a type, with type parameters, a mark or modifiers of its own. -/
theorem plain_typeRef {kind : Kind} (hk : kind.isTypeRef = true) {direct : Bool}
    (hdirect : kind ≠ .interface → direct = false) (name : Text) (typeParams : Option Text) :
    Plain { typeRef kind name with typeParams, direct, modifiers := mods } where
  outer _ := rfl
  noTypeParams hmem := by
    simp only [List.mem_cons, List.not_mem_nil, or_false] at hmem
    rcases hmem with rfl | rfl <;> cases hk
  noTypeName _ := rfl
  noArgs _ := rfl
  noThrows _ := rfl
  noConstant _ := rfl
  direct := hdirect

theorem madeOf_of_readHeader (h : (readHeader ts).result = .ok d) (htokens : ∀ t ∈ ts, IsToken t)
    (hvalid : Valid { d.member with modifiers := mods }) :
    d.member.kind = .header ∧ MadeOf ts { d.member with modifiers := mods } := by
  unfold readHeader at h
  rcases hgenerics : takeGenerics (takeModifiers ts).2 with ⟨generics, _ | ⟨t, us⟩⟩
  · simp only [hgenerics] at h
    cases h
  rcases hcut : cutTypeArgs t with ⟨name, args⟩
  simp only [hgenerics, hcut] at h
  obtain ⟨_, hend, h⟩ := Reading.result_bind_eq_ok_iff.1 h
  obtain rfl := Except.ok.inj h
  obtain rfl := of_expectEnd hend
  obtain ⟨rfl, hname, hargs⟩ := of_cutTypeArgs hcut
  obtain ⟨hmods, hangle, -⟩ := of_takeGenerics hgenerics
  obtain ⟨ms, hts, hkeyword⟩ := exists_of_takeModifiers ts
  rw [hmods] at hts hkeyword
  refine ⟨rfl, ⟨{ plain_typeRef rfl (fun _ => rfl) name _ with
    valid := hvalid
    declaring := fun hk => nomatch hk
    tokens := ?tokens
    closed := closed_nil
    keyword := ?keyword
    noGenerics := fun hk => nomatch hk
    name := fun _ => hname
    typeParams := ?typeParams
    generics := fun hk => nomatch hk
    throws := rfl
    constant := fun hne => absurd rfl hne }, rfl, ?lineEnds⟩⟩
  case tokens =>
    intro hnone
    rcases generics with _ | q
    · obtain rfl : args = none := hnone.resolve_left fun hne => hne rfl
      refine List.forall_mem_singleton.2 (htokens name ?_)
      simp [hts]
    · exact absurd hnone (by simp [typeRef])
  case keyword =>
    intro _ hnone u hu
    obtain rfl : name = u := Option.some.inj hu
    rcases generics with _ | q
    · obtain rfl : args = none := hnone
      exact hkeyword (name ++ []) rfl ▸ by rw [List.append_nil]
    · cases hnone
  case typeParams =>
    intro p hp
    rcases generics with _ | q
    · exact hargs p hp
    · exact hangle p hp
  case lineEnds =>
    intro c hc
    rw [hts]
    rcases generics with _ | q <;>
      simp [words, typeRef, count_modifiers_text hc, List.count_append] <;> omega

theorem madeOf_of_readTypeRef {kind : Kind} (hk : kind ∈ [.superclass, .interface, .permitted])
    {direct : Bool} (hdirect : kind ≠ .interface → direct = false)
    (h : (readTypeRef kind direct ts).result = .ok d) (htokens : ∀ t ∈ ts, IsToken t)
    (hvalid : Valid { d.member with modifiers := mods }) :
    d.member.kind = kind ∧ MadeOf ts { d.member with modifiers := mods } := by
  unfold readTypeRef at h
  rcases hlast : ts.getLast? with _ | t
  · simp only [hlast] at h
    cases h
  rcases hcut : cutTypeArgs t with ⟨name, args⟩
  simp only [hlast, hcut] at h
  obtain rfl := Except.ok.inj h
  obtain ⟨rfl, hname, hargs⟩ := of_cutTypeArgs hcut
  have hmem : name ++ args.getD [] ∈ ts := List.mem_of_getLast? hlast
  have hcore : core { typeRef kind name with typeParams := args, direct, modifiers := mods } =
      [name ++ args.getD []] := core_typeRef hk
  have hkind : kind.isTypeRef = true ∧ kind.isCallable = false := by
    simp only [List.mem_cons, List.not_mem_nil, or_false] at hk
    rcases hk with rfl | rfl | rfl <;> decide
  obtain ⟨href, hcallable⟩ := hkind
  refine ⟨rfl, ⟨{ plain_typeRef href hdirect name args with
    valid := hvalid
    declaring := fun heq => by simp [typeRef, href] at heq
    tokens := ?tokens
    closed := ?closed
    keyword := fun hne => absurd hk hne
    noGenerics := fun heq => by simp [typeRef, hcallable] at heq
    name := fun _ => hname
    typeParams := hargs
    generics := fun heq => by simp [typeRef, hcallable] at heq
    throws := rfl
    constant := fun hne => absurd rfl hne }, rfl, ?lineEnds⟩⟩
  case tokens =>
    rw [hcore]
    exact fun _ => List.forall_mem_singleton.2 (htokens _ hmem)
  case closed =>
    rw [hcore]
    exact closed_nil
  case lineEnds =>
    intro c hc
    have hwords : words { typeRef kind name with typeParams := args, direct, modifiers := mods } =
        [if direct then ['@'] else [], name ++ args.getD []] := by
      simp only [List.mem_cons, List.not_mem_nil, or_false] at hk
      rcases hk with rfl | rfl | rfl <;> rfl
    have hmark : (if direct then ['@'] else []).count c = 0 := by
      simp only [List.mem_cons, List.not_mem_nil, or_false] at hc
      rcases hc with rfl | rfl <;> cases direct <;> rfl
    have hle : (name ++ args.getD []).count c ≤ ts.flatten.count c :=
      (List.sublist_flatten_of_mem hmem).count_le c
    rw [hwords, List.flatten_cons, List.flatten_cons, List.flatten_nil, List.append_nil,
      List.count_append, hmark, Nat.zero_add]
    exact hle

/-- Whatever is read from tokens is made of them. -/
theorem madeOf_of_readTokens {kind : Kind} {marked : Bool}
    (hmarked : marked = true → kind = .interface) (h : (readTokens kind marked ts).result = .ok d)
    (htokens : ∀ t ∈ ts, IsToken t)
    (hclosed : Closed ts.dropLast) (hvalid : Valid { d.member with modifiers := mods }) :
    MadeOf ts { d.member with modifiers := mods } := by
  unfold readTokens at h
  cases kind
  case header => exact (madeOf_of_readHeader h htokens hvalid).2
  case superclass | permitted =>
    exact (madeOf_of_readTypeRef (by decide) (fun _ => rfl) h htokens hvalid).2
  case interface =>
    exact (madeOf_of_readTypeRef (by decide) (fun hne => absurd rfl hne) h htokens hvalid).2
  case constructor => exact (madeOf_of_readConstructor h htokens hclosed hvalid).2
  case method => exact (madeOf_of_readMethod h htokens hclosed hvalid).2
  case field => exact (madeOf_of_readField h htokens hclosed hvalid).2
  case inner => exact (madeOf_of_readInner h htokens hclosed hvalid).2

end Readers

/-! ### Whole lines -/

/-- Apart from the tag, a line has the line ends of the words. -/
theorem count_line {c : Char} (hc : c ∈ ['\r', '\n']) (m : Member) :
    m.line.count c = m.words.flatten.count c := by
  have hspace : c ≠ ' ' := by
    simp only [List.mem_cons, List.not_mem_nil, or_false] at hc
    rcases hc with rfl | rfl <;> decide
  have htag : m.kind.tag.count c = 0 := by
    simp only [List.mem_cons, List.not_mem_nil, or_false] at hc
    rcases hc with rfl | rfl <;> cases m.kind <;> decide
  rw [line, (intercalate_perm ' ' _).count_eq, List.count_append, List.flatten_cons,
    List.count_append, htag, List.count_replicate, if_neg (by simpa using hspace.symm),
    Nat.zero_add, Nat.add_zero, List.flatten_filter_ne_nil]

end Member

open Member

theorem takeMark_sublist (line : Text) : (takeMark line).2.Sublist line := by
  unfold takeMark
  split
  next r => exact (List.dropWhile_sublist _).trans (List.sublist_cons_self _ _)
  next => exact .refl _

theorem cutTag_sublist (body : Text) : (cutTag body).2.Sublist body := by
  unfold cutTag
  rcases hcut : cutFirst? ' ' body with _ | ⟨tag, rest⟩
  · exact List.nil_sublist _
  · rw [(cutFirst?_eq_some_iff.1 hcut).1]
    exact (List.sublist_cons_self ' ' rest).trans (List.sublist_append_right tag _)

/-- A line is read as its tokens behind the mark and the tag are. -/
theorem readDraft_eq_ok_iff {raw : Text} {d : Draft} :
    (readDraft raw).result = .ok d ↔ ∃ kind ts,
      Kind.ofTag? (cutTag (takeMark (entityText raw)).2).1 = some kind ∧
      ((takeMark (entityText raw)).1 = true → kind = .interface) ∧
      tokens (cutTag (takeMark (entityText raw)).2).2 = .ok ts ∧
      (readTokens kind (takeMark (entityText raw)).1 ts).result = .ok d := by
  unfold readDraft
  rcases hkind : Kind.ofTag? (cutTag (takeMark (entityText raw)).2).1 with _ | kind
  · simp [hkind]
  have hmarked : ¬ ((takeMark (entityText raw)).1 = true ∧ kind ≠ .interface) ↔
      ((takeMark (entityText raw)).1 = true → kind = .interface) := by
    simp only [not_and, not_not]
  simp only [hkind, Option.some.injEq, exists_and_left, exists_eq_left', ← hmarked]
  split
  next hbad => exact iff_of_false (by simp) fun h => h.1 hbad
  next hgood =>
    rcases hscan : scan (cutTag (takeMark (entityText raw)).2).2 with _ | ts
    · refine iff_of_false (by simp) ?_
      rintro ⟨-, ts, htokens, -⟩
      have hok : scan (cutTag (takeMark (entityText raw)).2).2 = .ok ts :=
        mapError_eq_ok_iff.2 htokens
      rw [hscan] at hok
      cases hok
    · rw [mapError_eq_ok_iff.1 hscan]
      simp only [hgood, not_false_eq_true, true_and, Except.ok.injEq, exists_eq_left',
        Reading.result_adapt, mapError_eq_ok_iff]

/-- A member is read from a line as a draft whose modifiers are accepted. -/
theorem parseMember_eq_ok_iff {raw : Text} {m : Member} :
    parseMember raw = .ok m ↔ ∃ d, (readDraft raw).result = .ok d ∧ d.member? = .ok m := by
  rw [parseMember_eq, bind_eq_ok_iff]
  simp only [mapError_eq_ok_iff]

/-- A member that is read from a line has the shape of those that are, no annotations, and no more
line ends in its own line. -/
theorem shaped_of_parseMember {raw : Text} {m : Member} (h : parseMember raw = .ok m) :
    m.Shaped ∧ m.annots = ∅ ∧
      ∀ c ∈ ['\r', '\n'], m.line.count c ≤ (entityText raw).count c := by
  obtain ⟨d, hdraft, hmember⟩ := parseMember_eq_ok_iff.1 h
  have hset : d.member.setModifiers? d.modifiers = .ok m := hmember
  obtain ⟨-, rfl⟩ := setModifiers?_eq_ok_iff.1 hset
  obtain ⟨kind, ts, -, hmarked, htokens, hread⟩ := readDraft_eq_ok_iff.1 hdraft
  have hrest := (cutTag_sublist (takeMark (entityText raw)).2).trans
    (takeMark_sublist (entityText raw))
  obtain ⟨hshaped, hannots, hcount⟩ := madeOf_of_readTokens hmarked hread
    (isToken_of_mem_tokens htokens) (closed_dropLast htokens) (valid_of_setModifiers? hset)
  refine ⟨hshaped, hannots, fun c hc => ?_⟩
  rw [count_line hc]
  exact Nat.le_trans (hcount c hc) (((flatten_sublist htokens).trans hrest).count_le c)

end ApiSurface
