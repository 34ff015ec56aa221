import ApiSurface.Proofs.Line.Shape

/-!
# Lines read again

The line of a member that was read from a line is read as that member exactly if the member is
legible (`parseMember_line_iff`). Reading puts exceptions in order and takes the name of a class
apart without looking at the tokens that come of it, so not every member that is read is legible.
-/

namespace ApiSurface

open Text Line

namespace Member

variable {m : Member}

/-! ### Legible members -/

/-- A line does not end in a character that counts as a line end, if none is taken off its end. -/
theorem getLast?_line_ne {c : Char} (hc : c ∈ ['\r', '\n'])
    (hle : m.line.count c ≤ (entityText m.line).count c) : m.line.getLast? ≠ some c := by
  intro hlast
  have hstart : trimStart m.line = m.line := dropWhile_eq_self fun c hc => (head?_line m c hc).1
  rw [entityText, hstart] at hle
  obtain ⟨dropped, heq, -⟩ :=
    exists_eq_dropEndWhile_append (fun c => c == '\r' || c == '\n') m.line
  have hcount := congrArg (List.count c) heq
  rw [List.count_append] at hcount
  have hzero : dropped.count c = 0 := by omega
  have hnil : dropped = [] := by
    by_contra hne
    rw [heq, List.getLast?_append_of_ne_nil _ hne] at hlast
    exact List.count_eq_zero.1 hzero (List.mem_of_getLast? hlast)
  rw [hnil, List.append_nil] at heq
  have hstays := getLast?_dropEndWhile (fun c => c == '\r' || c == '\n') m.line c (heq ▸ hlast)
  simp only [List.mem_cons, List.not_mem_nil, or_false] at hc
  rcases hc with rfl | rfl <;> simp at hstays

/-- A line without line ends behind it that is read has tokens, which are read. -/
theorem exists_tokens_of_readDraft_line {d : Draft} (hl : entityText m.line = m.line)
    (h : (readDraft m.line).result = .ok d) :
    ∃ ts, tokens ([' '].intercalate (m.words.filter (· ≠ []))) = .ok ts ∧
      (readTokens m.kind false ts).result = .ok d := by
  rcases htokens : tokens ([' '].intercalate (m.words.filter (· ≠ []))) with e | ts
  · have hscan : ∃ b, scan ([' '].intercalate (m.words.filter (· ≠ []))) = .error b := by
      rw [scan, htokens]
      exact ⟨_, rfl⟩
    obtain ⟨b, hscan⟩ := hscan
    simp only [readDraft, hl, takeMark_line, cutTag_line, Kind.ofTag?_tag, hscan,
      Bool.false_eq_true, false_and, if_false] at h
    cases h
  · rw [readDraft_line hl htokens] at h
    exact ⟨ts, rfl, mapError_eq_ok_iff.1 h⟩

/-- A text whose only token has the characters of the text is that token. -/
theorem isToken_of_length_le {t u : Text} (h : tokens u = .ok [t]) (hle : u.length ≤ t.length) :
    t = u := by
  have hsublist := flatten_sublist h
  rw [List.flatten_singleton] at hsublist
  exact hsublist.eq_of_length_le hle

/-- Exceptions that are read again are one token. -/
theorem isToken_throws_of_readThrows {us list : List Text} (hne : m.throws ≠ [])
    (hus : tokens ([' '].intercalate (m.exceptionWords.filter (· ≠ []))) = .ok us)
    (hread : readThrows us = .ok list) (hthrows : m.throws = throwsText list) :
    IsToken m.throws := by
  have hword : tokens "throws".toList = .ok ["throws".toList] ∧ Closed ["throws".toList] :=
    ⟨tokens_of_isPlain (by decide) (by decide), closed_singleton (by decide)⟩
  have happend := tokens_intercalate_append (.cons hword .nil) [m.throws]
  rw [intercalate_filter_singleton] at happend
  rw [exceptionWords, if_neg hne] at hus
  obtain ⟨vs, hvs, hcons⟩ := map_eq_ok_iff.1 (happend.symm.trans hus)
  rcases of_readThrows hread with ⟨rfl, -⟩ | ⟨t, rfl, rfl⟩
  · cases hcons
  · obtain rfl : vs = [t] := (List.cons.inj hcons).2
    obtain rfl : t = m.throws := by
      refine isToken_of_length_le hvs ?_
      rw [hthrows]
      exact (throwsText_subperm t).length_le
    exact hvs

/-- What follows the arguments of a callable is read as its exceptions. -/
theorem exists_readThrows {us : List Text} {d : Draft} (h : m.Shaped)
    (hk : m.kind.isCallable = true)
    (hread : (readTokens m.kind false (m.lead ++ us)).result = .ok d) :
    ∃ list, readThrows us = .ok list ∧ d.member.throws = throwsText list := by
  rcases Kind.isCallable_iff.1 hk with hkind | hkind
  · rw [hkind, readTokens, readConstructor_lead h hkind] at hread
    obtain ⟨list, hlist, rfl⟩ := map_eq_ok_iff.1 hread
    exact ⟨list, hlist, rfl⟩
  · rw [hkind, readTokens, readMethod_lead h hkind] at hread
    obtain ⟨list, hlist, rfl⟩ := map_eq_ok_iff.1 hread
    exact ⟨list, hlist, rfl⟩

/-- What begins with an angle bracket is read as the generics declaration of a class. -/
theorem exists_of_readHeader {us : List Text} {u : Text} {d : Draft} (hvalid : m.Valid)
    (hu : u.head? = some '<')
    (hread : (readHeader (m.modifiers.toList.map Modifier.word ++ u :: us)).result = .ok d) :
    ∃ t, us = [t] ∧ d.member.typeParams = some u ∧ d.member.name = (cutTypeArgs t).1 := by
  have hmods : takeModifiers (m.modifiers.toList.map Modifier.word ++ u :: us) =
      (m.modifiers, u :: us) := by
    refine takeModifiers_toList hvalid.1 fun v hv => ?_
    obtain rfl : u = v := Option.some.inj hv
    exact ofWord?_eq_none_of_mem (c := '<') (by decide) (List.mem_of_head? hu)
  have hgenerics : takeGenerics (u :: us) = (some u, us) := by rw [takeGenerics, if_pos hu]
  rcases us with _ | ⟨t, rest⟩
  · simp only [readHeader, hmods, hgenerics] at hread
    cases hread
  · simp only [readHeader, hmods, hgenerics] at hread
    obtain ⟨_, hend, hread⟩ := Reading.result_bind_eq_ok_iff.1 hread
    obtain rfl := Except.ok.inj hread
    obtain rfl := of_expectEnd hend
    exact ⟨t, rfl, rfl, rfl⟩

/-- The generics declaration and the name of a class that are read again are tokens. -/
theorem isToken_of_readHeader {us : List Text} {d : Draft} {p : Text} (h : m.Shaped)
    (hp : m.typeParams = some p)
    (hus : tokens ([' '].intercalate ([m.typeParams.getD [], m.name].filter (· ≠ []))) = .ok us)
    (hread : (readHeader (m.modifiers.toList.map Modifier.word ++ us)).result = .ok d)
    (hparams : m.typeParams = d.member.typeParams) (hname : m.name = d.member.name) :
    IsToken m.name ∧ IsToken p := by
  have hangle : p.head? = some '<' := h.typeParams p hp
  obtain ⟨c, r, rfl⟩ := List.exists_cons_of_ne_nil (l := p) (by rintro rfl; cases hangle)
  obtain rfl : c = '<' := Option.some.inj hangle
  have htext : ∃ r', [' '].intercalate ([m.typeParams.getD [], m.name].filter (· ≠ [])) =
      '<' :: r' := by
    rw [hp, Option.getD_some, List.filter_cons_of_pos (by simp)]
    rcases [m.name].filter (· ≠ []) with _ | ⟨v, vs⟩
    · exact ⟨r, List.intercalate_singleton⟩
    · exact ⟨_, by rw [List.intercalate_cons_cons, List.cons_append, List.cons_append]⟩
  obtain ⟨r', htext⟩ := htext
  rcases us with _ | ⟨u, us⟩
  · exact absurd rfl (ne_nil_of_tokens_eq_cons (by decide) (htext ▸ hus))
  obtain ⟨t, rfl, hu, ht⟩ := exists_of_readHeader h.valid
    (head?_of_tokens (by decide) (htext ▸ hus)) hread
  obtain rfl : '<' :: r = u := Option.some.inj (hp.symm.trans (hparams.trans hu))
  have hdeclaration : IsToken ('<' :: r) := isToken_of_mem_tokens hus _ List.mem_cons_self
  have hall : ∀ q ∈ m.typeParams, IsToken q := by
    intro q hq
    obtain rfl : '<' :: r = q := Option.some.inj (hp.symm.trans hq)
    exact hdeclaration
  rw [tokens_typeParams_name h hall] at hus
  obtain ⟨vs, hvs, hcons⟩ := map_eq_ok_iff.1 hus
  rw [hp] at hcons
  obtain rfl : vs = [t] := (List.cons.inj hcons).2
  -- the name is a part of `t`, which is a part of the name
  obtain rfl : t = m.name := by
    refine isToken_of_length_le hvs ?_
    rw [hname, ht]
    exact (List.takeWhile_sublist _).length_le
  exact ⟨hvs, hdeclaration⟩

/-- A member whose line is read as it is legible. -/
theorem legible_of_reread (h : m.Shaped) (hread : parseMember m.line = .ok m) : m.Legible := by
  obtain ⟨-, -, hcount⟩ := shaped_of_parseMember hread
  have hcr : m.line.getLast? ≠ some '\r' := getLast?_line_ne (by decide) (hcount _ (by decide))
  have hlf : m.line.getLast? ≠ some '\n' := getLast?_line_ne (by decide) (hcount _ (by decide))
  have hl : entityText m.line = m.line :=
    entityText_eq_self (fun c hc => (head?_line m c hc).1) hcr hlf
  obtain ⟨d, hdraft, hmember⟩ := parseMember_eq_ok_iff.1 hread
  obtain ⟨-, heq⟩ := setModifiers?_eq_ok_iff.1 hmember
  obtain ⟨ts, hts, hd⟩ := exists_tokens_of_readDraft_line hl hdraft
  refine ⟨fun hk => ?header, fun hk hdirect hat => ?mark, fun hne => ?throws, hcr, hlf⟩
  case header =>
    rcases hp : m.typeParams with _ | p
    · have hname : IsToken m.name := h.tokens (.inr hp) _ (by simp [core, hk])
      exact ⟨hname, fun _ hq => by cases hq⟩
    · rw [tokens_words_header hk] at hts
      obtain ⟨us, hus, rfl⟩ := map_eq_ok_iff.1 hts
      rw [hk] at hd
      obtain ⟨hname, hparams⟩ := isToken_of_readHeader h hp hus hd
        (congrArg Member.typeParams heq :) (congrArg Member.name heq :)
      exact ⟨hname, fun q hq => Option.some.inj hq ▸ hparams⟩
  case mark =>
    have href : m.kind ∈ [.superclass, .interface, .permitted] := by rw [hk]; decide
    rw [tokens_words_typeRef h href, hdirect, core_typeRef href, hat] at hts
    obtain rfl := Except.ok.inj hts
    rw [hk] at hd
    have hmarked : d.member.direct = true := by
      cases hd
      rfl
    have hsame : m.direct = d.member.direct := (congrArg Member.direct heq :)
    rw [hdirect, hmarked] at hsame
    cases hsame
  case throws =>
    rcases hk : m.kind.isCallable
    · exact absurd (h.noThrows hk) hne
    · rw [tokens_words_callable h hk] at hts
      obtain ⟨us, hus, rfl⟩ := map_eq_ok_iff.1 hts
      obtain ⟨list, hlist, hthrows⟩ := exists_readThrows h hk hd
      exact isToken_throws_of_readThrows hne hus hlist ((congrArg Member.throws heq).trans hthrows)

end Member

open Member

/-- The line of a member that was read from a line is read as that member exactly if the member is
legible. -/
theorem parseMember_line_iff {raw : Text} {m : Member} (h : parseMember raw = .ok m) :
    parseMember m.line = .ok m ↔ m.Legible := by
  obtain ⟨hshaped, hannots, -⟩ := shaped_of_parseMember h
  refine ⟨legible_of_reread hshaped, fun hlegible => ?_⟩
  rw [parseMember_line_of_legible hshaped hlegible, ← hannots]

/-- A line with exceptions out of order. -/
def unorderedLine : Text :=
  "method public <%0 extends a.B> java.util.List<? super %0> a.C.m(%0[]) throws a.F,a.E".toList

/-- The method that is read from it. -/
def orderedMethod : Member where
  kind := .method
  modifiers := .ofList [.pub]
  declaring := "a.C".toList
  name := "m".toList
  typeName := "java.util.List<? super %0>".toList
  args := "%0[]".toList
  throws := "a.E,a.F".toList
  typeParams := some "<%0 extends a.B>".toList

/-- The line of the method is another one, but it is read as the method. -/
theorem parseMember_line_orderedMethod :
    parseMember unorderedLine = .ok orderedMethod ∧ orderedMethod.Legible ∧
      orderedMethod.line ≠ unorderedLine ∧
      parseMember orderedMethod.line = .ok orderedMethod := by
  have hread : parseMember unorderedLine = .ok orderedMethod := by decide +kernel
  have hlegible : orderedMethod.Legible := by decide +kernel
  exact ⟨hread, hlegible, by decide +kernel, (parseMember_line_iff hread).2 hlegible⟩

/-- What is read from `class a.B<%0>.C`: behind the first angle bracket all counts as type
arguments. -/
def cutGenericName : Member where
  kind := .header
  name := "a.B".toList
  typeParams := some "<%0>.C".toList

/-- The line of the class has a part of the name in front of it, and is not read. -/
theorem parseMember_line_cutGenericName :
    parseMember "class a.B<%0>.C".toList = .ok cutGenericName ∧
      cutGenericName.line = "class <%0>.C a.B".toList ∧
      parseMember cutGenericName.line =
        .error (.faulty (.unexpectedToken "a.B".toList) cutGenericName.line) := by
  refine ⟨by decide +kernel, by decide +kernel, by decide +kernel⟩

end ApiSurface
