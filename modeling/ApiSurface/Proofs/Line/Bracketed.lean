import ApiSurface.Proofs.Line.Shape
import Mathlib.Data.Set.Subsingleton
import Mathlib.Logic.Relation

/-!
# Brackets and what closes them

The grammar of spans (`IsSpan`): between a bracket and its closer stand other spans and characters
that are neither opening brackets nor the closer (`Inside`). The closers that are awaited while a
span is read demand such texts of what follows, one after the other (`Closes`), so that a span is
read exactly where the grammar has one (`span?_eq_some_iff_isSpan`).

A text is cut into tokens in steps that each pass a space, a plain character or a span
(`ReadStep`). Where these steps come to a bracket that begins no span, cutting fails, and nowhere
else (`tokensFrom_eq_error_iff_exists`). Both are put together in `spans_recognised`.
-/

namespace ApiSurface

open Text

namespace Line

/-! ### The grammar of spans -/

/-- What may stand in front of a closer `d`. -/
inductive Inside : (d : Char) → Text → Prop where
  /-- Nothing. -/
  | nil {d : Char} : Inside d []
  /-- A character that neither opens a span nor is the closer. -/
  | char {d c : Char} {t : Text} : c ∉ ['(', '<', d] → Inside d t → Inside d (c :: t)
  /-- A span in parentheses. -/
  | parens {d : Char} {s t : Text} : Inside ')' s → Inside d t → Inside d ('(' :: (s ++ ')' :: t))
  /-- A span in angle brackets. -/
  | angles {d : Char} {s t : Text} : Inside '>' s → Inside d t → Inside d ('<' :: (s ++ '>' :: t))

/-- A span in parentheses. -/
def IsParens (t : Text) : Prop := ∃ s, Inside ')' s ∧ t = '(' :: (s ++ [')'])

/-- A span in angle brackets. -/
def IsAngles (t : Text) : Prop := ∃ s, Inside '>' s ∧ t = '<' :: (s ++ ['>'])

/-- A span. -/
def IsSpan (t : Text) : Prop := IsParens t ∨ IsAngles t

/-! ### Awaited closers -/

/-- What awaited closers, the innermost first, demand of a text that ends with the last of them. -/
inductive Closes : (stack : List Char) → Text → Prop where
  /-- Nothing is awaited at the end. -/
  | nil : Closes [] []
  /-- The innermost closer comes first. -/
  | cons {d : Char} {stack : List Char} {s t : Text} : Inside d s → Closes stack t →
    Closes (d :: stack) (s ++ d :: t)

theorem closer?_eq_some_iff {c d : Char} :
    closer? c = some d ↔ c = '(' ∧ d = ')' ∨ c = '<' ∧ d = '>' := by
  unfold closer?
  split <;> simp_all [eq_comm]

theorem closer?_eq_none_iff {c : Char} : closer? c = none ↔ c ∉ ['(', '<'] := by
  unfold closer?
  split <;> simp_all

theorem exists_closer?_iff {c : Char} : (∃ d, closer? c = some d) ↔ c ∈ ['(', '<'] := by
  rw [← Option.ne_none_iff_exists', ne_eq, closer?_eq_none_iff, not_not]

theorem Inside.span {c d e : Char} {s t : Text} (hc : closer? c = some e) (hs : Inside e s)
    (ht : Inside d t) : Inside d (c :: (s ++ e :: t)) := by
  rcases closer?_eq_some_iff.1 hc with ⟨rfl, rfl⟩ | ⟨rfl, rfl⟩
  · exact .parens hs ht
  · exact .angles hs ht

/-- What is cut off meets the demands of the closers. -/
theorem closes_of_cutClosed? {stack : List Char} {t a b : Text}
    (h : cutClosed? stack t = some (a, b)) : Closes stack a := by
  induction t generalizing stack a with
  | nil =>
    cases stack with
    | nil =>
      cases h
      exact .nil
    | cons d stack => cases h
  | cons c r ih =>
    cases stack with
    | nil =>
      cases h
      exact .nil
    | cons d stack =>
      obtain ⟨⟨a', b'⟩, hcut, heq⟩ := Option.map_eq_some_iff.1 h
      cases heq
      rw [awaited] at hcut
      split at hcut
      next hc =>
        subst hc
        exact .cons .nil (ih hcut)
      next hc =>
        rcases hcloser : closer? c with _ | e
        · rw [hcloser] at hcut
          cases ih hcut with
          | cons hinside hstack =>
            refine .cons (.char ?_ hinside) hstack
            simpa [hc] using closer?_eq_none_iff.1 hcloser
        · rw [hcloser] at hcut
          -- The closer of `c` comes first, and `d` is the next one in what is left.
          cases ih hcut with
          | @cons _ _ s t hspan hrest =>
            cases hrest with
            | @cons _ _ s' t' hinside hstack =>
              have hclosed := Closes.cons (.span hcloser hspan hinside) hstack
              simpa using hclosed

/-- Behind an opening bracket its closer is awaited first. -/
theorem cutClosed?_open {c d e : Char} (hc : closer? c = some e) (hne : c ≠ d) (stack : List Char)
    (r : Text) :
    cutClosed? (d :: stack) (c :: r) =
      (cutClosed? (e :: d :: stack) r).map fun p => (c :: p.1, p.2) := by
  rw [cutClosed?, awaited, if_neg hne, hc]
  rfl

/-- The text in front of a closer is passed over. -/
theorem cutClosed?_append_of_inside {d : Char} {s : Text} (h : Inside d s) (hd : d ∉ ['(', '<'])
    (stack : List Char) (u : Text) :
    cutClosed? (d :: stack) (s ++ d :: u) =
      (cutClosed? stack u).map fun p => (s ++ d :: p.1, p.2) := by
  induction h generalizing stack u with
  | nil => rw [List.nil_append, cutClosed?, awaited, if_pos rfl]; rfl
  | @char d c t hc _ ih =>
    have hne : c ≠ d := by
      rintro rfl
      simp at hc
    have hnone : closer? c = none := closer?_eq_none_iff.2 (by simp_all)
    rw [List.cons_append, cutClosed?, awaited, if_neg hne, hnone, Option.toList_none,
      List.nil_append, ih hd, Option.map_map]
    rfl
  | @parens d s t _ _ ihs iht =>
    rw [List.cons_append, List.append_assoc, List.cons_append,
      cutClosed?_open rfl (fun h => hd (by simp [← h])), ihs (by decide), iht hd]
    simp [Function.comp_def]
  | @angles d s t _ _ ihs iht =>
    rw [List.cons_append, List.append_assoc, List.cons_append,
      cutClosed?_open rfl (fun h => hd (by simp [← h])), ihs (by decide), iht hd]
    simp [Function.comp_def]

theorem isSpan_iff {t : Text} :
    IsSpan t ↔ ∃ c d s, closer? c = some d ∧ Inside d s ∧ t = c :: (s ++ [d]) := by
  constructor
  · rintro (⟨s, hs, rfl⟩ | ⟨s, hs, rfl⟩)
    · exact ⟨'(', ')', s, rfl, hs, rfl⟩
    · exact ⟨'<', '>', s, rfl, hs, rfl⟩
  · rintro ⟨c, d, s, hc, hs, rfl⟩
    rcases closer?_eq_some_iff.1 hc with ⟨rfl, rfl⟩ | ⟨rfl, rfl⟩
    · exact .inl ⟨s, hs, rfl⟩
    · exact .inr ⟨s, hs, rfl⟩

theorem IsSpan.ne_nil {t : Text} (h : IsSpan t) : t ≠ [] := by
  obtain ⟨c, d, s, -, -, rfl⟩ := isSpan_iff.1 h
  exact List.cons_ne_nil c _

/-- A span is cut off exactly where a text begins with one. -/
theorem span?_eq_some_iff_isSpan {t a b : Text} :
    span? t = some (a, b) ↔ t = a ++ b ∧ IsSpan a := by
  constructor
  · intro h
    refine ⟨(eq_of_span?_eq_some h).1, ?_⟩
    obtain ⟨c, d, r, a', rfl, hd, hcut, rfl⟩ := span?_eq_some_iff.1 h
    cases closes_of_cutClosed? hcut with
    | cons hinside hnil =>
      cases hnil
      exact isSpan_iff.2 ⟨c, d, _, hd, hinside, rfl⟩
  · rintro ⟨rfl, hspan⟩
    obtain ⟨c, d, s, hc, hs, rfl⟩ := isSpan_iff.1 hspan
    have hd : d ∉ ['(', '<'] := by
      rcases closer?_eq_some_iff.1 hc with ⟨-, rfl⟩ | ⟨-, rfl⟩ <;> decide
    have hcut : cutClosed? [d] (s ++ [d] ++ b) = some (s ++ [d], b) := by
      rw [List.append_assoc, List.singleton_append, cutClosed?_append_of_inside hs hd,
        cutClosed?_nil]
      rfl
    exact span?_eq_some_iff.2 ⟨c, d, s ++ [d] ++ b, s ++ [d], rfl, hc, hcut, rfl⟩

theorem span?_eq_none_iff {t : Text} : span? t = none ↔ ∀ a, a <+: t → ¬ IsSpan a := by
  rw [Option.eq_none_iff_forall_ne_some]
  constructor
  · rintro h a ⟨b, rfl⟩ hspan
    exact h (a, b) (span?_eq_some_iff_isSpan.2 ⟨rfl, hspan⟩)
  · rintro h ⟨a, b⟩ hsome
    obtain ⟨rfl, hspan⟩ := span?_eq_some_iff_isSpan.1 hsome
    exact h a (List.prefix_append a b) hspan

/-- A text does not begin with two spans. -/
theorem subsingleton_setOf_isSpan (t : Text) : {a | a <+: t ∧ IsSpan a}.Subsingleton := by
  rintro a ⟨⟨b, hab⟩, ha⟩ a' ⟨⟨b', hab'⟩, ha'⟩
  have h : span? t = some (a, b) := span?_eq_some_iff_isSpan.2 ⟨hab.symm, ha⟩
  have h' : span? t = some (a', b') := span?_eq_some_iff_isSpan.2 ⟨hab'.symm, ha'⟩
  rw [h] at h'
  exact (Prod.mk.inj (Option.some.inj h')).1

/-- A token fails at its first bracket exactly if that begins no span. -/
theorem takeToken_eq_error_iff {c : Char} {r : Text} (hc : c ∈ ['(', '<']) :
    takeToken c r = .error (c :: r) ↔ ∀ a, a <+: c :: r → ¬ IsSpan a := by
  rw [← span?_eq_none_iff]
  refine ⟨fun herror => ?_, takeToken_of_span?_eq_none hc⟩
  rw [Option.eq_none_iff_forall_ne_some]
  rintro ⟨a, b⟩ hsome
  rw [takeToken_span hsome] at herror
  cases herror

/-! ### Steps of cutting into tokens -/

/-- Where the next character of a text stands. -/
inductive Position where
  /-- Between tokens. -/
  | between
  /-- In a plain token. -/
  | within

/-- What is passed in one step, from a place in a text to another. A span in parentheses ends a
plain token, and a span in angle brackets goes on with it. -/
inductive ReadStep : Position × Text → Position × Text → Prop where
  /-- A space ends a token. -/
  | space {p : Position} {r : Text} : ReadStep (p, ' ' :: r) (.between, r)
  /-- Any other character is plain, but an equals sign between tokens reaches to the end. -/
  | plain {p : Position} {c : Char} {r : Text} : c ∉ [' ', '(', '<'] → (p = .between → c ≠ '=') →
    ReadStep (p, c :: r) (.within, r)
  /-- A span in parentheses is a token. -/
  | parens {p : Position} {a r : Text} : IsParens a → ReadStep (p, a ++ r) (.between, r)
  /-- A span in angle brackets is a token or goes on with a plain one. -/
  | angles {p : Position} {a r : Text} : IsAngles a → ReadStep (p, a ++ r) (p, r)

/-- The tokens of what is left at a place. -/
def tokensFrom : Position × Text → Except Text (List Text)
  | (.between, t) => tokens t
  | (.within, t) => takePlain t >>= fun p => tokens p.2

theorem takeToken_plain {c : Char} (hc : c ∉ [' ', '(', '<']) (heq : c ≠ '=') (r : Text) :
    takeToken c r = (takePlain r).map fun p => (c :: p.1, p.2) := by
  have hcloser : closer? c = none := closer?_eq_none_iff.2 (by simp_all)
  rw [takeToken, if_neg heq, hcloser]
  rfl

theorem ne_space_of_open {c : Char} (hc : c ∈ ['(', '<']) : c ≠ ' ' := by
  rintro rfl
  exact absurd hc (by decide)

/-- A text fails in its first token or behind it. -/
theorem tokens_cons_eq_error_iff {c : Char} (hc : c ≠ ' ') {r u : Text} :
    tokens (c :: r) = .error u ↔ (takeToken c r >>= fun p => tokens p.2) = .error u := by
  rw [tokens, if_neg hc]
  split
  next e h => rw [h]; rfl
  next token rest h => rw [h]; exact map_eq_error_iff

theorem tokens_span_eq_error_iff {a r u : Text} (ha : IsSpan a) :
    tokens (a ++ r) = .error u ↔ tokens r = .error u := by
  have hspan : span? (a ++ r) = some (a, r) := span?_eq_some_iff_isSpan.2 ⟨rfl, ha⟩
  obtain ⟨c, d, s, hc, -, rfl⟩ := isSpan_iff.1 ha
  rw [List.cons_append] at hspan ⊢
  rw [tokens_cons_eq_error_iff (ne_space_of_open (exists_closer?_iff.1 ⟨d, hc⟩)),
    takeToken_span hspan]
  rfl

/-- What a plain token starts with does not matter for what follows the token. -/
theorem bind_map_append_eq_iff (a : Text) {x : Except Text (Text × Text)}
    {y : Except Text (List Text)} :
    ((x.map fun p => (a ++ p.1, p.2)) >>= fun p => tokens p.2) = y ↔
      (x >>= fun p => tokens p.2) = y := by
  cases x <;> exact Iff.rfl

/-- Cutting into tokens fails before a step exactly if it fails after it, at the same bracket. -/
theorem tokensFrom_eq_error_iff {s s' : Position × Text} (h : ReadStep s s') (u : Text) :
    tokensFrom s = .error u ↔ tokensFrom s' = .error u := by
  cases h with
  | @space p r =>
    cases p with
    | between => rw [tokensFrom, tokensFrom, tokens_space]
    | within =>
      rw [tokensFrom, tokensFrom, takePlain_of_end (.inl rfl), ← tokens_space r]
      rfl
  | @plain p c r hc heq =>
    cases p with
    | between =>
      have hspace : c ≠ ' ' := fun h => hc (by simp [h])
      rw [tokensFrom, tokens_cons_eq_error_iff hspace, takeToken_plain hc (heq rfl)]
      exact bind_map_append_eq_iff [c]
    | within =>
      rw [tokensFrom, takePlain_plain hc]
      exact bind_map_append_eq_iff [c]
  | @parens p a r ha =>
    cases p with
    | between => exact tokens_span_eq_error_iff (.inl ha)
    | within =>
      rw [tokensFrom, tokensFrom, ← tokens_span_eq_error_iff (.inl ha)]
      obtain ⟨s, -, rfl⟩ := ha
      rw [List.cons_append, takePlain_of_end (.inr rfl)]
      rfl
  | @angles p a r ha =>
    cases p with
    | between => exact tokens_span_eq_error_iff (.inr ha)
    | within =>
      have hspan : span? (a ++ r) = some (a, r) := span?_eq_some_iff_isSpan.2 ⟨rfl, .inr ha⟩
      obtain ⟨s, -, rfl⟩ := ha
      rw [List.cons_append] at hspan ⊢
      rw [tokensFrom, takePlain_span hspan]
      exact bind_map_append_eq_iff ('<' :: (s ++ ['>']))

/-- A step leaves the end of what was left before it, and less of it. -/
theorem ReadStep.exists_append {s s' : Position × Text} (h : ReadStep s s') :
    ∃ a, a ≠ [] ∧ s.2 = a ++ s'.2 := by
  cases h with
  | @space p r => exact ⟨[' '], List.cons_ne_nil _ _, rfl⟩
  | @plain p c r => exact ⟨[c], List.cons_ne_nil _ _, rfl⟩
  | @parens p a r ha => exact ⟨a, IsSpan.ne_nil (.inl ha), rfl⟩
  | @angles p a r ha => exact ⟨a, IsSpan.ne_nil (.inr ha), rfl⟩

/-- Where no step can be made, nothing is left, the last token reaches to the end of the line, or a
bracket opens that begins no span. -/
theorem stuck_cases {p : Position} {t : Text} (h : ∀ s, ¬ ReadStep (p, t) s) :
    t = [] ∨ (p = .between ∧ ∃ r, t = '=' :: r) ∨
      ∃ c r, t = c :: r ∧ c ∈ ['(', '<'] ∧ span? t = none := by
  rcases t with _ | ⟨c, r⟩
  · exact .inl rfl
  by_cases hc : c ∈ ['(', '<']
  · refine .inr (.inr ⟨c, r, rfl, hc, span?_eq_none_iff.2 ?_⟩)
    rintro a ⟨b, hab⟩ (ha | ha)
    · exact h (.between, b) (hab ▸ .parens ha)
    · exact h (p, b) (hab ▸ .angles ha)
  · have hspace : c ≠ ' ' := by
      rintro rfl
      exact h _ .space
    refine .inr (.inl ?_)
    by_contra hnot
    refine h _ (.plain ?_ fun hp heq => hnot ⟨hp, r, by rw [heq]⟩)
    rw [List.mem_cons, not_or]
    exact ⟨hspace, hc⟩

theorem tokensFrom_nil (p : Position) : tokensFrom (p, []) = .ok [] := by
  cases p with
  | between => exact tokens_nil
  | within =>
    rw [tokensFrom, takePlain]
    exact tokens_nil

/-- A bracket that begins no span cannot be passed. -/
theorem tokensFrom_of_span?_eq_none {p : Position} {c : Char} {r : Text} (hc : c ∈ ['(', '<'])
    (h : span? (c :: r) = none) : tokensFrom (p, c :: r) = .error (c :: r) := by
  have htokens : tokens (c :: r) = .error (c :: r) := by
    rw [tokens_cons_eq_error_iff (ne_space_of_open hc), takeToken_of_span?_eq_none hc h]
    rfl
  cases p with
  | between => exact htokens
  | within =>
    rw [tokensFrom]
    rcases List.mem_pair.1 hc with rfl | rfl
    · rw [takePlain_of_end (.inr rfl)]
      exact htokens
    · rw [takePlain_of_span?_eq_none h]
      rfl

/-! ### Runs of steps -/

/-- Steps come to a place where no step can be made. -/
theorem exists_stuck (s : Position × Text) :
    ∃ s', Relation.ReflTransGen ReadStep s s' ∧ ∀ s'', ¬ ReadStep s' s'' := by
  induction hn : s.2.length using Nat.strong_induction_on generalizing s with
  | _ n ih =>
    subst hn
    by_cases hstep : ∃ s', ReadStep s s'
    · obtain ⟨s', hs'⟩ := hstep
      obtain ⟨a, ha, heq⟩ := hs'.exists_append
      have hlt : s'.2.length < s.2.length := by
        rw [heq, List.length_append]
        exact Nat.lt_add_of_pos_left (List.length_pos_iff.2 ha)
      obtain ⟨stuck, hreach, hstuck⟩ := ih _ hlt s' rfl
      exact ⟨stuck, hreach.head hs', hstuck⟩
    · exact ⟨s, .refl, not_exists.1 hstep⟩

/-- Cutting into tokens fails before any number of steps exactly if it fails after them. -/
theorem tokensFrom_eq_error_iff_of_reach {s s' : Position × Text}
    (h : Relation.ReflTransGen ReadStep s s') (u : Text) :
    tokensFrom s = .error u ↔ tokensFrom s' = .error u := by
  induction h with
  | refl => exact Iff.rfl
  | tail _ hstep ih => exact ih.trans (tokensFrom_eq_error_iff hstep u)

/-- Where no step can be made, cutting into tokens fails exactly at a bracket. -/
theorem exists_of_stuck {s : Position × Text} (hstuck : ∀ s', ¬ ReadStep s s') {u : Text}
    (h : tokensFrom s = .error u) :
    ∃ p c r, s = (p, u) ∧ u = c :: r ∧ c ∈ ['(', '<'] ∧ span? u = none := by
  obtain ⟨p, t⟩ := s
  rcases stuck_cases hstuck with rfl | ⟨rfl, r, rfl⟩ | ⟨c, r, rfl, hc, hnone⟩
  · rw [tokensFrom_nil] at h
    cases h
  · rw [tokensFrom, tokens_equals] at h
    cases h
  · rw [tokensFrom_of_span?_eq_none hc hnone] at h
    obtain rfl := Except.error.inj h
    exact ⟨p, c, r, rfl, rfl, hc, hnone⟩

/-- Cutting into tokens fails exactly where steps come to a bracket that begins no span. -/
theorem tokensFrom_eq_error_iff_exists {s : Position × Text} {u : Text} :
    tokensFrom s = .error u ↔ ∃ p c r, u = c :: r ∧ c ∈ ['(', '<'] ∧ span? u = none ∧
      Relation.ReflTransGen ReadStep s (p, u) := by
  constructor
  · intro h
    obtain ⟨s', hreach, hstuck⟩ := exists_stuck s
    have h' := (tokensFrom_eq_error_iff_of_reach hreach u).1 h
    obtain ⟨p, c, r, rfl, hu, hc, hnone⟩ := exists_of_stuck hstuck h'
    exact ⟨p, c, r, hu, hc, hnone, hreach⟩
  · rintro ⟨p, c, r, rfl, hc, hnone, hreach⟩
    exact (tokensFrom_eq_error_iff_of_reach hreach _).2 (tokensFrom_of_span?_eq_none hc hnone)

theorem exists_append_of_reach {s s' : Position × Text} (h : Relation.ReflTransGen ReadStep s s') :
    ∃ a, s.2 = a ++ s'.2 := by
  induction h with
  | refl => exact ⟨[], rfl⟩
  | tail _ hstep ih =>
    obtain ⟨a, ha⟩ := ih
    obtain ⟨b, -, hb⟩ := hstep.exists_append
    exact ⟨a ++ b, by rw [ha, hb, List.append_assoc]⟩

/-- A text is not cut into tokens exactly if the steps come to a bracket that begins no span, and
what is reported is that bracket and its column. -/
theorem scan_eq_error_iff {t : Text} {e : Unclosed} :
    scan t = .error e ↔ ∃ before c rest p, t = before ++ c :: rest ∧ c ∈ ['(', '<'] ∧
      Relation.ReflTransGen ReadStep (.between, t) (p, c :: rest) ∧
      (∀ a, a <+: c :: rest → ¬ IsSpan a) ∧ e = ⟨c, utf8Size before + 1⟩ := by
  have hcolumn : ∀ before rest : Text,
      utf8Size (before ++ rest) - utf8Size rest + 1 = utf8Size before + 1 := fun before rest => by
    rw [utf8Size_append, Nat.add_sub_cancel]
  rw [scan, mapError_eq_error_iff]
  constructor
  · rintro ⟨u, hu, rfl⟩
    obtain ⟨p, c, rest, rfl, hc, hnone, hreach⟩ :=
      (tokensFrom_eq_error_iff_exists (s := (.between, t))).1 hu
    obtain ⟨before, rfl⟩ := exists_append_of_reach hreach
    refine ⟨before, c, rest, p, rfl, hc, hreach, span?_eq_none_iff.1 hnone, ?_⟩
    rw [hcolumn]
    rfl
  · rintro ⟨before, c, rest, p, rfl, hc, hreach, hnone, rfl⟩
    refine ⟨c :: rest, tokensFrom_eq_error_iff_exists.2
      ⟨p, c, rest, rfl, hc, span?_eq_none_iff.2 hnone, hreach⟩, ?_⟩
    rw [hcolumn]
    rfl

/-- At every place of a text, where `t` is the text from there on: the span that is cut off is the
one that the grammar has there, and the grammar has no other one. Where it has none, an opening
bracket fails with the text from that bracket on. A whole text is not cut into tokens exactly if the
steps come to a bracket that begins no span, and what is reported is that bracket and its column. -/
theorem spans_recognised (t : Text) :
    (∀ a b, span? t = some (a, b) ↔ t = a ++ b ∧ IsSpan a) ∧
      {a | a <+: t ∧ IsSpan a}.Subsingleton ∧
      (∀ c r, t = c :: r → c ∈ ['(', '<'] →
        (takeToken c r = .error t ↔ ∀ a, a <+: t → ¬ IsSpan a)) ∧
      ∀ e, scan t = .error e ↔ ∃ before c rest p, t = before ++ c :: rest ∧ c ∈ ['(', '<'] ∧
        Relation.ReflTransGen ReadStep (.between, t) (p, c :: rest) ∧
        (∀ a, a <+: c :: rest → ¬ IsSpan a) ∧ e = ⟨c, utf8Size before + 1⟩ := by
  refine ⟨fun a b => span?_eq_some_iff_isSpan, subsingleton_setOf_isSpan t, ?_,
    fun e => scan_eq_error_iff⟩
  rintro c r rfl hc
  exact takeToken_eq_error_iff hc

/-- A closer of another kind than the one awaited is an ordinary character. -/
theorem spans_recognised_mixed :
    IsSpan "(a<)>)".toList ∧
      ∀ a, a <+: "(a<)>)>) <b".toList → IsSpan a → a = "(a<)>)".toList := by
  have hspan : span? "(a<)>)>) <b".toList = some ("(a<)>)".toList, ">) <b".toList) := by decide
  have hrecognised := spans_recognised "(a<)>)>) <b".toList
  have hderived := (hrecognised.1 _ _).1 hspan
  exact ⟨hderived.2, fun a hstart ha =>
    hrecognised.2.1 ⟨hstart, ha⟩ ⟨⟨_, hderived.1.symm⟩, hderived.2⟩⟩

/-- The second bracket is not closed; there are ten bytes in front of it. -/
example : scan "é (a<)>) <b".toList = .error ⟨'<', 11⟩ := by decide +kernel

end Line

end ApiSurface
