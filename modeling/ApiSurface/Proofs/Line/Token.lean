import ApiSurface.Line.Token
import Mathlib.Data.List.Forall2

/-!
# Tokens of joined words

Words with spaces between them have the tokens of the words, one after the other
(`tokens_intercalate_append`), as long as only the last word has a token that starts with an equals
sign.
-/

namespace ApiSurface

theorem mapError_eq_ok_iff {ε ε' α : Type _} {f : ε → ε'} {x : Except ε α} {a : α} :
    x.mapError f = .ok a ↔ x = .ok a := by
  cases x <;> simp [Except.mapError]

theorem mapError_eq_error_iff {ε ε' α : Type _} {f : ε → ε'} {x : Except ε α} {e' : ε'} :
    x.mapError f = .error e' ↔ ∃ e, x = .error e ∧ f e = e' := by
  cases x <;> simp [Except.mapError]

namespace Line

theorem map_eq_error_iff {ε α β : Type _} {f : α → β} {x : Except ε α} {e : ε} :
    x.map f = .error e ↔ x = .error e := by
  cases x <;> simp [Except.map]

/-! ### Text behind a token -/

theorem cutClosed?_append {stack : List Char} {t a b : Text} (h : cutClosed? stack t = some (a, b))
    (u : Text) : cutClosed? stack (t ++ u) = some (a, b ++ u) := by
  induction t generalizing stack a with
  | nil =>
    cases stack with
    | nil =>
      cases h
      exact cutClosed?_nil u
    | cons top stack => cases h
  | cons c r ih =>
    cases stack with
    | nil =>
      cases h
      rfl
    | cons top stack =>
      obtain ⟨⟨a', b'⟩, hcut, heq⟩ := Option.map_eq_some_iff.1 h
      cases heq
      rw [List.cons_append, cutClosed?, ih hcut]
      rfl

theorem span?_append {t a b : Text} (h : span? t = some (a, b)) (u : Text) :
    span? (t ++ u) = some (a, b ++ u) := by
  obtain ⟨c, d, r, a', rfl, hd, hcut, rfl⟩ := span?_eq_some_iff.1 h
  exact span?_eq_some_iff.2 ⟨c, d, r ++ u, a', rfl, hd, cutClosed?_append hcut u, rfl⟩

/-- A space or a parenthesis ends a plain token. -/
theorem takePlain_of_end {c : Char} (hc : c = ' ' ∨ c = '(') (r : Text) :
    takePlain (c :: r) = .ok ([], c :: r) := by
  rw [takePlain, if_pos hc]

theorem takePlain_plain {c : Char} (hc : c ∉ [' ', '(', '<']) (r : Text) :
    takePlain (c :: r) = (takePlain r).map fun p => (c :: p.1, p.2) := by
  simp only [List.mem_cons, List.not_mem_nil, or_false, not_or] at hc
  rw [takePlain, if_neg (by simp [hc]), if_neg hc.2.2]

/-- A span in angle brackets belongs to a plain token. -/
theorem takePlain_span {r a b : Text} (h : span? ('<' :: r) = some (a, b)) :
    takePlain ('<' :: r) = (takePlain b).map fun p => (a ++ p.1, p.2) := by
  rw [takePlain, if_neg (by decide), if_pos rfl]
  split
  next hnone => simp [h] at hnone
  next hsome =>
    rw [h] at hsome
    cases hsome
    rfl

theorem takePlain_of_span?_eq_none {r : Text} (h : span? ('<' :: r) = none) :
    takePlain ('<' :: r) = .error ('<' :: r) := by
  rw [takePlain, if_neg (by decide), if_pos rfl]
  split
  next => rfl
  next hsome => simp [h] at hsome

/-- Between tokens a bracket begins a token of its own. -/
theorem takeToken_span {c : Char} {r a b : Text} (h : span? (c :: r) = some (a, b)) :
    takeToken c r = .ok (a, b) := by
  obtain ⟨_, d, _, _, hcons, hcloser, -⟩ := span?_eq_some_iff.1 h
  obtain ⟨rfl, rfl⟩ := List.cons.inj hcons
  have hc : c ≠ '=' := by
    rintro rfl
    cases hcloser
  rw [takeToken, if_neg hc, if_pos (by rw [hcloser]; rfl), h]

theorem takeToken_of_span?_eq_none {c : Char} (hc : c ∈ ['(', '<']) {r : Text}
    (h : span? (c :: r) = none) : takeToken c r = .error (c :: r) := by
  have hcloser : c ≠ '=' ∧ (closer? c).isSome = true := by
    rcases List.mem_pair.1 hc with rfl | rfl <;> decide
  rw [takeToken, if_neg hcloser.1, if_pos hcloser.2, h]

/-- A plain token ends in front of a space or a parenthesis. -/
theorem takePlain_append {t a b : Text} (h : takePlain t = .ok (a, b)) {d : Char}
    (hd : d = ' ' ∨ d = '(') (u : Text) :
    takePlain (t ++ d :: u) = .ok (a, b ++ d :: u) := by
  fun_induction takePlain t generalizing a with
  | case1 =>
    cases h
    rw [List.nil_append, takePlain, if_pos hd]
  | case2 c r hc =>
    cases h
    rw [List.cons_append, takePlain, if_pos hc]
  | case3 => cases h
  | case4 r inside rest hc hs ih =>
    obtain ⟨⟨a', b'⟩, hp, heq⟩ := map_eq_ok_iff.1 h
    cases heq
    have hspan := span?_append hs (d :: u)
    rw [List.cons_append] at hspan ⊢
    rw [takePlain_span hspan, ih hp]
    rfl
  | case5 c r hc hlt ih =>
    obtain ⟨⟨a', b'⟩, hp, heq⟩ := map_eq_ok_iff.1 h
    cases heq
    rw [List.cons_append, takePlain, if_neg hc, if_neg hlt, ih hp]
    rfl

theorem takeToken_append {c : Char} {r a b : Text} (hc : c ≠ '=')
    (h : takeToken c r = .ok (a, b)) {d : Char} (hd : d = ' ' ∨ d = '(') (u : Text) :
    takeToken c (r ++ d :: u) = .ok (a, b ++ d :: u) := by
  unfold takeToken at h ⊢
  rw [if_neg hc] at h ⊢
  split at h
  next hcloser =>
    rw [if_pos hcloser]
    split at h
    next => cases h
    next hs =>
      cases h
      rw [← List.cons_append, span?_append hs]
  next hcloser =>
    obtain ⟨⟨a', b'⟩, hp, heq⟩ := map_eq_ok_iff.1 h
    cases heq
    rw [if_neg hcloser, takePlain_append hp hd]
    rfl

/-! ### Tokens of joined texts -/

/-- No token of a list reaches to the end of the line. -/
def Closed (l : List Text) : Prop := ∀ t ∈ l, t.head? ≠ some '='

theorem closed_nil : Closed [] := by
  intro t ht
  cases ht

theorem closed_singleton {t : Text} (h : t.head? ≠ some '=') : Closed [t] := by
  intro u hu
  rwa [List.mem_singleton.1 hu]

@[simp] theorem tokens_nil : tokens [] = .ok [] := by rw [tokens]

@[simp] theorem tokens_space (t : Text) : tokens (' ' :: t) = tokens t := by
  rw [tokens, if_pos rfl]

theorem tokens_cons {c : Char} {r token rest : Text} (hc : c ≠ ' ')
    (h : takeToken c r = .ok (token, rest)) :
    tokens (c :: r) = (tokens rest).map (token :: ·) := by
  rw [tokens, if_neg hc]
  split
  next herror =>
    rw [h] at herror
    cases herror
  next hok =>
    rw [h] at hok
    cases hok
    rfl

/-- A space or an opening parenthesis separates the tokens in front of it from those after. -/
theorem tokens_append {t : Text} {l : List Text} (h : tokens t = .ok l) (hl : Closed l) {d : Char}
    (hd : d = ' ' ∨ d = '(') (u : Text) :
    tokens (t ++ d :: u) = (tokens (d :: u)).map (l ++ ·) := by
  fun_induction tokens t generalizing l with
  | case1 =>
    cases h
    rw [List.nil_append]
    cases tokens (d :: u) <;> rfl
  | case2 r ih =>
    rw [List.cons_append, tokens_space]
    exact ih h hl
  | case3 => cases h
  | case4 c r hc token rest htoken ih =>
    obtain ⟨l', hrest, rfl⟩ := map_eq_ok_iff.1 h
    have hne : c ≠ '=' := by
      obtain ⟨heq, hne⟩ := eq_of_takeToken_eq_ok htoken
      obtain ⟨c', token', rfl⟩ := List.exists_cons_of_ne_nil hne
      rw [List.cons_append, List.cons.injEq] at heq
      rintro rfl
      exact hl _ List.mem_cons_self (by rw [List.head?_cons, heq.1])
    rw [List.cons_append, tokens_cons hc (takeToken_append hne htoken hd u),
      ih hrest fun t ht => hl t (List.mem_cons_of_mem _ ht)]
    cases tokens (d :: u) <;> rfl

/-- Words in front of others have their own tokens in front of those of the others, if none of them
reaches to the end of the line; empty words, which a line leaves out, have none. -/
theorem tokens_intercalate_append {ws : List Text} {ls : List (List Text)}
    (h : List.Forall₂ (fun w l => tokens w = .ok l ∧ Closed l) ws ls) (vs : List Text) :
    tokens ([' '].intercalate ((ws ++ vs).filter (· ≠ []))) =
      (tokens ([' '].intercalate (vs.filter (· ≠ [])))).map (ls.flatten ++ ·) := by
  induction h with
  | nil =>
    simp only [List.nil_append, List.flatten_nil]
    cases tokens ([' '].intercalate (vs.filter (· ≠ []))) <;> rfl
  | @cons w l ws ls hw _ ih =>
    obtain ⟨htokens, hclosed⟩ := hw
    by_cases hnil : w = []
    · subst hnil
      rw [tokens_nil] at htokens
      cases htokens
      simpa using ih
    · rw [List.cons_append, List.filter_cons_of_pos (by simpa using hnil), List.flatten_cons]
      rcases hfilter : (ws ++ vs).filter (· ≠ []) with _ | ⟨v, us⟩
      · rw [hfilter, List.intercalate_nil, tokens_nil] at ih
        obtain ⟨l', hl', hflat⟩ := map_eq_ok_iff.1 ih.symm
        rw [List.intercalate_singleton, htokens, hl']
        change Except.ok l = Except.ok (l ++ ls.flatten ++ l')
        rw [List.append_assoc, hflat, List.append_nil]
      · rw [List.intercalate_cons_cons, List.append_assoc, List.singleton_append,
          tokens_append htokens hclosed (.inl rfl), tokens_space, ← hfilter, ih]
        cases tokens ([' '].intercalate (vs.filter (· ≠ []))) with
        | error _ => rfl
        | ok l' => exact congrArg Except.ok (List.append_assoc _ _ _).symm

theorem intercalate_filter_singleton (w : Text) :
    [' '].intercalate ([w].filter (· ≠ [])) = w := by
  by_cases h : w = []
  · subst h
    rfl
  · simp [h]

/-! ### Single tokens -/

/-- Characters that neither end a plain token nor open a span in it. -/
def IsPlain (t : Text) : Prop := ∀ c ∈ t, c ≠ ' ' ∧ c ≠ '(' ∧ c ≠ '<'

instance (t : Text) : Decidable (IsPlain t) := List.decidableBAll _ t

theorem takePlain_of_isPlain {t : Text} (h : IsPlain t) : takePlain t = .ok (t, []) := by
  induction t with
  | nil => rw [takePlain]
  | cons c r ih =>
    obtain ⟨hspace, hparen, hangle⟩ := h c List.mem_cons_self
    rw [takePlain, if_neg (by simp [hspace, hparen]), if_neg hangle,
      ih fun d hd => h d (List.mem_cons_of_mem _ hd)]
    rfl

/-- A text without spaces and opening brackets is one token. -/
theorem tokens_of_isPlain {t : Text} (hne : t ≠ []) (h : IsPlain t) : tokens t = .ok [t] := by
  obtain ⟨c, r, rfl⟩ := List.exists_cons_of_ne_nil hne
  obtain ⟨hspace, hparen, hangle⟩ := h c List.mem_cons_self
  have htoken : takeToken c r = .ok (c :: r, []) := by
    have hcloser : (closer? c).isSome = false := by
      unfold closer?
      split <;> simp_all
    have hplain := takePlain_of_isPlain fun d hd => h d (List.mem_cons_of_mem _ hd)
    by_cases hc : c = '='
    · rw [takeToken, if_pos hc]
    · rw [takeToken, if_neg hc, hcloser, hplain]
      rfl
  rw [tokens_cons hspace htoken, tokens_nil]
  rfl

/-- What starts with an equals sign is one token, whatever follows. -/
theorem tokens_equals (t : Text) : tokens ('=' :: t) = .ok ['=' :: t] := by
  have htoken : takeToken '=' t = .ok ('=' :: t, []) := by rw [takeToken, if_pos rfl]
  rw [tokens_cons (by decide) htoken, tokens_nil]
  rfl

end Line

end ApiSurface
