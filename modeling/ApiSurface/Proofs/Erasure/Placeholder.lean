import ApiSurface.Erasure.Member
import ApiSurface.Proofs.Erasure.Params

/-!
# Expanded placeholders

What is true of a text whose placeholders are filled in follows from its pieces and from what the
placeholders are erased to: `mem_value_fill_iff` gives its characters, `pieces_append` and
`value_expand_append` the pieces of a text that is put together. `expand_eq_fill` is the one step
in which bounds that are placeholders themselves are followed.
-/

namespace ApiSurface

open Text

/-! ### Pieces -/

theorem mem_placeholders_iff {t p : Text} : p ∈ placeholders t ↔ .placeholder p ∈ pieces t := by
  rw [placeholders, List.mem_filterMap]
  constructor
  · rintro ⟨piece, hmem, heq⟩
    cases piece with
    | plain c => cases heq
    | placeholder q =>
      cases heq
      exact hmem
  · exact fun h => ⟨_, h, rfl⟩

/-- A placeholder reaches from an opening brace to the next closing one. -/
theorem of_mem_placeholders {t p : Text} (h : p ∈ placeholders t) :
    (∃ name, p = '{' :: name ++ ['}']) ∧ ∀ c ∈ p, c ∈ t := by
  rw [mem_placeholders_iff] at h
  refine ⟨?_, fun c hc => ?_⟩
  · fun_induction pieces t with
    | case1 => cases h
    | case2 r name rest hcut ih =>
      rcases List.mem_cons.1 h with heq | hmem
      · cases heq
        exact ⟨name, rfl⟩
      · exact ih hmem
    | case3 r hcut ih => exact ih (List.mem_of_ne_of_mem Piece.noConfusion h)
    | case4 c r hc ih => exact ih (List.mem_of_ne_of_mem Piece.noConfusion h)
  · rw [← flatMap_text_pieces t]
    exact List.mem_flatMap.2 ⟨_, h, hc⟩

/-- A character of a text is a piece of it or part of a placeholder. -/
theorem mem_iff_pieces {t : Text} {c : Char} :
    c ∈ t ↔ .plain c ∈ pieces t ∨ ∃ p ∈ placeholders t, c ∈ p := by
  conv => lhs; rw [← flatMap_text_pieces t]
  rw [List.mem_flatMap]
  constructor
  · rintro ⟨piece, hmem, hc⟩
    cases piece with
    | plain d =>
      rw [Piece.text, List.mem_singleton] at hc
      exact .inl (hc ▸ hmem)
    | placeholder p => exact .inr ⟨p, mem_placeholders_iff.2 hmem, hc⟩
  · rintro (hmem | ⟨p, hmem, hc⟩)
    · exact ⟨_, hmem, List.mem_singleton.2 rfl⟩
    · exact ⟨_, mem_placeholders_iff.1 hmem, hc⟩

/-- A text without closing braces has no placeholder. -/
theorem placeholders_of_not_mem {t : Text} (h : '}' ∉ t) : placeholders t = [] := by
  refine List.eq_nil_iff_forall_not_mem.2 fun p hp => ?_
  obtain ⟨⟨name, rfl⟩, hmem⟩ := of_mem_placeholders hp
  exact h (hmem '}' (List.mem_append_right _ List.mem_cons_self))

/-- A text has no placeholder exactly if no opening brace has a closing one behind it. -/
theorem placeholders_eq_nil_iff {t : Text} :
    placeholders t = [] ↔ ¬ ['{', '}'].Sublist t := by
  rw [placeholders]
  fun_induction pieces t with
  | case1 => simp
  | case2 r name rest hcut ih =>
    obtain ⟨rfl, -⟩ := cutFirst?_eq_some_iff.1 hcut
    simp
  | case3 r hcut ih =>
    have hclosing : '}' ∉ r := cutFirst?_eq_none_iff.1 hcut
    rw [List.filterMap_cons_none rfl, ih, List.cons_sublist_cons, List.singleton_sublist]
    exact iff_of_true (fun h => hclosing (h.subset (by simp))) hclosing
  | case4 c r hc ih =>
    rw [List.filterMap_cons_none rfl, ih, List.sublist_cons_iff]
    simp [Ne.symm hc]

theorem pieces_of_cutFirst? {r name rest : Text} (h : cutFirst? '}' r = some (name, rest)) :
    pieces ('{' :: r) = .placeholder ('{' :: name ++ ['}']) :: pieces rest := by
  rw [pieces, if_pos rfl]
  split
  next name' rest' heq =>
    rw [h] at heq
    cases heq
    rfl
  next heq =>
    rw [h] at heq
    cases heq

/-- Where no brace of a text stays open, what follows does not change its pieces. -/
theorem pieces_append {t : Text} (h : .plain '{' ∉ pieces t) (u : Text) :
    pieces (t ++ u) = pieces t ++ pieces u := by
  fun_induction pieces t with
  | case1 => rfl
  | case2 r name rest hcut ih =>
    have hcut' : cutFirst? '}' (r ++ u) = some (name, rest ++ u) := by
      obtain ⟨rfl, hname⟩ := cutFirst?_eq_some_iff.1 hcut
      exact cutFirst?_eq_some_iff.2 ⟨by simp, hname⟩
    rw [List.cons_append, pieces_of_cutFirst? hcut', ih fun hmem => h (List.mem_cons_of_mem _ hmem)]
    rfl
  | case3 r hcut ih => exact absurd List.mem_cons_self h
  | case4 c r hc ih =>
    rw [List.cons_append, pieces, if_neg hc, ih fun hmem => h (List.mem_cons_of_mem _ hmem)]
    rfl

/-! ### Filling in -/

theorem mem_value_fill_iff {f : Text → Logged Text Text} {t : Text} {c : Char} :
    c ∈ (fill f t).value ↔ .plain c ∈ pieces t ∨ ∃ p ∈ placeholders t, c ∈ (f p).value := by
  rw [value_fill, List.mem_flatMap]
  constructor
  · rintro ⟨piece, hmem, hc⟩
    cases piece with
    | plain d => exact .inl (List.mem_singleton.1 hc ▸ hmem)
    | placeholder p => exact .inr ⟨p, mem_placeholders_iff.2 hmem, hc⟩
  · rintro (hmem | ⟨p, hmem, hc⟩)
    · exact ⟨_, hmem, List.mem_singleton.2 rfl⟩
    · exact ⟨_, mem_placeholders_iff.1 hmem, hc⟩

/-- A text whose placeholders all stay is the same text. -/
theorem value_fill_of_forall {f : Text → Logged Text Text} {t : Text}
    (h : ∀ p ∈ placeholders t, (f p).value = p) : (fill f t).value = t := by
  rw [value_fill]
  conv => rhs; rw [← flatMap_text_pieces t]
  refine congrArg List.flatten (List.map_congr_left fun piece hmem => ?_)
  cases piece with
  | plain c => rfl
  | placeholder p => exact h p (mem_placeholders_iff.2 hmem)

theorem value_fill_append (f : Text → Logged Text Text) {t : Text} (h : .plain '{' ∉ pieces t)
    (u : Text) : (fill f (t ++ u)).value = (fill f t).value ++ (fill f u).value := by
  rw [value_fill, pieces_append h, List.flatMap_append, value_fill, value_fill]

/-! ### Expanding -/

section Expand

variable {lookup : Text → Option Text}

/-- What a placeholder gives way to, where at most `depth` placeholders in a row are followed. -/
def resolved (lookup : Text → Option Text) : (depth : Nat) → Text → Logged Text Text
  | 0, p => keep p
  | depth + 1, p =>
    match lookup p with
    | some value => expand lookup depth value
    | none => keep p

theorem expand_eq_fill (lookup : Text → Option Text) (depth : Nat) :
    expand lookup depth = fill (resolved lookup depth) := by
  cases depth with
  | zero => rfl
  | succ depth => rfl

theorem resolved_of_lookup {p value : Text} (h : lookup p = some value) (depth : Nat) :
    resolved lookup (depth + 1) p = expand lookup depth value := by
  rw [resolved, h]

/-- A placeholder stays, or gives way to what its value expands to. -/
theorem resolved_cases (lookup : Text → Option Text) (depth : Nat) (p : Text) :
    resolved lookup depth p = keep p ∨ ∃ value d, lookup p = some value ∧ depth = d + 1 ∧
      resolved lookup depth p = expand lookup d value := by
  cases depth with
  | zero => exact .inl rfl
  | succ d =>
    rcases h : lookup p with _ | value
    · exact .inl (by rw [resolved, h])
    · exact .inr ⟨value, d, rfl, rfl, resolved_of_lookup h d⟩

/-- Where no placeholder is followed, the text stays as it is. -/
theorem value_expand_zero (lookup : Text → Option Text) (t : Text) :
    (expand lookup 0 t).value = t := by
  rw [expand_eq_fill]
  exact value_fill_of_forall fun _ _ => rfl

/-- Where no placeholder is erased to anything, the text stays as it is. -/
theorem value_expand_of_forall_none (h : ∀ p, lookup p = none) (depth : Nat) (t : Text) :
    (expand lookup depth t).value = t := by
  rw [expand_eq_fill]
  refine value_fill_of_forall fun p _ => ?_
  rcases resolved_cases lookup depth p with heq | ⟨value, _, hvalue, -⟩
  · rw [heq]
    rfl
  · rw [h p] at hvalue
    cases hvalue

/-- What is true of all characters of a text and of all values is true of all characters of the
text with placeholders expanded. -/
theorem forall_mem_expand {q : Char → Prop}
    (h : ∀ p value, lookup p = some value → ∀ c ∈ value, q c) (depth : Nat) {t : Text}
    (ht : ∀ c ∈ t, q c) : ∀ c ∈ (expand lookup depth t).value, q c := by
  induction depth generalizing t with
  | zero => rwa [value_expand_zero]
  | succ depth ih =>
    intro c hc
    rw [expand_eq_fill] at hc
    rcases mem_value_fill_iff.1 hc with hplain | ⟨p, hp, hcp⟩
    · exact ht c (mem_iff_pieces.2 (.inl hplain))
    · rcases resolved_cases lookup (depth + 1) p with heq | ⟨value, d, hvalue, hdepth, heq⟩
      · rw [heq] at hcp
        exact ht c (mem_iff_pieces.2 (.inr ⟨p, hp, hcp⟩))
      · obtain rfl := Nat.succ.inj hdepth
        rw [heq] at hcp
        exact ih (h p value hvalue) c hcp

/-- A text that is not blank is not blank with placeholders expanded, if no value is blank. -/
theorem exists_not_blank_expand
    (h : ∀ p value, lookup p = some value → ∃ c ∈ value, isBlank c = false) (depth : Nat)
    {t : Text} (ht : ∃ c ∈ t, isBlank c = false) :
    ∃ c ∈ (expand lookup depth t).value, isBlank c = false := by
  induction depth generalizing t with
  | zero => rwa [value_expand_zero]
  | succ depth ih =>
    obtain ⟨c, hc, hblank⟩ := ht
    rw [expand_eq_fill]
    rcases mem_iff_pieces.1 hc with hplain | ⟨p, hp, hcp⟩
    · exact ⟨c, mem_value_fill_iff.2 (.inl hplain), hblank⟩
    · have hresolved : ∃ d ∈ (resolved lookup (depth + 1) p).value, isBlank d = false := by
        rcases resolved_cases lookup (depth + 1) p with heq | ⟨value, d, hvalue, hdepth, heq⟩
        · rw [heq]
          exact ⟨c, hcp, hblank⟩
        · obtain rfl := Nat.succ.inj hdepth
          rw [heq]
          exact ih (h p value hvalue)
      obtain ⟨d, hd, hd'⟩ := hresolved
      exact ⟨d, mem_value_fill_iff.2 (.inr ⟨p, hp, hd⟩), hd'⟩

theorem value_expand_append (lookup : Text → Option Text) (depth : Nat) {t : Text}
    (h : .plain '{' ∉ pieces t) (u : Text) :
    (expand lookup depth (t ++ u)).value =
      (expand lookup depth t).value ++ (expand lookup depth u).value := by
  rw [expand_eq_fill]
  exact value_fill_append _ h u

end Expand

/-! ### What placeholders are erased to -/

theorem Params.isSeparator_eq_false_iff {c : Char} :
    isSeparator c = false ↔ isInner c = true ∧ c ≠ ',' := by
  simp [isSeparator, isInner, and_assoc]

theorem lookupParam_eq_some {outer inner : Params} {p value : Text}
    (h : lookupParam outer inner p = some value) :
    outer.get? p = some value ∨ inner.get? p = some value := by
  unfold lookupParam at h
  rcases houter : outer.get? p with _ | v
  · rw [houter] at h
    exact .inr h
  · rw [houter] at h
    exact .inl h

section Declared

variable {policy : UnboundPolicy} {scope scope' : Scope} {outer inner : Option Text}
  {p value : Text}

/-- A parameter is erased to a name: it has none of the characters between the pieces of a
declaration, and it is not blank. -/
theorem name_of_lookupParam
    (h : lookupParam (.ofDecl? scope policy outer) (.ofDecl? scope' policy inner) p =
      some value) :
    (∀ c ∈ value, Params.isSeparator c = false) ∧ ∃ c ∈ value, isBlank c = false := by
  rcases lookupParam_eq_some h with houter | hinner
  · exact ⟨Params.not_isSeparator_of_get?_ofDecl? houter,
      Params.exists_not_blank_of_get?_ofDecl? houter⟩
  · exact ⟨Params.not_isSeparator_of_get?_ofDecl? hinner,
      Params.exists_not_blank_of_get?_ofDecl? hinner⟩

theorem isInner_of_lookupParam
    (h : lookupParam (.ofDecl? scope policy outer) (.ofDecl? scope' policy inner) p =
      some value) : ∀ c ∈ value, isInner c = true :=
  fun c hc => (Params.isSeparator_eq_false_iff.1 ((name_of_lookupParam h).1 c hc)).1

end Declared

/-- That an empty text is left alone makes no difference to what it is erased to. -/
theorem value_substituteText (outer inner : Params) (t : Text) :
    (substituteText outer inner t).value =
      (expand (lookupParam outer inner) maxBoundDepth (strip t)).value := by
  unfold substituteText
  split
  next h =>
    rw [h, strip_of_removeGroup?_eq_none rfl, expand_eq_fill, value_fill, pieces]
    rfl
  next => rfl

end ApiSurface
