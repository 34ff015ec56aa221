import ApiSurface.Proofs.Line.Words
import Mathlib.Data.List.Induction

/-!
# Tokens of tokens

Each token of a text is a single token by itself (`isToken_of_mem_tokens`), only the last one can
start with an equals sign (`closed_dropLast`), and the text is made of its tokens and of spaces
(`spaced_of_tokens`).

Main statement: nothing but spaces is lost where a text is cut into tokens, and the tokens with
single spaces between them are cut into the same tokens (`scan_spaced`).
-/

namespace ApiSurface

namespace Line

/-! ### One token -/

theorem cutClosed?_self {stack : List Char} {t a b : Text} (h : cutClosed? stack t = some (a, b)) :
    cutClosed? stack a = some (a, []) := by
  induction t generalizing stack a with
  | nil =>
    cases stack with
    | nil =>
      cases h
      rfl
    | cons top stack => cases h
  | cons c r ih =>
    cases stack with
    | nil =>
      cases h
      rfl
    | cons top stack =>
      obtain ⟨⟨a', b'⟩, hcut, heq⟩ := Option.map_eq_some_iff.1 h
      cases heq
      rw [cutClosed?, ih hcut]
      rfl

theorem span?_self {t a b : Text} (h : span? t = some (a, b)) : span? a = some (a, []) := by
  obtain ⟨c, d, r, a', rfl, hd, hcut, rfl⟩ := span?_eq_some_iff.1 h
  exact span?_eq_some_iff.2 ⟨c, d, a', a', rfl, hd, cutClosed?_self hcut, rfl⟩

theorem takePlain_self {t a b : Text} (h : takePlain t = .ok (a, b)) :
    takePlain a = .ok (a, []) := by
  fun_induction takePlain t generalizing a with
  | case1 =>
    cases h
    rw [takePlain]
  | case2 =>
    cases h
    rw [takePlain]
  | case3 => cases h
  | case4 r inside rest hc hs ih =>
    obtain ⟨⟨a', b'⟩, hp, heq⟩ := map_eq_ok_iff.1 h
    cases heq
    have hspan : span? (inside ++ a') = some (inside, a') := span?_append (span?_self hs) a'
    obtain ⟨_, _, _, inside', hcons, -, -, rfl⟩ := span?_eq_some_iff.1 hs
    cases hcons
    rw [List.cons_append] at hspan ⊢
    rw [takePlain_span hspan, ih hp]
    rfl
  | case5 c r hc hlt ih =>
    obtain ⟨⟨a', b'⟩, hp, heq⟩ := map_eq_ok_iff.1 h
    cases heq
    rw [takePlain, if_neg hc, if_neg hlt, ih hp]
    rfl

/-- A token starts with the character that it was taken for, and is taken whole again. -/
theorem takeToken_self {c : Char} {r a b : Text} (h : takeToken c r = .ok (a, b)) :
    ∃ a', a = c :: a' ∧ takeToken c a' = .ok (a, []) := by
  unfold takeToken at h
  split at h
  next hc =>
    cases h
    exact ⟨r, rfl, by rw [takeToken, if_pos hc]⟩
  next hc =>
    split at h
    next hcloser =>
      split at h
      next => cases h
      next p hspan =>
        cases h
        obtain ⟨_, _, _, a', hcons, -, -, rfl⟩ := span?_eq_some_iff.1 hspan
        cases hcons
        refine ⟨a', rfl, ?_⟩
        rw [takeToken, if_neg hc, if_pos hcloser, span?_self hspan]
    next hcloser =>
      obtain ⟨⟨a', b'⟩, hp, heq⟩ := map_eq_ok_iff.1 h
      cases heq
      refine ⟨a', rfl, ?_⟩
      rw [takeToken, if_neg hc, if_neg hcloser, takePlain_self hp]
      rfl

/-! ### All tokens -/

/-- Each token of a text is a single token. -/
theorem isToken_of_mem_tokens {t : Text} {l : List Text} (h : tokens t = .ok l) :
    ∀ u ∈ l, IsToken u := by
  fun_induction tokens t generalizing l with
  | case1 =>
    cases h
    exact List.forall_mem_nil _
  | case2 r ih => exact ih h
  | case3 => cases h
  | case4 c r hc token rest htoken ih =>
    obtain ⟨l', hrest, rfl⟩ := map_eq_ok_iff.1 h
    refine List.forall_mem_cons.2 ⟨?_, ih hrest⟩
    obtain ⟨a', rfl, htoken'⟩ := takeToken_self htoken
    rw [IsToken, tokens_cons hc htoken', tokens_nil]
    rfl

/-- Only the last token of a text can reach to the end of a line. -/
theorem closed_dropLast {t : Text} {l : List Text} (h : tokens t = .ok l) : Closed l.dropLast := by
  fun_induction tokens t generalizing l with
  | case1 =>
    cases h
    exact closed_nil
  | case2 r ih => exact ih h
  | case3 => cases h
  | case4 c r hc token rest htoken ih =>
    obtain ⟨l', hrest, rfl⟩ := map_eq_ok_iff.1 h
    rcases l' with _ | ⟨u, us⟩
    · exact closed_nil
    · rw [List.dropLast_cons_of_ne_nil (List.cons_ne_nil u us)]
      refine List.forall_mem_cons.2 ⟨?_, ih hrest⟩
      have hne : c ≠ '=' := by
        rintro rfl
        rw [takeToken, if_pos rfl] at htoken
        cases htoken
        rw [tokens_nil] at hrest
        cases hrest
      obtain ⟨a', rfl, -⟩ := takeToken_self htoken
      simpa using hne

/-- A text is made of some texts, one after the other, and of spaces. -/
inductive Spaced : List Text → Text → Prop where
  /-- Nothing. -/
  | nil : Spaced [] []
  /-- A space comes first. -/
  | space {l : List Text} {t : Text} : Spaced l t → Spaced l (' ' :: t)
  /-- One of the texts comes first. -/
  | text {l : List Text} {u t : Text} : Spaced l t → Spaced (u :: l) (u ++ t)

theorem Spaced.flatten_sublist {l : List Text} {t : Text} (h : Spaced l t) :
    l.flatten.Sublist t := by
  induction h with
  | nil => exact .refl _
  | space _ ih => exact ih.cons _
  | @text l u t _ ih => exact (List.Sublist.refl u).append ih

/-- Nothing but spaces is outside the tokens of a text. -/
theorem spaced_of_tokens {t : Text} {l : List Text} (h : tokens t = .ok l) : Spaced l t := by
  fun_induction tokens t generalizing l with
  | case1 =>
    cases h
    exact .nil
  | case2 r ih => exact .space (ih h)
  | case3 => cases h
  | case4 c r hc token rest htoken ih =>
    obtain ⟨l', hrest, rfl⟩ := map_eq_ok_iff.1 h
    rw [(eq_of_takeToken_eq_ok htoken).1]
    exact .text (ih hrest)

/-- The tokens of a text are in it, one after the other. -/
theorem flatten_sublist {t : Text} {l : List Text} (h : tokens t = .ok l) :
    l.flatten.Sublist t := (spaced_of_tokens h).flatten_sublist

/-- A token that starts with an equals sign ends where the text ends. -/
theorem spaced_dropLast {t : Text} {l : List Text} (h : tokens t = .ok l) {u : Text}
    (hlast : l.getLast? = some u) (hu : u.head? = some '=') :
    ∃ front, t = front ++ u ∧ Spaced l.dropLast front := by
  fun_induction tokens t generalizing l with
  | case1 =>
    cases h
    cases hlast
  | case2 r ih =>
    obtain ⟨front, rfl, hfront⟩ := ih h hlast
    exact ⟨' ' :: front, rfl, .space hfront⟩
  | case3 => cases h
  | case4 c r hc token rest htoken ih =>
    obtain ⟨l', hrest, rfl⟩ := map_eq_ok_iff.1 h
    rcases l' with _ | ⟨v, vs⟩
    · obtain rfl : token = u := by simpa using hlast
      obtain ⟨a', rfl, -⟩ := takeToken_self htoken
      obtain rfl : c = '=' := by simpa using hu
      rw [takeToken, if_pos rfl] at htoken
      cases htoken
      exact ⟨[], rfl, .nil⟩
    · rw [List.getLast?_cons_cons] at hlast
      obtain ⟨front, rfl, hfront⟩ := ih hrest hlast
      refine ⟨token ++ front, ?_, ?_⟩
      · rw [(eq_of_takeToken_eq_ok htoken).1, List.append_assoc]
      · rw [List.dropLast_cons_of_ne_nil (List.cons_ne_nil v vs)]
        exact .text hfront

/-- The first token of a text starts as the text does, where that is not a space. -/
theorem head?_of_tokens {c : Char} {r u : Text} {us : List Text} (hc : c ≠ ' ')
    (h : tokens (c :: r) = .ok (u :: us)) : u.head? = some c := by
  rw [tokens, if_neg hc] at h
  split at h
  next => cases h
  next token rest htoken =>
    obtain ⟨l', -, heq⟩ := map_eq_ok_iff.1 h
    obtain ⟨rfl, rfl⟩ := List.cons.inj heq
    obtain ⟨a', rfl, -⟩ := takeToken_self htoken
    rfl

theorem ne_nil_of_tokens_eq_cons {c : Char} {r : Text} {l : List Text} (hc : c ≠ ' ')
    (h : tokens (c :: r) = .ok l) : l ≠ [] := by
  rw [tokens, if_neg hc] at h
  split at h
  next => cases h
  next =>
    obtain ⟨l', -, rfl⟩ := map_eq_ok_iff.1 h
    exact List.cons_ne_nil _ _

/-! ### Tokens joined by spaces -/

theorem ne_nil_of_isToken {u : Text} (h : IsToken u) : u ≠ [] := by
  rintro rfl
  rw [IsToken, tokens_nil] at h
  cases h

/-- Single tokens with spaces between them are the tokens of the text. -/
theorem tokens_intercalate {l : List Text} (htoken : ∀ u ∈ l, IsToken u)
    (hclosed : Closed l.dropLast) : tokens ([' '].intercalate l) = .ok l := by
  induction l using List.reverseRecOn with
  | nil => exact tokens_nil
  | append_singleton us u _ =>
    rw [List.dropLast_concat] at hclosed
    have hwords : List.Forall₂ (fun w l => tokens w = .ok l ∧ Closed l) us (us.map ([·])) := by
      rw [List.forall₂_map_right_iff, List.forall₂_same]
      exact fun v hv => ⟨htoken v (List.mem_append_left _ hv), closed_singleton (hclosed v hv)⟩
    have hfilter : (us ++ [u]).filter (· ≠ []) = us ++ [u] :=
      List.filter_eq_self.2 fun v hv => by simpa using ne_nil_of_isToken (htoken v hv)
    have hu : IsToken u := htoken u (List.mem_append_right _ (List.mem_singleton_self u))
    have happend := tokens_intercalate_append hwords [u]
    rw [hfilter, intercalate_filter_singleton, hu] at happend
    rw [happend, ← List.flatMap_def, List.flatMap_singleton']
    rfl

/-- Where a text is cut into tokens, none of them is empty, they and spaces make up the text one
after the other, and only the last one can start with an equals sign, with which it reaches to the
end of the text. Joined by single spaces they are cut into the same tokens. -/
theorem scan_spaced {t : Text} {l : List Text} (h : scan t = .ok l) :
    (∀ u ∈ l, u ≠ []) ∧ Spaced l t ∧ (∀ u ∈ l.dropLast, u.head? ≠ some '=') ∧
      (∀ u ∈ l.getLast?, u.head? = some '=' → ∃ front, t = front ++ u ∧ Spaced l.dropLast front) ∧
      scan ([' '].intercalate l) = .ok l := by
  have htokens : tokens t = .ok l := mapError_eq_ok_iff.1 h
  have htoken := isToken_of_mem_tokens htokens
  have hclosed := closed_dropLast htokens
  exact ⟨fun u hu => ne_nil_of_isToken (htoken u hu), spaced_of_tokens htokens, hclosed,
    fun u hlast hu => spaced_dropLast htokens hlast hu,
    mapError_eq_ok_iff.2 (tokens_intercalate htoken hclosed)⟩

/-- A text with spaces between its tokens, in brackets and behind an equals sign. -/
def spacedText : Text := "  public a.M<b.K, c.V>.x(int, <b )>)y=z   =  1 ( ".toList

/-- Its tokens. -/
def spacedTokens : List Text :=
  ["public".toList, "a.M<b.K, c.V>.x".toList, "(int, <b )>)".toList, "y=z".toList, "=  1 ( ".toList]

/-- They make up the text, and with one space between them they are found again. -/
theorem scan_spaced_spacedText :
    scan spacedText = .ok spacedTokens ∧ Spaced spacedTokens spacedText ∧
      scan "public a.M<b.K, c.V>.x (int, <b )>) y=z =  1 ( ".toList = .ok spacedTokens := by
  have hscan : scan spacedText = .ok spacedTokens := by decide +kernel
  obtain ⟨-, hspaced, -, -, hjoined⟩ := scan_spaced hscan
  exact ⟨hscan, hspaced, hjoined⟩

end Line

end ApiSurface
