import ApiSurface.Text.Basic

/-!
# Bracketed spans

A parenthesis or an angle bracket opens a span that reaches to its closer. Inside a span both
kinds of brackets open further spans, while a closer of another kind than the one awaited is
an ordinary character. `eq_of_span?_eq_some` says that a span and what follows it make up the
text.
-/

namespace ApiSurface

namespace Line

open Text

/-- The character that closes the span which a character opens. -/
def closer? : Char → Option Char
  | '(' => some ')'
  | '<' => some '>'
  | _ => none

/-- The closers awaited after a character, innermost first, where `top` and then `stack` were
awaited before it. -/
def awaited (c top : Char) (stack : List Char) : List Char :=
  if c = top then stack else (closer? c).toList ++ top :: stack

/-- Cuts a text behind the character that closes the last of the open spans, whose closers are
listed innermost first. -/
def cutClosed? : List Char → Text → Option (Text × Text)
  | [], t => some ([], t)
  | _ :: _, [] => none
  | top :: stack, c :: r => (cutClosed? (awaited c top stack) r).map fun p => (c :: p.1, p.2)

/-- Cuts a text behind the span that its first character opens. -/
def span? : Text → Option (Text × Text)
  | [] => none
  | c :: r => (closer? c).bind fun d => (cutClosed? [d] r).map fun p => (c :: p.1, p.2)

@[simp] theorem cutClosed?_nil (t : Text) : cutClosed? [] t = some ([], t) := by
  cases t <;> rfl

theorem eq_of_cutClosed?_eq_some {stack : List Char} {t a b : Text}
    (h : cutClosed? stack t = some (a, b)) : t = a ++ b := by
  induction t generalizing stack a with
  | nil => cases stack <;> simp_all [cutClosed?]
  | cons c r ih =>
    cases stack with
    | nil => simp_all [cutClosed?]
    | cons top stack =>
      simp only [cutClosed?, Option.map_eq_some_iff, Prod.exists, Prod.mk.injEq] at h
      obtain ⟨a', b', h, rfl, rfl⟩ := h
      simp [ih h]

theorem span?_eq_some_iff {t a b : Text} :
    span? t = some (a, b) ↔
      ∃ c d r a', t = c :: r ∧ closer? c = some d ∧ cutClosed? [d] r = some (a', b) ∧
        a = c :: a' := by
  cases t with
  | nil => simp [span?]
  | cons c r =>
    simp only [span?, Option.bind_eq_some_iff, Option.map_eq_some_iff, Prod.exists, Prod.mk.injEq,
      List.cons.injEq]
    constructor
    · rintro ⟨d, hd, a', b', h, rfl, rfl⟩
      exact ⟨c, d, r, a', ⟨rfl, rfl⟩, hd, h, rfl⟩
    · rintro ⟨_, d, _, a', ⟨rfl, rfl⟩, hd, h, rfl⟩
      exact ⟨d, hd, a', b, h, rfl, rfl⟩

theorem eq_of_span?_eq_some {t a b : Text} (h : span? t = some (a, b)) : t = a ++ b ∧ a ≠ [] := by
  obtain ⟨c, d, r, a', rfl, -, h', rfl⟩ := span?_eq_some_iff.1 h
  simp [eq_of_cutClosed?_eq_some h']

theorem length_lt_of_span?_eq_some {t a b : Text} (h : span? t = some (a, b)) :
    b.length < t.length := by
  obtain ⟨rfl, ha⟩ := eq_of_span?_eq_some h
  have := List.length_pos_iff.2 ha
  simp only [List.length_append]
  omega

end Line

end ApiSurface
