import ApiSurface.Line.Span

/-!
# Tokens of a line

Spaces separate the tokens of a line, with three exceptions: a span in brackets at the start of
a token is a token of its own, inside a plain token a span in angle brackets is taken whole
while a parenthesis ends the token, and a token that starts with `=` reaches to the end of the
line.

Main statement: `eq_of_takeToken_eq_ok`, a token and what follows it make up the text.
-/

namespace ApiSurface

namespace Line

open Text

/-- A bracket that no other bracket closes. -/
structure Unclosed where
  /-- The opening bracket. -/
  bracket : Char
  /-- Its place in the text: one more than the number of bytes before it. -/
  column : Nat
  deriving DecidableEq

/-- The rest of a plain token and what follows the token. Where a bracket is not closed, the
error is the text from that bracket on. -/
def takePlain (t : Text) : Except Text (Text × Text) :=
  match t with
  | [] => .ok ([], [])
  | c :: r =>
    if c = ' ' ∨ c = '(' then .ok ([], c :: r)
    else if c = '<' then
      match _h : span? (c :: r) with
      | none => .error (c :: r)
      | some (inside, rest) => (takePlain rest).map fun p => (inside ++ p.1, p.2)
    else (takePlain r).map fun p => (c :: p.1, p.2)
termination_by t.length
decreasing_by
  · exact length_lt_of_span?_eq_some _h
  · simp

/-- The token that starts with the character `c`, in front of `r`, and what follows the token.
Where a bracket is not closed, the error is the text from that bracket on. -/
def takeToken (c : Char) (r : Text) : Except Text (Text × Text) :=
  if c = '=' then .ok (c :: r, [])
  else if (closer? c).isSome then
    match span? (c :: r) with
    | none => .error (c :: r)
    | some p => .ok p
  else (takePlain r).map fun p => (c :: p.1, p.2)

/-! ### Nothing is lost -/

theorem map_eq_ok_iff {ε α β : Type _} {f : α → β} {x : Except ε α} {b : β} :
    x.map f = .ok b ↔ ∃ a, x = .ok a ∧ f a = b := by
  cases x <;> simp [Except.map]

theorem bind_eq_ok_iff {ε α β : Type _} {x : Except ε α} {f : α → Except ε β} {b : β} :
    (x >>= f) = .ok b ↔ ∃ a, x = .ok a ∧ f a = .ok b := by
  rcases x with e | a
  · exact iff_of_false (fun h => by cases h) (by simp)
  · exact ⟨fun h => ⟨a, rfl, h⟩, fun ⟨_, ha, h⟩ => by cases ha; exact h⟩

theorem eq_of_takePlain_eq_ok {t a b : Text} (h : takePlain t = .ok (a, b)) : t = a ++ b := by
  fun_induction takePlain t generalizing a with
  | case1 => simp_all
  | case2 => simp_all
  | case3 => simp at h
  | case4 r inside rest _ hs ih =>
    obtain ⟨⟨a', b'⟩, hp, h⟩ := map_eq_ok_iff.1 h
    obtain ⟨rfl, rfl⟩ := Prod.mk.inj h
    rw [(eq_of_span?_eq_some hs).1, ih hp, List.append_assoc]
  | case5 c r _ _ ih =>
    obtain ⟨⟨a', b'⟩, hp, h⟩ := map_eq_ok_iff.1 h
    obtain ⟨rfl, rfl⟩ := Prod.mk.inj h
    rw [ih hp, List.cons_append]

theorem eq_of_takeToken_eq_ok {c : Char} {r a b : Text} (h : takeToken c r = .ok (a, b)) :
    c :: r = a ++ b ∧ a ≠ [] := by
  unfold takeToken at h
  split at h
  next =>
    obtain ⟨rfl, rfl⟩ := Prod.mk.inj (Except.ok.inj h)
    simp
  next =>
    split at h
    next =>
      split at h
      next => simp at h
      next hs => exact eq_of_span?_eq_some (hs.trans (congrArg some (Except.ok.inj h)))
    next =>
      obtain ⟨⟨a', b'⟩, hp, h⟩ := map_eq_ok_iff.1 h
      obtain ⟨rfl, rfl⟩ := Prod.mk.inj h
      simp [eq_of_takePlain_eq_ok hp]

/-- The tokens of a text. Where a bracket is not closed, the error is the text from that bracket
on. -/
def tokens (t : Text) : Except Text (List Text) :=
  match t with
  | [] => .ok []
  | c :: r =>
    if c = ' ' then tokens r
    else match _h : takeToken c r with
      | .error e => .error e
      | .ok (token, rest) => (tokens rest).map (token :: ·)
termination_by t.length
decreasing_by
  · simp
  · obtain ⟨he, hne⟩ := eq_of_takeToken_eq_ok _h
    have := congrArg List.length he
    have := List.length_pos_iff.2 hne
    simp only [List.length_append, List.length_cons] at *
    omega

/-- The tokens of a text, or the bracket in it that is not closed. -/
def scan (t : Text) : Except Unclosed (List Text) :=
  (tokens t).mapError fun rest => ⟨rest.headD ' ', utf8Size t - utf8Size rest + 1⟩

end Line

end ApiSurface
