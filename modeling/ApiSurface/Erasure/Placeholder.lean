import ApiSurface.Logged
import ApiSurface.Erasure.Params
import ApiSurface.Erasure.TypeArgs

/-!
# Placeholders

A placeholder is a text in braces. `fill` puts texts in the place of all placeholders of a
text, `expand` fills in what they are erased to, through bounds that are placeholders
themselves, and `substitute` erases the text of a type: its type arguments are removed and its
placeholders expanded.

A placeholder that is erased to nothing, or whose bounds lead on for too long, stays and is
reported in the log.
-/

namespace ApiSurface

open Text

/-- A piece of a text. -/
inductive Piece where
  /-- A character outside placeholders. -/
  | plain (c : Char)
  /-- A placeholder with its braces. -/
  | placeholder (p : Text)
  deriving DecidableEq

/-- The text of a piece. -/
def Piece.text : Piece → Text
  | plain c => [c]
  | placeholder p => p

/-- The pieces of a text. A placeholder reaches from an opening brace to the next closing one. -/
def pieces (t : Text) : List Piece :=
  match t with
  | [] => []
  | c :: r =>
    if c = '{' then
      match _h : cutFirst? '}' r with
      | some (name, rest) => .placeholder ('{' :: name ++ ['}']) :: pieces rest
      | none => .plain c :: pieces r
    else .plain c :: pieces r
termination_by t.length
decreasing_by
  · obtain ⟨rfl, -⟩ := cutFirst?_eq_some_iff.1 _h
    simp only [List.length_cons, List.length_append]
    omega
  · simp
  · simp

/-- The placeholders of a text. -/
def placeholders (t : Text) : List Text :=
  (pieces t).filterMap fun
    | .plain _ => none
    | .placeholder p => some p

/-- The pieces make up the text. -/
theorem flatMap_text_pieces (t : Text) : (pieces t).flatMap Piece.text = t := by
  fun_induction pieces t with
  | case1 => rfl
  | case2 r name rest h ih =>
    obtain ⟨rfl, -⟩ := cutFirst?_eq_some_iff.1 h
    simp [Piece.text, ih]
  | case3 r h ih => simp [Piece.text, ih]
  | case4 c r h ih => simp [Piece.text, ih]

/-! ### Filling in -/

/-- The text with `f p` in the place of each placeholder `p`. -/
def fill (f : Text → Logged Text Text) (t : Text) : Logged Text Text :=
  List.flatten <$> Logged.traverse (fun
    | .plain c => pure [c]
    | .placeholder p => f p) (pieces t)

/-- A placeholder that stays where it is, and is reported. -/
def keep (p : Text) : Logged Text Text := ⟨p, [p]⟩

/-- The text with each placeholder that `lookup` knows in the place of its value, which is
expanded in turn, through at most `depth` placeholders in a row. -/
def expand (lookup : Text → Option Text) : (depth : Nat) → Text → Logged Text Text
  | 0 => fill keep
  | depth + 1 => fill fun p =>
    match lookup p with
    | some value => expand lookup depth value
    | none => keep p

/-- How many placeholders in a row are followed; what goes on longer is taken for a circle. -/
def maxBoundDepth : Nat := 64

/-- The erasure of a placeholder: that in `outer` if there is one, else that in `inner`. -/
def lookupParam (outer inner : Params) (p : Text) : Option Text :=
  outer.get? p <|> inner.get? p

/-- The erasure of the text of a type: without type arguments, and with placeholders expanded. -/
def substitute (outer inner : Params) (t : Text) : Logged Text Text :=
  expand (lookupParam outer inner) maxBoundDepth (strip t)

@[simp] theorem value_fill (f : Text → Logged Text Text) (t : Text) :
    (fill f t).value = (pieces t).flatMap fun
      | .plain c => [c]
      | .placeholder p => (f p).value := by
  simp only [fill, Logged.value_map, Logged.value_traverse, List.flatMap]
  congr 2
  funext piece
  cases piece <;> rfl

@[simp] theorem log_fill (f : Text → Logged Text Text) (t : Text) :
    (fill f t).log = (placeholders t).flatMap fun p => (f p).log := by
  simp only [fill, Logged.log_map, Logged.log_traverse, placeholders]
  induction pieces t with
  | nil => rfl
  | cons piece ps ih => cases piece <;> simp [ih]

end ApiSurface
