import ApiSurface.Text.Basic

/-!
# Readers

A reader takes a value off the front of a text and leaves the rest. The readers here repeat
another reader, once for each item of a list or until the text is used up. They end because every
turn has to leave a shorter text than the one before; a turn that does not is a failure.
-/

namespace ApiSurface

namespace Text

/-- A reader of values of a type: the value at the front of a text, if there is one, and the rest
of the text. -/
abbrev Reader (α : Type) := Text → Option (α × Text)

/-! ### A whole text -/

/-- Reads a text to its end, with a state that each turn passes on. -/
def readAll {σ : Type} (turn : σ → Reader σ) (s : σ) (t : Text) : Option σ :=
  if t = [] then some s
  else
    match turn s t with
    | none => none
    | some (next, rest) => if _h : rest.length < t.length then readAll turn next rest else none
termination_by t.length

/-! ### Lists -/

/-- How a list is written whose items are separated by commas. -/
structure ListForm where
  /-- The text without what may stand at its front before and after an item. -/
  gap : Text → Text
  /-- The bracket behind the last item. -/
  close : Char
  /-- Whether a comma may follow the last item. -/
  hasFinalComma : Bool

/-- The text behind the closing bracket, if that comes next. -/
def ListForm.afterClose? (form : ListForm) (t : Text) : Option Text :=
  after? [form.close] (form.gap t)

/-- The items up to the closing bracket. Only where `mayEnd` holds there may be none. -/
def readItems {α : Type} (form : ListForm) (item : Reader α) (mayEnd : Bool) (t : Text) :
    Option (List α × Text) :=
  match if mayEnd then form.afterClose? t else none with
  | some rest => some ([], rest)
  | none =>
    match item (form.gap t) with
    | none => none
    | some (a, r) =>
      match form.afterClose? r, after? [','] (form.gap r) with
      | some rest, _ => some ([a], rest)
      | none, none => none
      | none, some rest =>
        if _h : rest.length < t.length then
          (readItems form item form.hasFinalComma rest).map fun p => (a :: p.1, p.2)
        else none
termination_by t.length

/-- The items of a list, read from the text behind its opening bracket. -/
def readList {α : Type} (form : ListForm) (item : Reader α) : Reader (List α) :=
  readItems form item true

end Text

end ApiSurface
