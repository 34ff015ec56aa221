import ApiSurface.Text.Basic

/-!
# Blanks, line ends and comments in TOML

Only spaces and tabs are blanks. A line ends with a line feed, before which a carriage return may
stand; a carriage return has no other place. Control characters but the tab are nowhere allowed.
-/

namespace ApiSurface

open Text

namespace Toml

/-- Whether a character is a blank. -/
def isSpace (c : Char) : Bool := c = ' ' ∨ c = '\t'

/-- Whether a character may stand in a comment, or in a string on one line. -/
def isPlain (c : Char) : Bool := c = '\t' ∨ (0x20 ≤ c.toNat ∧ c.toNat ≠ 0x7F)

/-- The text without the blanks at its start. -/
def skipSpace (t : Text) : Text := t.dropWhile isSpace

/-- The text behind a line end. -/
def afterNewline? : Text → Option Text
  | '\n' :: r => some r
  | '\r' :: '\n' :: r => some r
  | _ => none

/-- Whether a text starts with a line end. -/
def startsWithNewline (t : Text) : Bool := (afterNewline? t).isSome

/-- The text behind the rest of a line, in which only blanks and a comment stand. The last line
needs no line end. -/
def afterLine? (t : Text) : Option Text :=
  let rest :=
    match skipSpace t with
    | '#' :: r => r.dropWhile isPlain
    | r => r
  if rest = [] then some [] else afterNewline? rest

/-- The text without the blanks, line ends and comments at its start. -/
def skipLines (inComment : Bool) : Text → Text
  | [] => []
  | c :: r =>
    if startsWithNewline (c :: r) then skipLines (inComment && c = '\r') r
    else if inComment then if isPlain c then skipLines true r else c :: r
    else if isSpace c then skipLines false r
    else if c = '#' then skipLines true r
    else c :: r

end Toml

end ApiSurface
