import ApiSurface.Text.Basic
import ApiSurface.Text.Visible

/-!
# Quoted texts

A text in double quotes, with a backslash in front of what would be mistaken: quotes,
backslashes and characters that cannot be seen.
-/

namespace ApiSurface

namespace Text

/-- A character as it is written between double quotes. -/
def quoteChar (c : Char) : Text :=
  if c = '"' then ['\\', '"']
  else if c = '\\' then ['\\', '\\']
  else if c = '\n' then ['\\', 'n']
  else if c = '\r' then ['\\', 'r']
  else if c = '\t' then ['\\', 't']
  else if c.toNat = 0 then ['\\', '0']
  else if isHidden c then ['\\', 'u', '{'] ++ Nat.toDigits 16 c.toNat ++ ['}']
  else [c]

/-- A text in double quotes. -/
def quote (t : Text) : Text := '"' :: t.flatMap quoteChar ++ ['"']

/-- A text that may be missing: `None`, or the quoted text in `Some()`. -/
def quoteOption : Option Text → Text
  | none => "None".toList
  | some t => "Some(".toList ++ quote t ++ [')']

end Text

end ApiSurface
