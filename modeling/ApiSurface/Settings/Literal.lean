import ApiSurface.Text.Blank
import ApiSurface.Settings.Toml.Quoted
import ApiSurface.Settings.Value

/-!
# Values of variables

The text of a variable is read as a truth value, a character in single quotes, a string in double
quotes, a list in square brackets or a group in braces. A text that is nothing of that, or only in
part, stands for itself; so do numbers, which no setting can have.
-/

namespace ApiSurface

open Text

namespace Literal

/-- Whether a character is a blank around values: one of the blanks of ASCII but the vertical
tab. -/
def isSpace (c : Char) : Bool := c ∈ [' ', '\t', '\n', '\x0C', '\r']

/-- The text without the blanks at its start. -/
def skipSpace (t : Text) : Text := t.dropWhile isSpace

/-- Whether a character does not end a plain text. -/
def isPlain (c : Char) : Bool := c ∉ [',', '{', '}', '[', ']']

/-- Whether a character may stand in a name without quotes. -/
def isNameChar (c : Char) : Bool := c.isAlphanum || c = '_' || c = '-'

/-- The string between double quotes, read from behind the first one. If it has escapes, what
stands before the first of them keeps only as many bytes as it has characters. -/
def readString (t : Text) : Option (Text × Text) :=
  let start := t.takeWhile fun c => c ≠ '"' ∧ c ≠ '\\'
  let rest := t.drop start.length
  if rest.head? = some '\\' ∧ start.all Toml.isPlain then
    (Toml.readBasic .outside rest).map (Toml.prepend (takeBytes start.length start))
  else Toml.readBasic .outside t

/-- The name of a value in a group. -/
def readName : Reader Text
  | '"' :: r => readString r
  | t =>
    let name := t.takeWhile isNameChar
    if name = [] then none else some (name, t.dropWhile isNameChar)

/-- A name and a value with an equals sign between them. -/
def readField (value : Reader SettingValue) (t : Text) :
    Option ((Text × SettingValue) × Text) := do
  let (name, r) ← readName (skipSpace t)
  let (v, rest) ← value (← after? ['='] (skipSpace r))
  return ((name, v), rest)

/-- A list or a group up to its closing bracket. -/
def form (close : Char) : ListForm where
  gap := id
  close := close
  hasFinalComma := true

/-- A value that starts with a bracket or a quote, with a reader of the values in lists and
groups. -/
def readEnclosed (value : Reader SettingValue) : Reader SettingValue
  | '{' :: r => (readList (form '}') (readField value) r).map fun p => (.ofFields p.1, p.2)
  | '[' :: r => (readList (form ']') value r).map fun p => (.list p.1, p.2)
  | '"' :: r => (readString r).map fun p => (.text p.1, p.2)
  | '\'' :: _ :: '\'' :: r => some (.other, r)
  | _ => none

/-- Whether a text starts with a bracket or a quote that a value may start with. -/
def isEnclosed (t : Text) : Bool := t.head?.any (· ∈ ['{', '[', '"', '\''])

/-- A value without blanks before it. -/
def readBare (value : Reader SettingValue) (t : Text) : Option (SettingValue × Text) :=
  match after? "true".toList t, after? "false".toList t with
  | some r, _ => some (.bool true, r)
  | none, some r => some (.bool false, r)
  | none, none =>
    if isEnclosed t then readEnclosed value t
    else some (.text (trim (t.takeWhile isPlain)), t.dropWhile isPlain)

/-- A value with the blanks around it, in which other values are nested to a smaller depth than the
given one. -/
def readValue : (depth : Nat) → Reader SettingValue
  | 0, _ => none
  | depth + 1, t => (readBare (readValue depth) (skipSpace t)).map fun p => (p.1, skipSpace p.2)

/-- The value that the text of a variable stands for. No text nests values deeper than it is
long. -/
def ofText (t : Text) : SettingValue :=
  match readValue (t.length + 1) t with
  | some (v, []) => v
  | _ => .text t

end Literal

end ApiSurface
