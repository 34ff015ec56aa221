import ApiSurface.Settings.Toml.Date
import ApiSurface.Settings.Toml.Number
import ApiSurface.Settings.Toml.Quoted
import ApiSurface.Settings.Toml.Table

/-!
# Keys and values in TOML

A key is one or several names with dots between them. A value is a string, a word such as a truth
value, a number or a date, an array, or a table on one line.
-/

namespace ApiSurface

open Text

namespace Toml

/-! ### Keys -/

/-- Whether a character may stand in a name without quotes. -/
def isBare (c : Char) : Bool := c.isAlphanum || c = '_' || c = '-'

/-- One name of a key. -/
def readName : Reader Text
  | '"' :: r => readBasic .outside r
  | '\'' :: r => readLiteral r
  | t =>
    let name := t.takeWhile isBare
    if name = [] then none else some (name, t.dropWhile isBare)

/-- The names with dots between them, and with blanks around the dots. -/
def readNames (t : Text) : Option (SettingPath × Text) :=
  match readName (skipSpace t) with
  | none => none
  | some (name, r) =>
    match after? ['.'] (skipSpace r) with
    | none => some ([name], skipSpace r)
    | some rest =>
      if _h : rest.length < t.length then (readNames rest).map fun p => (name :: p.1, p.2) else none
termination_by t.length

/-- The greatest number of names in a key, and of arrays and tables inside each other. -/
def depthLimit : Nat := 79

/-- A key. -/
def readKey (t : Text) : Option (SettingPath × Text) :=
  (readNames t).filter fun p => p.1.length ≤ depthLimit

/-- A key and a value with an equals sign between them. -/
def readAssignment (value : Reader SettingValue) (t : Text) :
    Option ((SettingPath × SettingValue) × Text) := do
  let (path, r) ← readKey t
  let (v, rest) ← value (skipSpace (← after? ['='] r))
  return ((path, v), rest)

/-! ### Words -/

/-- Whether a character may stand in a word. -/
def isWordChar (c : Char) : Bool := c.isAlphanum || c ∈ ['_', '+', '-', '.', ':']

/-- The group that a date or a time is. -/
def dateValue (t : Text) : SettingValue :=
  .group [("$__toml_private_datetime".toList, .text t)]

/-- The value of a word. -/
def wordValue? (word : Text) : Option SettingValue :=
  if word = "true".toList then some (.bool true)
  else if word = "false".toList then some (.bool false)
  else if isDateOrTime word then some (dateValue word)
  else if isNumber word then some .other
  else none

/-- The time behind a date and one space. -/
def readTime : Reader Text
  | ' ' :: r =>
    let word := r.takeWhile isWordChar
    if isTime true word then some (' ' :: word, r.dropWhile isWordChar) else none
  | _ => none

/-- A string or a word. -/
def readScalar (t : Text) : Option (SettingValue × Text) :=
  if t.head? = some '"' ∨ t.head? = some '\'' then
    (readString t).map fun p => (.text p.1, p.2)
  else
    let word := t.takeWhile isWordChar
    let rest := t.dropWhile isWordChar
    match if isDate word then readTime rest else none with
    | some (time, rest) => some (dateValue (word ++ time), rest)
    | none => (wordValue? word).map fun v => (v, rest)

/-! ### Arrays and tables -/

/-- Arrays may extend over several lines, with comments. -/
def arrayForm : ListForm where
  gap := skipLines false
  close := ']'
  hasFinalComma := true

/-- A table on one line. -/
def inlineForm : ListForm where
  gap := skipSpace
  close := '}'
  hasFinalComma := false

/-- A value with at most so many arrays and tables inside each other. -/
def readValue : (depth : Nat) → Reader SettingValue
  | 0, t => readScalar t
  | depth + 1, t =>
    match after? ['['] t, after? ['{'] t with
    | some r, _ => (readList arrayForm (readValue depth) r).map fun p => (.list p.1, p.2)
    | none, some r =>
      (readList inlineForm (readAssignment (readValue depth)) r).bind fun p =>
        (groupOf? p.1).map fun v => (v, p.2)
    | none, none => readScalar t

end Toml

end ApiSurface
