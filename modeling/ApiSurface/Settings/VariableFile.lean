import ApiSurface.Text.Alphanumeric
import ApiSurface.Settings.Environment

/-!
# Files of variables

Variables can also stand in a file, one in each line of the form `NAME=value`, where `export` may
stand before the name. Quotes and backslashes keep their place in a value over line ends, a number
sign behind a blank starts a comment, and a dollar sign names another variable. Variables that are
there already keep their values, and nothing behind a malformed line counts.

Main statement: `get?_addLines` says that no line takes a variable's value away.
-/

namespace ApiSurface

open Text

namespace VariableFile

/-! ### Lines -/

/-- The lines of a text with their line feeds. -/
def rows : Text → List Text
  | [] => []
  | c :: r => if c = '\n' then [c] :: rows r else consHead c (rows r)

/-- Where in a line a character stands. -/
inductive LinePlace where
  /-- Outside quotes. -/
  | plain
  /-- Outside quotes, behind a blank that stands behind no other. -/
  | blank
  /-- Outside quotes, behind a backslash. -/
  | escaped
  /-- Inside quotes. -/
  | quoted (quote : Char)
  /-- Inside quotes, behind a backslash. -/
  | quotedEscaped (quote : Char)
  deriving DecidableEq

/-- Whether a character is a blank within a line. -/
def isLineBlank (c : Char) : Bool := isBlank c && c ≠ '\n' && c ≠ '\r'

/-- The place behind a character. -/
def LinePlace.next : LinePlace → Char → LinePlace
  | escaped, _ => plain
  | quoted q, c => if c = '\\' then quotedEscaped q else if c = q then plain else quoted q
  | quotedEscaped q, _ => quoted q
  | p, c =>
    if c = '\\' then escaped
    else if c = '"' ∨ c = '\'' then quoted c
    else if p = plain ∧ isLineBlank c then blank
    else plain

/-- The part of a row before a comment, with the place behind the row if it has no comment. -/
def scan (p : LinePlace) : Text → Text × Option LinePlace
  | [] => ([], some p)
  | c :: r =>
    if p = .blank ∧ c = '#' then ([], none)
    else
      let (kept, last) := scan (p.next c) r
      (c :: kept, last)

/-- The lines that rows make up. A row that ends inside quotes is continued by the next one; where
there is none, `before` is no line. -/
def joinRows (p : LinePlace) (before : Text) : List Text → List Text
  | [] => []
  | row :: rest =>
    if before = [] ∧ (trimStart row).head? = some '#' then joinRows .plain [] rest
    else
      match scan p row with
      | (kept, none) | (kept, some .plain) => (before ++ kept) :: joinRows .plain [] rest
      | (kept, some q) => joinRows q (before ++ kept) rest

/-! ### Variables -/

/-- Whether a character may stand in the name of a variable. -/
def isNameChar (c : Char) : Bool := c.isAlphanum || c = '_' || c = '.'

/-- The name of a variable, which starts with a letter or an underscore. -/
def readName (t : Text) : Option (Text × Text) :=
  if t.head?.any fun c => c.isAlpha || c = '_' then
    some (t.takeWhile isNameChar, t.dropWhile isNameChar)
  else none

/-- The text behind an equals sign, without the blanks around the sign. -/
def afterEquals? (t : Text) : Option Text := (after? ['='] (trimStart t)).map trimStart

/-- The word that may stand before a name. -/
def exportWord : Text := "export".toList

/-- The name of a variable and what stands behind the equals sign. The word `export` is a name only
where an equals sign follows. -/
def cutVariable? (t : Text) : Option (Text × Text) := do
  let (name, r) ← readName t
  match afterEquals? r with
  | some raw => return (name, raw)
  | none =>
    if name = exportWord then
      let (name, r) ← readName (trimStart r)
      return (name, ← afterEquals? r)
    else none

/-! ### Values -/

/-- Where in a value a character stands. The truth value `weak` says whether that is inside double
quotes. -/
inductive ValuePlace where
  /-- Outside names and single quotes. -/
  | plain (weak : Bool)
  /-- Behind a backslash. -/
  | escaped (weak : Bool)
  /-- Inside single quotes. -/
  | strong
  /-- In the name of a variable behind a dollar sign. -/
  | name (weak : Bool) (start : Text)
  /-- In the name of a variable in braces. -/
  | bracedName (weak : Bool) (start : Text)
  /-- Behind the blank that ends the value. -/
  | ended
  /-- In a comment. -/
  | comment
  deriving DecidableEq

/-- The character that one behind a backslash stands for. -/
def escapedChar? (c : Char) : Option Char :=
  if c = 'n' then some '\n' else if c ∈ ['\\', '\'', '"', '$', ' '] then some c else none

/-- The place behind a character outside names and single quotes, and what it adds to the value. -/
def plainStep (weak : Bool) (c : Char) : ValuePlace × Text :=
  if c = '$' then (.name weak [], [])
  else if c = '\\' then (.escaped weak, [])
  else if c = '"' then (.plain !weak, [])
  else if weak then (.plain weak, [c])
  else if c = '\'' then (.strong, [])
  else if c = ' ' ∨ c = '\t' then (.ended, [])
  else (.plain weak, [c])

/-- The place behind a character in a name behind a dollar sign, and what it adds to the value. -/
def nameStep (lookup : Text → Text) (weak : Bool) (start : Text) (c : Char) :
    ValuePlace × Text :=
  if isAlphanumeric c then (.name weak (start ++ [c]), [])
  else if c = '{' ∧ start = [] then (.bracedName weak [], [])
  else if c = '$' then (.name weak [], lookup start)
  else (.plain weak, lookup start ++ [c])

/-- The place behind a character, if it may stand there, and what it adds to the value. -/
def ValuePlace.next? (lookup : Text → Text) (c : Char) : ValuePlace → Option (ValuePlace × Text)
  | plain weak => some (plainStep weak c)
  | escaped weak => (escapedChar? c).map fun d => (plain weak, [d])
  | strong => some (if c = '\'' then (plain false, []) else (strong, [c]))
  | name weak start => some (nameStep lookup weak start c)
  | bracedName weak start =>
    some (if c = '}' then (plain weak, lookup start) else (bracedName weak (start ++ [c]), []))
  | ended =>
    if c = ' ' ∨ c = '\t' then some (ended, []) else if c = '#' then some (comment, []) else none
  | comment => some (comment, [])

/-- What the end of a value adds to it, if it may end there. -/
def ValuePlace.finish? (lookup : Text → Text) : ValuePlace → Option Text
  | name false start => some (lookup start)
  | plain false | escaped false | ended | comment => some []
  | _ => none

/-- The value that a text stands for. -/
def expand? (lookup : Text → Text) (p : ValuePlace) : Text → Option Text
  | [] => p.finish? lookup
  | c :: r =>
    match p.next? lookup c with
    | none => none
    | some (next, added) => (expand? lookup next r).map (added ++ ·)

/-- The value of what stands behind an equals sign. A number sign at its start is a comment. -/
def valueOf? (lookup : Text → Text) (raw : Text) : Option Text :=
  if raw.head? = some '#' then some [] else expand? lookup (.plain false) raw

/-! ### Loading -/

/-- The environment with the variables of lines, up to the first malformed line. -/
def addLines (env : Environment) : List Text → Environment
  | [] => env
  | line :: rest =>
    if trim line = [] ∨ (trim line).head? = some '#' then addLines env rest
    else
      match cutVariable? (trim line) with
      | none => env
      | some (name, raw) =>
        match valueOf? (fun other => (env.get? other).getD []) raw with
        | none => env
        | some value => addLines (env.extend name value) rest

/-- The environment with the variables of a file. -/
def addTo (env : Environment) (file : Text) : Environment :=
  addLines env (joinRows .plain [] (rows (dropByteOrderMark file)))

/-- No line takes a variable's value away. -/
theorem get?_addLines {env : Environment} {name value : Text} (h : env.get? name = some value)
    (lines : List Text) : (addLines env lines).get? name = some value := by
  induction lines generalizing env with
  | nil => exact h
  | cons line rest ih =>
    rw [addLines]
    split
    · exact ih h
    split
    next => exact h
    split
    next => exact h
    next new _ v _ =>
      refine ih ?_
      rw [Environment.get?_extend]
      split
      next heq => rw [← heq, h]; rfl
      next => exact h

end VariableFile

end ApiSurface
