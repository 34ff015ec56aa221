import ApiSurface.Text.Blank
import ApiSurface.Settings.Toml.Value

/-!
# TOML documents

A document consists of lines. A header in square brackets opens a table, one in double square
brackets opens another table of an array, and an assignment gives a value to a key of the table
that was opened last. Nothing may be said twice.
-/

namespace ApiSurface

open Text

namespace Toml

/-- What was read of a document. -/
structure Document where
  /-- The names outside all tables. -/
  fields : Fields := []
  /-- The path of the table that was opened last. -/
  current : SettingPath := []

namespace Document

/-- Opens the table of a header. -/
def openTable? (path : SettingPath) (d : Document) : Option Document :=
  (alter Node.enterByHeader Node.openTable path d.fields).map fun fields => ⟨fields, path⟩

/-- Opens another table of an array. -/
def openTables? (path : SettingPath) (d : Document) : Option Document :=
  (alter Node.enterByHeader Node.openTables path d.fields).map fun fields => ⟨fields, path⟩

/-- Gives a value to a key of the table that was opened last. -/
def assign? (path : SettingPath) (v : SettingValue) (d : Document) : Option Document :=
  let fields :=
    if d.current = [] then assign path v d.fields
    else
      alter Node.enterByHeader (fun node => node.bind (Node.mapFields? (assign path v))) d.current
        d.fields
  fields.map fun fields => ⟨fields, d.current⟩

/-- The value of a document. -/
def toValue (d : Document) : SettingValue := .group (Node.valuesOf d.fields)

/-! ### Reading -/

/-- A header up to the end of its line, read from behind its opening brackets. -/
def readHeader (closing : Text) : Reader SettingPath := fun t => do
  let (path, r) ← readKey t
  return (path, ← afterLine? (← after? closing r))

/-- One line; an assignment may extend over several. -/
def readLine (d : Document) : Reader Document := fun t =>
  match afterLine? t, after? "[[".toList (skipSpace t), after? ['['] (skipSpace t) with
  | some rest, _, _ => some (d, rest)
  | none, some r, _ => do
    let (path, rest) ← readHeader "]]".toList r
    return (← d.openTables? path, rest)
  | none, none, some r => do
    let (path, rest) ← readHeader [']'] r
    return (← d.openTable? path, rest)
  | none, none, none => do
    let ((path, v), r) ← readAssignment (readValue depthLimit) t
    return (← d.assign? path v, ← afterLine? r)

end Document

/-- The value of the text of a document, if it is well-formed. -/
def read? (t : Text) : Option SettingValue :=
  (readAll Document.readLine {} (dropByteOrderMark t)).map Document.toValue

end Toml

end ApiSurface
