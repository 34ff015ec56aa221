import ApiSurface.Settings.Value

/-!
# Tables in TOML

While a document is read, a name stands for a value, for a table or for an array of tables. How a
table came about decides what may be added to it: a table with a header of its own gets no second
one and cannot be reached by dotted keys, and a table that dotted keys made gets no header.
-/

namespace ApiSurface

namespace Toml

/-- How a table came about. -/
inductive Origin where
  /-- By its own header. -/
  | header
  /-- By the header of a table inside it. -/
  | outer
  /-- By a dotted key. -/
  | dotted
  deriving DecidableEq

/-- What a name stands for. -/
inductive Node where
  /-- A value. -/
  | value (v : SettingValue)
  /-- A table with its names. -/
  | table (origin : Origin) (fields : List (Text × Node))
  /-- An array of tables, of which only the latest can still change. -/
  | tables (earlier : List SettingValue) (latest : List (Text × Node))
  deriving Inhabited

/-- The names of a table, in their order. -/
abbrev Fields := List (Text × Node)

/-- What a name stands for in a table. -/
def nodeOf? (name : Text) (fields : Fields) : Option Node :=
  (fields.find? (·.1 = name)).map (·.2)

namespace Node

mutual

/-- The value that a name ends up with. -/
def toValue : Node → SettingValue
  | value v => v
  | table _ fields => .group (valuesOf fields)
  | tables earlier latest => .list (earlier ++ [.group (valuesOf latest)])

/-- The values of the names of a table. -/
def valuesOf : List (Text × Node) → List (Text × SettingValue)
  | [] => []
  | (name, n) :: rest => (name, n.toValue) :: valuesOf rest

end

/-- Changes the table that a name stands for; of an array of tables the latest. -/
def mapFields? (f : Fields → Option Fields) : Node → Option Node
  | value _ => none
  | table origin fields => (f fields).map (table origin)
  | tables earlier latest => (f latest).map (tables earlier)

/-- What a header finds or makes under a name on the way to its table. -/
def enterByHeader : Option Node → Option Node
  | none => some (table .outer [])
  | some n => some n

/-- What a dotted key finds or makes under a name on its way. -/
def enterByKey : Option Node → Option Node
  | none => some (table .dotted [])
  | some (table .header _) => none
  | some n => some n

/-- What the header of a table makes of its name. -/
def openTable : Option Node → Option Node
  | none => some (table .header [])
  | some (table .outer fields) => some (table .header fields)
  | some _ => none

/-- What the header of an array of tables makes of its name. -/
def openTables : Option Node → Option Node
  | none => some (tables [] [])
  | some (tables earlier latest) => some (tables (earlier ++ [.group (valuesOf latest)]) [])
  | some _ => none

end Node

/-! ### Changes at a path -/

/-- Changes what the last name of a path stands for. All other names of it are entered with
`enter`. -/
def alter (enter change : Option Node → Option Node) : SettingPath → Fields → Option Fields
  | [], _ => none
  | [name], fields => (change (nodeOf? name fields)).map fun n => insertEntry name n fields
  | name :: path, fields =>
    ((enter (nodeOf? name fields)).bind (Node.mapFields? (alter enter change path))).map
      fun n => insertEntry name n fields

/-- A value for a name that has none yet. -/
def addValue (name : Text) (v : SettingValue) (fields : Fields) : Option Fields :=
  if (nodeOf? name fields).isSome then none else some (insertEntry name (.value v) fields)

/-- A value for the last name of a dotted key. The names before it lead to a table that dotted keys
made. -/
def assign (path : SettingPath) (v : SettingValue) (fields : Fields) : Option Fields :=
  path.getLast?.bind fun name =>
    let addTo : Option Node → Option Node := fun node =>
      match node.getD (.table .dotted []) with
      | .table .dotted inner => (addValue name v inner).map (.table .dotted)
      | _ => none
    if path.length = 1 then addValue name v fields
    else alter Node.enterByKey addTo path.dropLast fields

/-- The group of values that dotted keys are given, if no name gets two. -/
def groupOf? (assignments : List (SettingPath × SettingValue)) : Option SettingValue :=
  (assignments.foldlM (fun fields e => assign e.1 e.2 fields) []).map fun fields =>
    .group (Node.valuesOf fields)

end Toml

end ApiSurface
