import ApiSurface.Text.Basic
import ApiSurface.Sorted.Map

/-!
# Values of settings

What a source of settings says is a tree: groups of named values, with single values and lists at
their ends. Two sources together say what the later one says, except that a group of the later one
is merged into a group of the earlier one, name by name.

Main statement: `field?_merge_group` says which value a name has after a group was merged in.
-/

namespace ApiSurface

/-- The place of a value: the names of the groups around it and its own. -/
abbrev SettingPath := List Text

/-- A value that a source gives. -/
inductive SettingValue where
  /-- A truth value. -/
  | bool (b : Bool)
  /-- A text. -/
  | text (t : Text)
  /-- A number or a value of another form, which no setting can have. -/
  | other
  /-- A list of values. -/
  | list (items : List SettingValue)
  /-- Named values, in the order of their names. -/
  | group (fields : List (Text × SettingValue))
  deriving Inhabited

namespace SettingValue

/-- The value of a name among named values. -/
def fieldIn? (name : Text) (fields : List (Text × SettingValue)) : Option SettingValue :=
  (fields.find? (·.1 = name)).map (·.2)

/-- The value of a name in a group. -/
def field? (name : Text) : SettingValue → Option SettingValue
  | group fields => fieldIn? name fields
  | _ => none

/-- The group of named values, of which the last counts where two have the same name. -/
def ofFields (fields : List (Text × SettingValue)) : SettingValue :=
  group (fields.foldl (fun sorted e => insertEntry e.1 e.2 sorted) [])

/-- The value at a path: groups of one name each around it. -/
def atPath (path : SettingPath) (v : SettingValue) : SettingValue :=
  path.foldr (fun name v => group [(name, v)]) v

mutual

/-- What two sources say together, the second after the first. -/
def merge (a : SettingValue) : SettingValue → SettingValue
  | group fields =>
    match a with
    | group base => group (mergeFields base fields)
    | _ => group fields
  | b => b

/-- Named values with those of a later source. -/
def mergeFields (base : List (Text × SettingValue)) :
    List (Text × SettingValue) → List (Text × SettingValue)
  | [] => base
  | (name, v) :: rest =>
    let merged :=
      match fieldIn? name base with
      | some old => merge old v
      | none => v
    insertEntry name merged (mergeFields base rest)

end

/-- What sources say together, of which the first comes before all others. -/
def stack (sources : List SettingValue) : SettingValue :=
  sources.foldr (fun v below => below.merge v) (group [])

/-! ### Laws -/

theorem fieldIn?_insertEntry (k : Text) (v : SettingValue) (l : List (Text × SettingValue))
    (name : Text) :
    fieldIn? name (insertEntry k v l) = if name = k then some v else fieldIn? name l := by
  rw [fieldIn?, find?_insertEntry]
  split <;> rfl

/-- A name has in merged groups the value of the later one, merged into the value of the earlier
one where both have one. -/
theorem fieldIn?_mergeFields (base fields : List (Text × SettingValue)) (name : Text) :
    fieldIn? name (mergeFields base fields) =
      match fieldIn? name fields with
      | some v => some (((fieldIn? name base).map (merge · v)).getD v)
      | none => fieldIn? name base := by
  induction fields with
  | nil => rfl
  | cons e rest ih =>
    obtain ⟨k, v⟩ := e
    rw [mergeFields, fieldIn?_insertEntry, ih]
    by_cases hk : name = k
    · subst hk
      have here : fieldIn? name ((name, v) :: rest) = some v := by simp [fieldIn?]
      rw [if_pos rfl, here]
      cases fieldIn? name base <;> rfl
    · have other : fieldIn? name ((k, v) :: rest) = fieldIn? name rest := by
        simp [fieldIn?, Ne.symm hk]
      rw [if_neg hk, other]

theorem field?_merge_group (a : SettingValue) (fields : List (Text × SettingValue)) (name : Text) :
    (a.merge (group fields)).field? name =
      match fieldIn? name fields with
      | some v => some (((a.field? name).map (merge · v)).getD v)
      | none => a.field? name := by
  rcases a with _ | _ | _ | _ | base
  case group => exact fieldIn?_mergeFields base fields name
  all_goals
    rw [merge.eq_def]
    change fieldIn? name fields = _
    cases fieldIn? name fields <;> rfl

end SettingValue

end ApiSurface
