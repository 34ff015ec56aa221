import ApiSurface.Settings.Value

/-!
# Reserved names

Two names have a meaning of their own in the tables of a settings file. A table that has the first
of them stands for the value under that name; all else in it counts for nothing. The second one is
nowhere allowed. The names outside all tables are free.
-/

namespace ApiSurface

namespace SettingValue

/-- The name of the value that a table stands for. -/
def valueName : Text := "___figment_value_value".toList

/-- The name that no table may have. -/
def forbiddenName : Text := "___figment_value_id".toList

/-- What named values stand for together, once each of them is resolved. -/
def resolved? (fields : List (Text × SettingValue)) : Option SettingValue :=
  if (fieldIn? forbiddenName fields).isSome then none
  else some ((fieldIn? valueName fields).getD (group fields))

mutual

/-- The value that a value stands for, if no table in it has the forbidden name. -/
def resolve? : SettingValue → Option SettingValue
  | group fields => (resolveAll? fields).bind resolved?
  | list items => (resolveItems? items).map list
  | v => some v

/-- What the values of a list stand for. -/
def resolveItems? : List SettingValue → Option (List SettingValue)
  | [] => some []
  | v :: rest => (resolve? v).bind fun w => (resolveItems? rest).map (w :: ·)

/-- What named values stand for, each under its name. -/
def resolveAll? : List (Text × SettingValue) → Option (List (Text × SettingValue))
  | [] => some []
  | (name, v) :: rest => (resolve? v).bind fun w => (resolveAll? rest).map ((name, w) :: ·)

end

/-- The names outside all tables with what their values stand for. -/
def resolveFields? : SettingValue → Option SettingValue
  | group fields => (resolveAll? fields).map group
  | v => some v

end SettingValue

end ApiSurface
