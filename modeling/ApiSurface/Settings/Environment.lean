import ApiSurface.Text.Blank
import ApiSurface.Settings.Literal

/-!
# Settings in the environment

A variable whose name starts with `SIGMERGE_`, in upper or lower case, holds a setting: the rest
of the name is the path, in lower case, with a dot or two underscores between the names of groups.

Main statement: `value_eq_stack` says that each variable is a source of its own, and that later
ones come before earlier ones.
-/

namespace ApiSurface

open Text

/-- The variables of an environment, with their values. -/
abbrev Environment := List (Text × Text)

namespace Environment

/-- The value of a variable. -/
def get? (env : Environment) (name : Text) : Option Text :=
  (env.find? (·.1 = name)).map (·.2)

/-- The environment with one variable more, unless it has that variable. -/
def extend (env : Environment) (name value : Text) : Environment :=
  if (env.get? name).isSome then env else env ++ [(name, value)]

/-- The start of the name of a variable that holds a setting, in lower case. -/
def settingTag : Text := "sigmerge_".toList

/-- The path that the name of a variable stands for, if it stands for one. Blanks at the ends do
not count, neither of the name nor of the path, and no name in a path is empty. -/
def pathOf? (name : Text) : Option SettingPath :=
  (after? settingTag ((trim name).map Char.toLower)).bind fun rest =>
    let path := split (· == '.') (trim (replaceAll ['_', '_'] ['.'] rest))
    if [] ∈ path then none else some path

/-- What a variable says, if it holds a setting. -/
def settingOf? (entry : Text × Text) : Option SettingValue :=
  (pathOf? entry.1).map fun path => .atPath path (Literal.ofText entry.2)

/-- What a variable adds to a value. -/
def assign (v : SettingValue) (entry : Text × Text) : SettingValue :=
  match settingOf? entry with
  | some w => v.merge w
  | none => v

/-- The value that the variables make up together, of which later ones win. -/
def value (env : Environment) : SettingValue := env.foldl assign (.group [])

theorem value_eq_stack (env : Environment) :
    env.value = .stack (env.reverse.filterMap settingOf?) := by
  rw [value, List.foldl_eq_foldr_reverse, SettingValue.stack, List.foldr_filterMap]
  congr 1
  funext entry v
  rw [assign]
  cases settingOf? entry <;> rfl

/-- A variable that was added is found, and all others are as before. -/
theorem get?_extend (env : Environment) (name value x : Text) :
    (env.extend name value).get? x =
      if x = name then some ((env.get? name).getD value) else env.get? x := by
  rcases h : env.get? name with _ | old
  · have hnone : env.find? (·.1 = name) = none := by simpa [get?] using h
    rw [extend, h, if_neg (by simp), get?, List.find?_append]
    split
    next hx => simp [hx, hnone]
    next hx => simp [get?, Ne.symm hx]
  · rw [extend, h, if_pos Option.isSome_some]
    split
    next hx => rw [hx, h]; rfl
    next => rfl

end Environment

end ApiSurface
