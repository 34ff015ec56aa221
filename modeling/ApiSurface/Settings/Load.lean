import ApiSurface.Settings.Basic
import ApiSurface.Settings.Reserved
import ApiSurface.Settings.Toml.Document
import ApiSurface.Settings.VariableFile

/-!
# Loading settings

Settings come, in rising priority, from defaults, the file of the user, the file of the project
and the environment. Only the value that wins has to be of the right form.
-/

namespace ApiSurface

/-- Where settings come from. -/
structure SettingSources where
  /-- The text of the file of the user. -/
  user : Option Text := none
  /-- The text of the file of the project. -/
  project : Option Text := none
  /-- The variables of the environment. -/
  environment : Environment := []
  /-- The text of a file with further variables. -/
  environmentFile : Option Text := none

/-- The path of a setting that has a value of the wrong form; of a malformed file the empty
path. -/
structure SettingError where
  /-- The path. -/
  path : SettingPath
  deriving DecidableEq

/-- The path as a text, with dots between the names. -/
def SettingError.key (e : SettingError) : Text := ['.'].intercalate e.path

namespace SettingSources

/-- The value of a file that may be missing. -/
def fileValue (text : Option Text) : Except SettingError SettingValue :=
  match text with
  | none => .ok (.group [])
  | some t =>
    match (Toml.read? t).bind SettingValue.resolveFields? with
    | some v => .ok v
    | none => .error ⟨[]⟩

/-- The environment with the variables of the file. -/
def allVariables (s : SettingSources) : Environment :=
  match s.environmentFile with
  | some t => VariableFile.addTo s.environment t
  | none => s.environment

/-- What the sources say, those of higher priority first. -/
def values (s : SettingSources) : Except SettingError (List SettingValue) := do
  let user ← fileValue s.user
  let project ← fileValue s.project
  return [s.allVariables.value, project, user]

end SettingSources

namespace SettingValue

/-- Whether a value has members: a group by their names, a list by their places. -/
def isSection : SettingValue → Bool
  | group _ | list _ => true
  | _ => false

/-- A member of a section: of a group by its name, of a list by its place. -/
def member? (index : Nat) (name : Text) : SettingValue → Option SettingValue
  | group fields => fieldIn? name fields
  | list items => items[index]?
  | _ => none

/-- What a member of a section is called there. The members of a list are numbered. -/
def memberName (index : Nat) (name : Text) : SettingValue → Text
  | list _ => Nat.toDigits 10 index
  | _ => name

/-- The section of a name; a missing one has no members. -/
def sectionOf (name : Text) (v : SettingValue) : Except SettingError SettingValue :=
  match v.field? name with
  | none => .ok (.group [])
  | some w => if w.isSection then .ok w else .error ⟨[name]⟩

/-- A truth value. -/
def readBool : SettingValue → Except SettingPath Bool
  | bool b => .ok b
  | _ => .error []

/-- A policy for type parameters without a bound. In a group the error lies at the first name. -/
def readPolicy : SettingValue → Except SettingPath UnboundPolicy
  | text t =>
    if t = "object".toList then .ok .object
    else if t = "unresolved".toList then .ok .unresolved
    else .error []
  | group ((name, _) :: _) => .error [name]
  | _ => .error []

end SettingValue

/-- A setting. -/
structure Setting (α : Type) where
  /-- The name of its section. -/
  sectionName : Text
  /-- Its place among the settings of its section. -/
  index : Nat
  /-- Its name there. -/
  name : Text
  /-- Its value where no source gives one. -/
  default : α
  /-- What a given value is read as. An error is the path below the setting at which it lies. -/
  read : SettingValue → Except SettingPath α
  /-- A group is no value of a setting. -/
  read_group : ∀ fields a, read (.group fields) ≠ .ok a

namespace Setting

variable {α : Type}

/-- The value of a setting: what is read at its place, or the default where nothing is there. -/
def of (k : Setting α) (v : SettingValue) : Except SettingError α := do
  let s ← v.sectionOf k.sectionName
  match s.member? k.index k.name with
  | none => .ok k.default
  | some w =>
    (k.read w).mapError fun below => ⟨k.sectionName :: s.memberName k.index k.name :: below⟩

/-- What type parameters without a bound are erased to. -/
def unboundPolicy : Setting UnboundPolicy where
  sectionName := "erasure".toList
  index := 0
  name := "unbound_policy".toList
  default := .unresolved
  read := SettingValue.readPolicy
  read_group fields _ := by cases fields <;> exact nofun

/-- A switch for how members are merged. -/
def mergeSwitch (index : Nat) (name : String) (default : Bool) : Setting Bool where
  sectionName := "merge".toList
  index := index
  name := name.toList
  default := default
  read := SettingValue.readBool
  read_group _ _ := nofun

/-- Whether exceptions are left out of account. -/
def binaryCompatibility : Setting Bool := mergeSwitch 0 "binary_compatibility" false

/-- Whether fields have to agree on their constants. -/
def trackConstantValues : Setting Bool := mergeSwitch 1 "track_constant_values" true

/-- Whether constants of fields that are not static are kept. -/
def trackNonStaticConstants : Setting Bool := mergeSwitch 2 "track_non_static_constants" true

end Setting

/-- The settings that a value gives, checked in the order of their paths. -/
def Settings.ofValue (v : SettingValue) : Except SettingError Settings := do
  let unboundPolicy ← Setting.unboundPolicy.of v
  let binaryCompatibility ← Setting.binaryCompatibility.of v
  let trackConstantValues ← Setting.trackConstantValues.of v
  let trackNonStaticConstants ← Setting.trackNonStaticConstants.of v
  let merge : MergeSettings := { binaryCompatibility, trackConstantValues, trackNonStaticConstants }
  return { merge, unboundPolicy }

/-- The settings of given sources. -/
def Settings.load (s : SettingSources) : Except SettingError Settings := do
  Settings.ofValue (.stack (← s.values))

end ApiSurface
