import ApiSurface.Proofs.Line.Token
import ApiSurface.Settings.Load

/-!
# Which source a setting comes from

A setting may be given by the environment, by the file of the project and by the file of the user,
and it has a default. A source says something of a setting if it has a value for it, or a value that
is no group where the section of the setting would be; the first source that does decides. Groups of
several sources are merged, so that a source decides only about the names that it has.

Main statements: `at?_merge` and `at?_stack` say which of two and which of several sources decides
what stands at a path, `Settings.load_eq_ok_iff` from which source each setting is taken, and
`get?_allVariables` that the file of variables changes no variable of the environment.
-/

namespace ApiSurface

namespace SettingValue

/-! ### Paths -/

/-- The value at a path, which leads through groups only. -/
def at? : SettingPath → SettingValue → Option SettingValue
  | [], v => some v
  | name :: path, v => (v.field? name).bind (at? path)

/-- Whether a source says nothing of a path: only groups lead there, and one of them does not have
the next name. A value of another form on the way says that there is nothing at the path. -/
def isSilentOn : SettingPath → SettingValue → Bool
  | name :: path, group fields => (fieldIn? name fields).all (isSilentOn path)
  | _, _ => false

/-- What stands at a path in the first source that says something of it. -/
def firstAt? (path : SettingPath) (sources : List SettingValue) : Option SettingValue :=
  (sources.find? fun v => !v.isSilentOn path).bind (at? path)

/-- A value without the names in it, where it is a group. -/
def face : SettingValue → SettingValue
  | group _ => group []
  | v => v

@[simp] theorem at?_singleton (name : Text) (v : SettingValue) : v.at? [name] = v.field? name := by
  rw [at?]
  cases v.field? name <;> rfl

theorem face_merge (a b : SettingValue) : (a.merge b).face = b.face := by
  cases b <;> cases a <;> rfl

/-- Values that look the same are equal, or both are groups. -/
theorem eq_or_group_of_face_eq {v w : SettingValue} (h : v.face = w.face) :
    v = w ∨ ∃ f g, v = group f ∧ w = group g := by
  cases v <;> cases w <;> simp_all [face]

theorem at?_of_isSilentOn {path : SettingPath} {v : SettingValue} (h : v.isSilentOn path = true) :
    v.at? path = none := by
  induction path generalizing v with
  | nil => simp [isSilentOn] at h
  | cons name path ih =>
    rcases v with _ | _ | _ | _ | fields
    case group =>
      rw [isSilentOn] at h
      rw [at?, field?]
      rcases hv : fieldIn? name fields with _ | w
      · rfl
      · rw [hv] at h
        exact ih h
    all_goals rfl

/-- Of two sources the later one decides what stands at a path, unless it says nothing of it. Of a
group at the path this says only that it is one, since groups of both sources are merged. -/
theorem at?_merge (a b : SettingValue) (path : SettingPath) :
    ((a.merge b).at? path).map face = ((if b.isSilentOn path then a else b).at? path).map face := by
  induction path generalizing a b with
  | nil => simp [at?, isSilentOn, face_merge]
  | cons name path ih =>
    rcases b with _ | _ | _ | _ | fields
    case group =>
      rw [at?, field?_merge_group, isSilentOn]
      rcases hv : fieldIn? name fields with _ | v
      · rfl
      -- What `v` says of the rest of the path, `b` says of the whole.
      have hb : (group fields).at? (name :: path) = v.at? path := by rw [at?, field?, hv]; rfl
      rcases hold : a.field? name with _ | old
      · have ha : a.at? (name :: path) = none := by rw [at?, hold]; rfl
        rcases hs : v.isSilentOn path with _ | _
        · simp [hs, hb]
        · simp [hs, ha, at?_of_isSilentOn hs]
      · have ha : a.at? (name :: path) = old.at? path := by rw [at?, hold]; rfl
        have := ih old v
        rcases hs : v.isSilentOn path with _ | _ <;> simpa [hs, ha, hb] using this
    all_goals rfl

/-- Of any number of sources the first that says something of a path decides what stands there. -/
theorem at?_stack (sources : List SettingValue) (name : Text) (path : SettingPath) :
    ((stack sources).at? (name :: path)).map face =
      (firstAt? (name :: path) sources).map face := by
  induction sources with
  | nil => rfl
  | cons v below ih =>
    rw [stack, List.foldr_cons, at?_merge, firstAt?, List.find?_cons]
    rcases hs : v.isSilentOn (name :: path) with _ | _
    · simp
    · simpa [firstAt?, stack] using ih

theorem isSection_eq_of_face {v w : SettingValue} (h : v.face = w.face) :
    v.isSection = w.isSection := by
  rcases eq_or_group_of_face_eq h with rfl | ⟨f, g, rfl, rfl⟩ <;> rfl

end SettingValue

/-! ### Settings -/

open SettingValue

namespace Setting

variable {α : Type} {k : Setting α} {sources : List SettingValue} {a : α}

/-- What the sources give for a setting, those of higher priority first. Where the section is a
list, that list alone gives it; otherwise the first source that says something of its path. -/
def given? (k : Setting α) (sources : List SettingValue) : Option SettingValue :=
  match firstAt? [k.sectionName] sources with
  | some (list items) => items[k.index]?
  | _ => firstAt? [k.sectionName, k.name] sources

/-- That a setting has its value from given sources, those of higher priority first. -/
structure IsFrom (k : Setting α) (sources : List SettingValue) (a : α) : Prop where
  /-- The first source that says something of the section has a group or a list there. -/
  hasSection : ∀ v, firstAt? [k.sectionName] sources = some v → v.isSection = true
  /-- The value is read from what the sources give, or the default if they give nothing. -/
  isRead : ((k.given? sources).map k.read).getD (.ok k.default) = .ok a

theorem read_eq_ok_iff_of_face {v w : SettingValue} (h : v.face = w.face) :
    k.read v = .ok a ↔ k.read w = .ok a := by
  rcases eq_or_group_of_face_eq h with rfl | ⟨f, g, rfl, rfl⟩
  · rfl
  · simp [k.read_group]

theorem getD_read_eq_ok_iff_of_face {x y : Option SettingValue} (h : x.map face = y.map face) :
    (x.map k.read).getD (.ok k.default) = .ok a ↔
      (y.map k.read).getD (.ok k.default) = .ok a := by
  rcases x with _ | v <;> rcases y with _ | w
  · rfl
  · cases h
  · cases h
  · exact read_eq_ok_iff_of_face (Option.some.inj h)

theorem of_eq_ok_iff {v : SettingValue} :
    k.of v = .ok a ↔ ∃ s, v.sectionOf k.sectionName = .ok s ∧
      ((s.member? k.index k.name).map k.read).getD (.ok k.default) = .ok a := by
  simp only [of, Line.bind_eq_ok_iff]
  refine exists_congr fun s => and_congr_right fun _ => ?_
  rcases s.member? k.index k.name with _ | w
  · simp
  · exact mapError_eq_ok_iff

theorem exists_sectionOf_stack_iff {name : Text} :
    (∃ s, (stack sources).sectionOf name = .ok s) ↔
      ∀ v, firstAt? [name] sources = some v → v.isSection = true := by
  have h := at?_stack sources name []
  rw [at?_singleton] at h
  rw [sectionOf]
  generalize (stack sources).field? name = x at h ⊢
  generalize firstAt? [name] sources = y at h ⊢
  rcases x with _ | w <;> rcases y with _ | v
  · simp
  · cases h
  · cases h
  · have hsame : w.isSection = v.isSection := isSection_eq_of_face (Option.some.inj h)
    cases hw : w.isSection <;> simp [hw, ← hsame]

theorem map_face_given? {s : SettingValue} (h : (stack sources).sectionOf k.sectionName = .ok s) :
    (k.given? sources).map face = (s.member? k.index k.name).map face := by
  have hsection := at?_stack sources k.sectionName []
  have hmember := at?_stack sources k.sectionName [k.name]
  rw [at?_singleton] at hsection
  rw [at?] at hmember
  rw [sectionOf] at h
  rcases hw : (stack sources).field? k.sectionName with _ | w <;> rw [hw] at h hsection hmember
  · obtain rfl := Except.ok.inj h
    rw [given?, show firstAt? [k.sectionName] sources = none by simpa using hsection.symm]
    exact hmember.symm
  obtain ⟨v, hv, hface⟩ := Option.map_eq_some_iff.1 hsection.symm
  rcases w with _ | _ | _ | items | fields
  case list =>
    obtain rfl := Except.ok.inj h
    obtain rfl : v = list items := by simpa [face] using eq_or_group_of_face_eq hface
    rw [given?, hv, member?]
  case group =>
    obtain rfl := Except.ok.inj h
    have hgiven : k.given? sources = firstAt? [k.sectionName, k.name] sources := by
      rcases eq_or_group_of_face_eq hface with rfl | ⟨g, _, rfl, _⟩ <;> rw [given?, hv]
    rw [hgiven, ← hmember, Option.bind_some, at?_singleton]
    rfl
  all_goals cases h

/-- A setting has its value from the first source that says something of it. -/
theorem of_stack_eq_ok_iff : k.of (stack sources) = .ok a ↔ k.IsFrom sources a := by
  rw [of_eq_ok_iff]
  constructor
  · rintro ⟨s, hs, h⟩
    exact ⟨exists_sectionOf_stack_iff.1 ⟨s, hs⟩,
      (getD_read_eq_ok_iff_of_face (map_face_given? hs)).2 h⟩
  · intro h
    obtain ⟨s, hs⟩ := exists_sectionOf_stack_iff.2 h.hasSection
    exact ⟨s, hs, (getD_read_eq_ok_iff_of_face (map_face_given? hs)).1 h.isRead⟩

end Setting

/-- That settings come from given sources, those of higher priority first. -/
structure Settings.AreFrom (t : Settings) (sources : List SettingValue) : Prop where
  /-- What type parameters without a bound are erased to. -/
  unboundPolicy : Setting.unboundPolicy.IsFrom sources t.unboundPolicy
  /-- Whether exceptions are left out of account. -/
  binaryCompatibility : Setting.binaryCompatibility.IsFrom sources t.merge.binaryCompatibility
  /-- Whether fields have to agree on their constants. -/
  trackConstantValues : Setting.trackConstantValues.IsFrom sources t.merge.trackConstantValues
  /-- Whether constants of fields that are not static are kept. -/
  trackNonStaticConstants :
    Setting.trackNonStaticConstants.IsFrom sources t.merge.trackNonStaticConstants

theorem Settings.ofValue_stack_eq_ok_iff {sources : List SettingValue} {t : Settings} :
    Settings.ofValue (stack sources) = .ok t ↔ t.AreFrom sources := by
  simp only [ofValue, Line.bind_eq_ok_iff, Setting.of_stack_eq_ok_iff]
  constructor
  · rintro ⟨_, hpolicy, _, hcompatible, _, hconstants, _, hinstance, ⟨⟩⟩
    exact ⟨hpolicy, hcompatible, hconstants, hinstance⟩
  · exact fun h => ⟨_, h.unboundPolicy, _, h.binaryCompatibility, _, h.trackConstantValues, _,
      h.trackNonStaticConstants, rfl⟩

/-- Settings are loaded exactly if the files can be read and every setting has a value from the
environment, the file of the project, the file of the user and the defaults, in this order. -/
theorem Settings.load_eq_ok_iff {s : SettingSources} {t : Settings} :
    Settings.load s = .ok t ↔ ∃ sources, s.values = .ok sources ∧ t.AreFrom sources := by
  simp only [load, Line.bind_eq_ok_iff, ofValue_stack_eq_ok_iff]

/-- Without sources all settings have their defaults. -/
example : Settings.load {} = .ok {} := rfl

/-! ### Variables -/

/-- Of the variables that hold settings the last that says something of a path decides. -/
theorem Environment.at?_value (env : Environment) (name : Text) (path : SettingPath) :
    (env.value.at? (name :: path)).map face =
      (firstAt? (name :: path) (env.reverse.filterMap settingOf?)).map face := by
  rw [value_eq_stack]
  exact at?_stack _ name path

/-- A variable of the environment keeps its value, whatever the file of variables says. -/
theorem SettingSources.get?_allVariables {s : SettingSources} {name value : Text}
    (h : s.environment.get? name = some value) : s.allVariables.get? name = some value := by
  rw [allVariables]
  split
  · exact VariableFile.get?_addLines h _
  · exact h

end ApiSurface
