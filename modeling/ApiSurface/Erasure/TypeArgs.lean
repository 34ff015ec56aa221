import ApiSurface.Text.Basic

/-!
# Type arguments

The type arguments of a type stand in angle brackets behind its name. `strip` takes them away
and `splitTypeArgs` lists them.

Main statements: `strip_eq_self_iff` says which texts `strip` leaves alone, `strip_strip` that a
second removal finds nothing, and `intercalate_splitTypeArgs` that the listed arguments make up
the list.
-/

namespace ApiSurface

open Text

/-! ### Removal -/

/-- Whether a character is no angle bracket. -/
def isInner (c : Char) : Bool := c ≠ '<' && c ≠ '>'

/-- What follows the closing bracket, where the text before it is not empty and has no angle
brackets. -/
def behindGroup? (t : Text) : Option Text :=
  match t.dropWhile isInner with
  | '>' :: rest => if t.takeWhile isInner = [] then none else some rest
  | _ => none

/-- The text without its first innermost group: an opening bracket, at least one other character
and a closing bracket, with no angle bracket between them. -/
def removeGroup? : Text → Option Text
  | [] => none
  | c :: r =>
    match if c = '<' then behindGroup? r else none with
    | some rest => some rest
    | none => (removeGroup? r).map (c :: ·)

theorem behindGroup?_eq_some_iff {t rest : Text} :
    behindGroup? t = some rest ↔
      ∃ inside, t = inside ++ '>' :: rest ∧ inside ≠ [] ∧ ∀ c ∈ inside, isInner c = true := by
  unfold behindGroup?
  constructor
  · intro h
    split at h
    next r heq =>
      split at h
      next => simp at h
      next hne =>
        obtain rfl := Option.some.inj h
        refine ⟨t.takeWhile isInner, ?_, hne, List.all_eq_true.1 List.all_takeWhile⟩
        rw [← heq, List.takeWhile_append_dropWhile]
    next => simp at h
  · rintro ⟨inside, rfl, hne, hall⟩
    rw [List.dropWhile_append_of_pos hall, List.takeWhile_append_of_pos hall]
    simp [isInner, hne]

theorem length_lt_of_behindGroup? {t rest : Text} (h : behindGroup? t = some rest) :
    rest.length < t.length := by
  obtain ⟨inside, rfl, -⟩ := behindGroup?_eq_some_iff.1 h
  simp only [List.length_append, List.length_cons]
  omega

theorem length_lt_of_removeGroup? {t rest : Text} (h : removeGroup? t = some rest) :
    rest.length < t.length := by
  induction t generalizing rest with
  | nil => simp [removeGroup?] at h
  | cons c r ih =>
    unfold removeGroup? at h
    split at h
    next r' heq =>
      obtain rfl := Option.some.inj h
      split at heq
      next => exact Nat.lt_succ_of_lt (length_lt_of_behindGroup? heq)
      next => simp at heq
    next =>
      obtain ⟨r', hr, rfl⟩ := Option.map_eq_some_iff.1 h
      simpa using ih hr

/-- The text without its type arguments: groups are removed until there is none. Brackets that
stand alone or enclose nothing stay. -/
def strip (t : Text) : Text :=
  match _h : removeGroup? t with
  | some rest => strip rest
  | none => t
termination_by t.length
decreasing_by exact length_lt_of_removeGroup? _h

theorem removeGroup?_strip (t : Text) : removeGroup? (strip t) = none := by
  fun_induction strip t with
  | case1 _ _ _ ih => exact ih
  | case2 _ h => exact h

theorem strip_of_removeGroup?_eq_none {t : Text} (h : removeGroup? t = none) : strip t = t := by
  unfold strip
  split
  next h' => simp [h] at h'
  next => rfl

theorem strip_eq_self_iff {t : Text} : strip t = t ↔ removeGroup? t = none :=
  ⟨fun h => h ▸ removeGroup?_strip t, strip_of_removeGroup?_eq_none⟩

@[simp] theorem strip_strip (t : Text) : strip (strip t) = strip t :=
  strip_of_removeGroup?_eq_none (removeGroup?_strip t)

/-! ### Listing -/

/-- The count of open brackets after a character. It has 32 bits and a sign: it is negative where a
bracket too many is closed, and it wraps around. -/
def countAfter (count : BitVec 32) (c : Char) : BitVec 32 :=
  if c = '<' then count + 1 else if c = '>' then count - 1 else count

/-- The pieces of a text between the commas where no bracket is counted as open. In front of the
text, the count is `count`. -/
def splitAtZero (count : BitVec 32) : Text → List Text
  | [] => [[]]
  | c :: r =>
    if c = ',' ∧ count = 0 then [] :: splitAtZero count r
    else consHead c (splitAtZero (countAfter count c) r)

/-- The text between an angle bracket at the start and one at the end. -/
def insideBrackets? : Text → Option Text
  | '<' :: r => dropEnd? '>' r
  | _ => none

/-- The arguments in a list of type arguments, as they stand between the commas. A text without
brackets around it has none. -/
def splitTypeArgs (t : Text) : List Text :=
  match insideBrackets? t with
  | none | some [] => []
  | some inside => splitAtZero 0 inside

@[simp] theorem splitAtZero_ne_nil (count : BitVec 32) (t : Text) : splitAtZero count t ≠ [] := by
  cases t with
  | nil => simp [splitAtZero]
  | cons c r => unfold splitAtZero; split <;> simp

theorem intercalate_splitAtZero (count : BitVec 32) (t : Text) :
    [','].intercalate (splitAtZero count t) = t := by
  induction t generalizing count with
  | nil => rfl
  | cons c r ih =>
    unfold splitAtZero
    split
    next h => rw [intercalate_nil_cons _ (splitAtZero_ne_nil _ _), ih, h.1]; rfl
    next => rw [intercalate_consHead _ _ (splitAtZero_ne_nil _ _), ih]

/-- The arguments with commas between them are the text between the brackets. -/
theorem intercalate_splitTypeArgs {t inside : Text} (h : insideBrackets? t = some inside) :
    [','].intercalate (splitTypeArgs t) = inside := by
  rw [splitTypeArgs, h]
  split
  next h' => simp at h'
  next h' => simp_all [List.intercalate]
  next h' => rw [← Option.some.inj h', intercalate_splitAtZero]

end ApiSurface
