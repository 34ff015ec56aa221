import ApiSurface.Text.Basic

/-!
# JSON values

The values of the data format, with the fields of an object in the order in which they stand,
and the ways of reading one field of an object.
-/

namespace ApiSurface

/-- A JSON value. -/
inductive Json where
  /-- The value `null`. -/
  | null
  /-- A truth value. -/
  | bool (b : Bool)
  /-- The number `mantissa` divided by ten to the power `places`. -/
  | number (mantissa : Int) (places : Nat)
  /-- A string. -/
  | str (text : Text)
  /-- A list of values. -/
  | arr (items : List Json)
  /-- Named values. -/
  | obj (fields : List (Text × Json))
  deriving Inhabited

namespace Json

/-- The integer as a number. -/
def int (n : Int) : Json := number n 0

/-! ### Reading values -/

/-- The text of a string. -/
def text? : Json → Option Text
  | str t => some t
  | _ => none

/-- A truth value. -/
def bool? : Json → Option Bool
  | bool b => some b
  | _ => none

/-- A word of 32 bits, written as an integer. -/
def word? : Json → Option (BitVec 32)
  | number n 0 => if 0 ≤ n ∧ n < 0x100000000 then some (.ofNat 32 n.toNat) else none
  | _ => none

/-- The values of a list. -/
def items? : Json → Option (List Json)
  | arr items => some items
  | _ => none

/-- The fields of an object. -/
def fields? : Json → Option (List (Text × Json))
  | obj fields => some fields
  | _ => none

/-- What `read` makes of any value but `null`; `null` stands for nothing. -/
def nullable {α : Type} (read : Json → Option α) : Json → Option (Option α)
  | null => some none
  | j => (read j).map some

/-- The value of a field. -/
def lookup? (fields : List (Text × Json)) (name : String) : Option Json :=
  (fields.find? (·.1 = name.toList)).map (·.2)

/-- What `read` makes of a field that has to be there. -/
def required {α : Type} (fields : List (Text × Json)) (name : String) (read : Json → Option α) :
    Option α :=
  (lookup? fields name).bind read

/-- What `read` makes of a field; `default` where the field is missing. -/
def optional {α : Type} (fields : List (Text × Json)) (name : String) (default : α)
    (read : Json → Option α) : Option α :=
  match lookup? fields name with
  | none => some default
  | some j => read j

end Json

end ApiSurface
