import ApiSurface.Text.Digits

/-!
# Dates and times in TOML

A date, a time, or both with or without an offset from universal time. All parts are numbers of a
fixed width within their bounds; a month has the days that the calendar gives it.
-/

namespace ApiSurface

open Text

namespace Toml

/-- The number of so many digits at the front of a text, if it lies between two bounds, and the
rest. -/
def readPart (width lower upper : Nat) (t : Text) : Option (Nat × Text) :=
  let digits := t.take width
  let n := ofDigits 10 digits 0
  if digits.length = width ∧ digits.all (isDigitIn 10) ∧ lower ≤ n ∧ n ≤ upper then
    some (n, t.drop width)
  else none

/-- Whether a year has a 29th of February. -/
def isLeapYear (year : Nat) : Bool := year % 4 = 0 && (year % 100 ≠ 0 || year % 400 = 0)

/-- The number of days of a month. -/
def daysOf (year month : Nat) : Nat :=
  if month = 2 then if isLeapYear year then 29 else 28
  else if month ∈ [4, 6, 9, 11] then 30
  else 31

/-- The text behind a date. -/
def afterDate? (t : Text) : Option Text := do
  let (year, r) ← readPart 4 0 9999 t
  let (month, r) ← readPart 2 1 12 (← after? ['-'] r)
  let (_, r) ← readPart 2 1 (daysOf year month) (← after? ['-'] r)
  return r

/-- The text behind an hour and a minute. -/
def afterMinute? (t : Text) : Option Text := do
  let (_, r) ← readPart 2 0 23 t
  let (_, r) ← readPart 2 0 59 (← after? [':'] r)
  return r

/-- The text behind a time. A second may be a leap second, and it may have a fraction. -/
def afterTime? (t : Text) : Option Text := do
  let (_, r) ← readPart 2 0 60 (← after? [':'] (← afterMinute? t))
  match after? ['.'] r with
  | none => return r
  | some fraction =>
    let rest := fraction.dropWhile (isDigitIn 10)
    if rest.length < fraction.length then some rest else none

/-- Whether a text is an offset from universal time. -/
def isOffset : Text → Bool
  | [] => false
  | c :: r => if c = '+' ∨ c = '-' then afterMinute? r = some [] else (c = 'Z' ∨ c = 'z') ∧ r = []

/-- Whether a text is a date alone. -/
def isDate (t : Text) : Bool := afterDate? t = some []

/-- Whether a text is a time, with an offset if that is allowed. -/
def isTime (mayHaveOffset : Bool) (t : Text) : Bool :=
  match afterTime? t with
  | some r => r = [] || (mayHaveOffset && isOffset r)
  | none => false

/-- Whether a word is a date, a time, or both with a `T` between them. -/
def isDateOrTime (word : Text) : Bool :=
  isTime false word ||
    match afterDate? word with
    | some (c :: r) => (c == 'T' || c == 't') && isTime true r
    | some [] => true
    | none => false

end Toml

end ApiSurface
