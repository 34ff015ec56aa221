import ApiSurface.Text.Basic

/-!
# Digits

Natural numbers written in a base up to sixteen.
-/

namespace ApiSurface

namespace Text

/-- The value of a digit in a base up to sixteen. -/
def digit? (base : Nat) (c : Char) : Option Nat :=
  let n := c.toNat
  let value :=
    if 0x30 ≤ n ∧ n ≤ 0x39 then n - 0x30
    else if 0x41 ≤ n ∧ n ≤ 0x46 then n - 0x41 + 10
    else if 0x61 ≤ n ∧ n ≤ 0x66 then n - 0x61 + 10
    else base
  if value < base then some value else none

/-- Whether a character is a digit in a base. -/
def isDigitIn (base : Nat) (c : Char) : Bool := (digit? base c).isSome

/-- The number that digits in a base stand for, behind a number that was read before. -/
def ofDigits (base : Nat) (t : Text) (n : Nat) : Nat :=
  t.foldl (fun n c => base * n + (digit? base c).getD 0) n

end Text

end ApiSurface
