import ApiSurface.Text.Digits

/-!
# Numbers in TOML

Integers have 64 bits with a sign; those in base sixteen, eight or two are written without one.
All other numbers are written with a fraction or an exponent and rounded to binary floating point,
where they must not become infinite unless they are negative. Single underscores may stand between
digits.
-/

namespace ApiSurface

open Text

namespace Toml

/-! ### Digits and signs -/

/-- The digits of a run in which single underscores may stand between them. -/
def digitsOf? (base : Nat) (t : Text) : Option Text :=
  let pieces := split (· == '_') t
  if pieces.all fun p => p ≠ [] && p.all (isDigitIn base) then some pieces.flatten else none

/-- The digits of a run without a zero in front of others. -/
def wholeDigits? (t : Text) : Option Text :=
  (digitsOf? 10 t).filter fun ds => ds.length = 1 || ds.head? ≠ some '0'

/-- The text without a sign, and whether that is a minus. -/
def cutSign : Text → Bool × Text
  | '-' :: r => (true, r)
  | '+' :: r => (false, r)
  | r => (false, r)

/-! ### Integers -/

/-- Whether a number with a sign fits into 64 bits. -/
def fits (negative : Bool) (n : Nat) : Bool :=
  if negative then n ≤ 0x8000000000000000 else n < 0x8000000000000000

/-- The digits of an integer in another base than ten, with their base. -/
def cutBase? : Text → Option (Nat × Text)
  | '0' :: 'x' :: r => some (16, r)
  | '0' :: 'o' :: r => some (8, r)
  | '0' :: 'b' :: r => some (2, r)
  | _ => none

/-- Whether a word is an integer. -/
def isInteger (word : Text) : Bool :=
  match cutBase? word with
  | some (base, r) => (digitsOf? base r).any fun ds => fits false (ofDigits base ds 0)
  | none =>
    let (negative, r) := cutSign word
    (wholeDigits? r).any fun ds => fits negative (ofDigits 10 ds 0)

/-! ### Floating point -/

/-- The least number that rounds to infinity: halfway from the greatest finite number, which is
`2 ^ 1024 - 2 ^ 971`, to the next power of two. -/
def overflowLimit : Nat := 0x3FFFFFFFFFFFFF <<< 970

/-- Whether the number `mantissa * 10 ^ exponent` rounds to infinity. It has `size` digits in front
of the point, and `overflowLimit` has 309. -/
def overflows (mantissa : Nat) (exponent : Int) : Bool :=
  let size : Int := (Nat.toDigits 10 mantissa).length + exponent
  if mantissa = 0 ∨ size < 309 then false
  else if 309 < size then true
  else if 0 ≤ exponent then overflowLimit ≤ mantissa * Nat.pow 10 exponent.toNat
  else overflowLimit * Nat.pow 10 (-exponent).toNat ≤ mantissa

/-- The text in front of the first character for which `p` holds, and the text behind it. -/
def cutAt (p : Char → Bool) (t : Text) : Text × Option Text :=
  (t.takeWhile (!p ·), (t.dropWhile (!p ·)).tail?)

/-- The digits of an optional part of a number. -/
def partDigits? : Option Text → Option Text
  | none => some []
  | some t => digitsOf? 10 t

/-- Whether a word without its sign is a number with a fraction or an exponent that is finite or
allowed to be infinite. -/
def isUnsignedFloat (mayOverflow : Bool) (t : Text) : Bool :=
  let (mantissa, exponent) := cutAt (fun c => c == 'e' || c == 'E') t
  let (whole, fraction) := cutAt (· == '.') mantissa
  let (negative, size) := cutSign (exponent.getD [])
  match wholeDigits? whole, partDigits? fraction, partDigits? (exponent.map fun _ => size) with
  | some ds, some fs, some es =>
    let e : Int := ofDigits 10 es 0
    (fraction.isSome || exponent.isSome) &&
      (mayOverflow ||
        !overflows (ofDigits 10 (ds ++ fs) 0) ((if negative then -e else e) - fs.length))
  | _, _, _ => false

/-- Whether a word is a number in floating point. -/
def isFloat (word : Text) : Bool :=
  let (negative, r) := cutSign word
  r = "inf".toList || r = "nan".toList || isUnsignedFloat negative r

/-- Whether a word is a number. -/
def isNumber (word : Text) : Bool := isInteger word || isFloat word

end Toml

end ApiSurface
