import ApiSurface.Text.Basic

/-!
# Ranges of characters

A class of characters that a standard lists is kept as the ranges of its code points.
-/

namespace ApiSurface

namespace Text

/-- Whether the code point of a character lies in one of several ranges, of which both ends belong
to them. -/
def isInRanges (ranges : List (Nat × Nat)) (c : Char) : Bool :=
  ranges.any fun r => r.1 ≤ c.toNat && c.toNat ≤ r.2

end Text

end ApiSurface
