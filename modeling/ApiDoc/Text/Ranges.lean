/-!
# Character classes by range

A character class is given by the ranges of code points that belong to it, in increasing order.
-/

namespace ApiDoc.Text

/-- Ranges of code points, first and last included. -/
abbrev Ranges := List (Nat × Nat)

/-- Does one of the ranges hold `c`? The ranges are in increasing order, so the search ends at the
first range that starts above `c`. -/
def Ranges.covers : Ranges → Char → Bool
  | [], _ => false
  | (first, last) :: rest, c =>
    if c.toNat < first then false
    else if c.toNat ≤ last then true
    else covers rest c

end ApiDoc.Text
