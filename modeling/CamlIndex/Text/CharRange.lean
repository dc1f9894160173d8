/-!
# Ranges of characters

A property of characters is a list of ranges of their numbers, in ascending
order and apart.  The order lets a search stop at the first range that starts
too late (`inRanges`).
-/

namespace CamlIndex

/-- Closed ranges of character numbers. -/
abbrev CharRanges := List (Nat × Nat)

/-- Whether a number lies in one of some ascending ranges. -/
def inRanges : CharRanges → Nat → Bool
  | [], _ => false
  | (first, last) :: later, n => first ≤ n && (n ≤ last || inRanges later n)

end CamlIndex
