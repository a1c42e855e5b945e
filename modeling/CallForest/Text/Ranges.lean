/-!
# Ranges of characters

A class of characters given by the ranges of its code points, as standards list them.
-/

namespace CallForest

namespace Text

/-- The character lies in one of the ranges, each given by its first and its last code point. -/
def inRanges (ranges : List (Nat × Nat)) (c : Char) : Bool :=
  ranges.any fun r => r.1 ≤ c.toNat && c.toNat ≤ r.2

/-- The ranges are in ascending order, and between two of them there is a gap. -/
def ascending : List (Nat × Nat) → Bool
  | [] => true
  | [r] => r.1 ≤ r.2
  | r :: s :: ranges => r.1 ≤ r.2 && r.2 + 1 < s.1 && ascending (s :: ranges)

end Text

end CallForest
