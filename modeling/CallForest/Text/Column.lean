/-!
# Columns

Padding to a width counted in characters.  A text wider than its column is never cut.
-/

namespace CallForest

namespace Text

/-- The text at the left of a column. -/
def left (width : Nat) (s : String) : String := s.pushn ' ' (width - s.length)

/-- The text at the right of a column. -/
def right (width : Nat) (s : String) : String := "".pushn ' ' (width - s.length) ++ s

/-- The text in the middle of a line of `fill`; of an odd number of fillers the odd one is at the
right. -/
def centre (width : Nat) (fill : Char) (s : String) : String :=
  let pad := width - s.length
  ("".pushn fill (pad / 2) ++ s).pushn fill (pad - pad / 2)

end Text

end CallForest
