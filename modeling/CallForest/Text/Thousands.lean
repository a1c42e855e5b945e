/-!
# Thousands

Digits in groups of three, divided by commas.
-/

namespace CallForest

namespace Text

/-- A comma goes before every character that has a multiple of three characters from it on, the
first character apart. -/
def groups : List Char → List Char
  | [] => []
  | c :: cs => if cs ≠ [] ∧ cs.length % 3 = 0 then c :: ',' :: groups cs else c :: groups cs

/-- The text of an integer in groups.  Zero has no sign. -/
def thousands (integer : List Char) : List Char :=
  match integer with
  | '-' :: digits => if digits = ['0'] then ['0'] else '-' :: groups digits
  | digits => groups digits

end Text

end CallForest
