import CallForest.Decimal.Shortest

/-!
# Laying digits out

`Layout` gathers the decisions of a format for finite doubles: which magnitudes are written
positionally, whether a positive exponent has a sign, and which way a tie between two shortest
decimals goes.  Both formats of this library write at least one digit on either side of the point.
-/

namespace CallForest

namespace Decimal

/-- How the shortest digits of a finite double are written. -/
structure Layout where
  tie : Tie
  /-- The least exponent of a leading digit that is written positionally. -/
  plainFrom : Int
  /-- From this exponent of the leading digit on an exponent is written. -/
  plainBelow : Int
  /-- A positive exponent has the sign `+`. -/
  plusSign : Bool

namespace Layout

variable (l : Layout)

/-- A row of `n` zeros. -/
def zeros (n : Nat) : String := "".pushn '0' n

/-- Digits with the point after the digit of weight one. -/
def positional (digits : String) (leading : Int) : String :=
  let whole := leading.toNat + 1
  if leading < 0 then "0." ++ zeros (-leading - 1).toNat ++ digits
  else if digits.length ≤ whole then digits ++ zeros (whole - digits.length) ++ ".0"
  else String.ofList (digits.toList.take whole) ++ "." ++ String.ofList (digits.toList.drop whole)

/-- Digits with the point after the first one, and an exponent. -/
def scientific (digits : String) (leading : Int) : String :=
  let sign := if leading < 0 then "-" else if l.plusSign then "+" else ""
  let fraction := if digits.length ≤ 1 then "" else "." ++ String.ofList (digits.toList.drop 1)
  String.ofList (digits.toList.take 1) ++ fraction ++ "e" ++ sign ++ toString leading.natAbs

/-- The text of a magnitude. -/
def magnitude (x : Expansion) : String :=
  if x.units = 0 then "0.0"
  else
    let d := x.shortest l.tie
    let digits := toString d.significand
    let leading := d.power + (digits.length - 1 : Nat)
    if l.plainFrom ≤ leading ∧ leading < l.plainBelow then positional digits leading
    else l.scientific digits leading

/-- The text of a finite double; zero keeps its sign. -/
def finite (negative : Bool) (x : Expansion) : String :=
  (if negative then "-" else "") ++ l.magnitude x

end Layout

end Decimal

end CallForest
