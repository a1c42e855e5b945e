import CallForest.Decimal.Binary

/-!
# A fixed number of places

A double is rounded to `n` decimal places from its exact expansion, a tie going to the even
neighbour.  The sign is written whenever the double has one, so a small negative double becomes
`-0`.
-/

namespace CallForest

namespace Decimal

/-- The integer nearest to `num / den`, the even one of two. -/
def roundDiv (num den : Nat) : Nat :=
  let q := num / den
  let r := 2 * (num % den)
  if r < den ∨ (r = den ∧ q % 2 = 0) then q else q + 1

/-- The magnitude in units of `10⁻ⁿ`, rounded. -/
def Expansion.rounded (x : Expansion) (n : Nat) : Nat :=
  roundDiv (x.units * Nat.pow 10 (n - x.scale)) (Nat.pow 10 (x.scale - n))

/-- The digits of `value`, the last `n` of them after a point. -/
def pointed (n value : Nat) : String :=
  let digits := toString value
  let padded := "".pushn '0' (n + 1 - digits.length) ++ digits
  if n = 0 then padded
  else
    let whole := padded.length - n
    String.ofList (padded.toList.take whole) ++ "." ++ String.ofList (padded.toList.drop whole)

/-- The text of a double with `n` places. -/
def fixed (n : Nat) (x : Float) : String :=
  match Reading.ofBits x.toBits with
  | .nan => "NaN"
  | .infinite negative => if negative then "-inf" else "inf"
  | .finite negative size => (if negative then "-" else "") ++ pointed n (size.rounded n)

end Decimal

end CallForest
