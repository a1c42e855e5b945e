import CallForest.Decimal.Binary

/-!
# The fewest digits that read back

A decimal reads back as a given double if it lies between the midpoints to the two neighbouring
doubles, the midpoints themselves included when the mantissa is even.  `Expansion.shortest` looks
at the grids `10 ^ p` from coarse to fine and takes the first one that has such a decimal; of two
on the same grid it takes the nearer.  On the finest grid lies the value itself, so the search
always ends.
-/

namespace CallForest

namespace Decimal

/-- Which of two equally near decimals is taken. -/
inductive Tie where
  | toEven
  | up
  deriving DecidableEq

/-- The decimal `significand * 10 ^ power`. -/
structure Digits where
  significand : Nat
  power : Int

namespace Expansion

variable (x : Expansion)

/-- The mantissa is even, so the midpoints to the neighbours round to this double. -/
def closed : Bool := x.units / x.gap % 2 == 0

/-- `n` units read back as this double. -/
def readsBack (n : Nat) : Bool :=
  let below := if x.narrowBelow then x.gap else 2 * x.gap
  if x.closed then 4 * x.units ≤ 4 * n + below && 4 * n ≤ 4 * x.units + 2 * x.gap
  else 4 * x.units < 4 * n + below && 4 * n < 4 * x.units + 2 * x.gap

/-- The multiple of `10 ^ p` that reads back and lies nearest, as a number of steps of the grid. -/
def onGrid (tie : Tie) (p : Nat) : Option Nat :=
  let step := Nat.pow 10 p
  let low := x.units / step
  let rest := x.units % step
  match x.readsBack (low * step), x.readsBack ((low + 1) * step) with
  | false, false => none
  | true, false => some low
  | false, true => some (low + 1)
  | true, true =>
    if 2 * rest < step then some low
    else if step < 2 * rest then some (low + 1)
    else if tie = .toEven ∧ low % 2 = 0 then some low
    else some (low + 1)

/-- The first hit among the grids `10 ^ p, …, 10 ^ 0`. -/
def searchFrom (tie : Tie) : Nat → Nat × Nat
  | 0 => (x.units, 0)
  | p + 1 =>
    match x.onGrid tie (p + 1) with
    | some n => (n, p + 1)
    | none => searchFrom tie p

end Expansion

/-- Drops trailing zeros of `n` in favour of the power, at most `fuel` of them. -/
def stripZeros : (fuel : Nat) → (n : Nat) → (power : Int) → Digits
  | 0, n, power => ⟨n, power⟩
  | fuel + 1, n, power =>
    if n ≠ 0 ∧ n % 10 = 0 then stripZeros fuel (n / 10) (power + 1) else ⟨n, power⟩

/-- The number of decimal digits of `n`. -/
def digitCount (n : Nat) : Nat := (Nat.toDigits 10 n).length

/-- The fewest digits that read back as `x`, the nearest of those, without trailing zeros. -/
def Expansion.shortest (x : Expansion) (tie : Tie) : Digits :=
  let (n, p) := x.searchFrom tie (digitCount x.units - 1)
  stripZeros (digitCount n) n (p - x.scale)

end Decimal

end CallForest
