/-!
# Doubles written out in decimal

A finite double is `m * 2 ^ e`, so it has a finite decimal expansion.  `Expansion` is that
expansion as one integer over a power of ten, together with the distance to the neighbouring
doubles in the same unit; all digits this library prints are chosen from it by exact integer
arithmetic.  `Reading.ofBits` tells the expansions from the infinities and NaN.
-/

namespace CallForest

namespace Decimal

/-- The magnitude `units / 10 ^ scale` of a finite double. -/
structure Expansion where
  units : Nat
  scale : Nat
  /-- The distance to the next double above, in the same unit. -/
  gap : Nat
  /-- The next double below is only half as far away as the one above. -/
  narrowBelow : Bool

/-- What the 64 bits of a double stand for. -/
inductive Reading where
  | nan
  | infinite (negative : Bool)
  | finite (negative : Bool) (size : Expansion)

/-- The expansion of `mantissa * 2 ^ exponent`: a factor `2⁻¹` is a factor `5` on the units and
one more decimal place. -/
def Expansion.ofBinary (mantissa : Nat) (exponent : Int) (narrowBelow : Bool) : Expansion :=
  let gap := Nat.pow 2 exponent.toNat * Nat.pow 5 (-exponent).toNat
  { units := mantissa * gap, scale := (-exponent).toNat, gap, narrowBelow }

/-- The double nearest above zero is `2 ^ leastExponent`. -/
def leastExponent : Int := -1074

/-- The bits of a double: sign, eleven bits of exponent, fifty-two bits of fraction. -/
def Reading.ofBits (bits : UInt64) : Reading :=
  let negative := bits >>> 63 == 1
  let field := ((bits >>> 52) &&& 0x7FF).toNat
  let fraction := (bits &&& 0xFFFFFFFFFFFFF).toNat
  if field = 0x7FF then
    if fraction = 0 then .infinite negative else .nan
  else if field = 0 then
    .finite negative (.ofBinary fraction leastExponent false)
  else
    .finite negative
      (.ofBinary (0x10000000000000 + fraction) (leastExponent + (field - 1)) (fraction == 0 && field != 1))

end Decimal

end CallForest
