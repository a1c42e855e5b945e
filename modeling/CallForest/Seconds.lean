/-!
# Times

A time is a double held by its 64 bits, so that equality and order are those of the bits and
signed zeros and NaNs of either sign stay apart.  Arithmetic is that of doubles: a NaN operand is
kept, of two the one added or the one subtracted from, and an operation without a value gives the
negative NaN.

`compareTotal` is the total order of the bit patterns: negative NaNs, negative numbers, `-0`, `0`,
positive numbers, positive NaNs.
-/

namespace CallForest

/-- A time in seconds, by the bits of its double. -/
structure Seconds where
  bits : UInt64
  deriving DecidableEq, Repr

namespace Seconds

/-- The time of a double. -/
def ofFloat (x : Float) : Seconds := ⟨x.toBits⟩

/-- The double of a time. -/
def toFloat (t : Seconds) : Float := Float.ofBits t.bits

/-- Zero seconds. -/
def zero : Seconds := ⟨0⟩

instance : Inhabited Seconds := ⟨zero⟩

/-- The bits without the sign. -/
def magnitude (t : Seconds) : UInt64 := t.bits &&& 0x7FFFFFFFFFFFFFFF

/-- The sign bit is set. -/
def isNegative (t : Seconds) : Bool := t.bits >>> 63 == 1

/-- No number. -/
def isNaN (t : Seconds) : Bool := 0x7FF0000000000000 < t.magnitude

/-- Neither an infinity nor a NaN. -/
def isFinite (t : Seconds) : Bool := t.magnitude < 0x7FF0000000000000

/-- The result of an operation without a value. -/
def undefined : Seconds := ⟨0xFFF8000000000000⟩

/-- A NaN marked as passed on by arithmetic. -/
def quiet (t : Seconds) : Seconds := ⟨t.bits ||| 0x0008000000000000⟩

/-- An operation of doubles on times; of two NaNs the first is kept. -/
def lift (op : Float → Float → Float) (a b : Seconds) : Seconds :=
  if a.isNaN then a.quiet
  else if b.isNaN then b.quiet
  else
    let r := op a.toFloat b.toFloat
    if r.isNaN then undefined else ofFloat r

instance : Add Seconds := ⟨fun a b => lift (· + ·) b a⟩

instance : Sub Seconds := ⟨lift (· - ·)⟩

/-- The lesser time; a NaN loses against any other time, and of equal times the second is taken,
which shows in zeros of different signs. -/
def min (a b : Seconds) : Seconds :=
  if b.isNaN then a else if a.toFloat < b.toFloat then a else b

/-- The greater time; a NaN loses against any other time, and of equal times the second is taken,
which shows in zeros of different signs. -/
def max (a b : Seconds) : Seconds :=
  if b.isNaN then a else if b.toFloat < a.toFloat then a else b

/-- The place of a bit pattern in the total order. -/
def rank (t : Seconds) : Int :=
  if t.isNegative then -(t.magnitude.toNat : Int) - 1 else t.magnitude.toNat

/-- The total order of bit patterns. -/
def compareTotal (a b : Seconds) : Ordering := compare a.rank b.rank

end Seconds

end CallForest
