import CallForest.Checked
import CallForest.Seconds
import CallForest.Decimal.Layout
import CallForest.Decimal.Places
import CallForest.Text.Thousands

/-!
# Samples

What is measured at one event: the wall clock and the resident memory.  The difference of two
samples is the cost of what happened between them.
-/

namespace CallForest

/-- The wall clock in seconds and the resident memory in bytes. -/
structure Sample where
  time : Seconds
  memory : Int64
  deriving DecidableEq, Repr

namespace Sample

/-- The sample at zero. -/
def zero : Sample := ⟨.zero, 0⟩

instance : Inhabited Sample := ⟨zero⟩

/-- The componentwise difference. -/
def sub (a b : Sample) : Except Overflow Sample :=
  (Checked.sub a.memory b.memory).map fun memory => ⟨a.time - b.time, memory⟩

/-- The lesser memory. -/
def leastMemory (a b : Int64) : Int64 := if b < a then b else a

/-- The greater memory. -/
def greatestMemory (a b : Int64) : Int64 := if a < b then b else a

/-- The componentwise minimum. -/
def min (a b : Sample) : Sample := ⟨a.time.min b.time, leastMemory a.memory b.memory⟩

/-- The componentwise maximum. -/
def max (a b : Sample) : Sample := ⟨a.time.max b.time, greatestMemory a.memory b.memory⟩

/-- Equal as numbers: zeros of either sign agree, and a NaN agrees with nothing. -/
def agrees (a b : Sample) : Bool := a.time.toFloat == b.time.toFloat && a.memory == b.memory

/-- The time in milliseconds. -/
def milliseconds (s : Sample) : Float := s.time.toFloat * 1e3

/-- A number of bytes in kilobytes. -/
def kilobytes (bytes : Int64) : Float := Float.ofInt bytes.toInt / 1024.0

/-- A number rounded to an integer, its digits in groups. -/
def grouped (x : Float) : String := String.ofList (Text.thousands (Decimal.fixed 0 x).toList)

/-- The time as reports show it. -/
def timeText (s : Sample) : String := grouped s.milliseconds ++ " (ms)"

/-- The memory as reports show it. -/
def memoryText (s : Sample) : String := grouped (kilobytes s.memory) ++ " (kb)"

/-- Both parts as reports show them. -/
def text (s : Sample) : String := s.timeText ++ " " ++ s.memoryText

end Sample

/-- Times in descriptions: the fewest digits that read back, positional from `0.0001` up to
`10^16`, and of two equally near decimals the upper. -/
def Seconds.descriptive : Decimal.Layout where
  tie := .up
  plainFrom := -4
  plainBelow := 16
  plusSign := false

/-- A time in full, for descriptions of values. -/
def Seconds.describe (t : Seconds) : String :=
  match Decimal.Reading.ofBits t.bits with
  | .nan => "NaN"
  | .infinite negative => if negative then "-inf" else "inf"
  | .finite negative size => Seconds.descriptive.finite negative size

/-- A sample in full, for descriptions of values. -/
def Sample.describe (s : Sample) : String :=
  "Measurement \x7b time: " ++ s.time.describe ++ ", memory: " ++ toString s.memory.toInt ++ " \x7d"

end CallForest
