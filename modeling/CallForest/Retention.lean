import CallForest.Fault
import CallForest.Sample
import CallForest.Text.Quoted

/-!
# Retention

A retention rule decides from the samples at its call and at its return whether an invocation
stays in the forest.  It is asked once, when the invocation returns.
-/

namespace CallForest

/-- A rule that keeps some invocations and drops the others. -/
structure Retention where
  /-- What is kept, in words. -/
  label : String
  /-- Whether the invocation with these samples at call and return is kept. -/
  keeps : Sample → Sample → Except Overflow Bool

namespace Retention

/-- A rule from a test that always has an answer. -/
def ofTest (label : String) (test : Sample → Sample → Bool) : Retention :=
  ⟨label, fun call ret => .ok (test call ret)⟩

/-- The invocation took at least `ms` milliseconds. -/
def timeReached (ms : Int64) (call ret : Sample) : Except Overflow Bool :=
  (ret.sub call).map fun cost => decide (Float.ofInt ms.toInt ≤ cost.milliseconds)

/-- The memory changed by at least `kb` kilobytes, up or down. -/
def memoryReached (kb : Int64) (call ret : Sample) : Except Overflow Bool :=
  (ret.sub call).map fun cost => decide (Float.ofInt kb.toInt ≤ (Sample.kilobytes cost.memory).abs)

/-- Keeps what took at least `ms` milliseconds. -/
def minTime (ms : Int64) : Retention :=
  ⟨"time >= " ++ toString ms.toInt ++ " ms", timeReached ms⟩

/-- Keeps what changed the memory by at least `kb` kilobytes. -/
def minMemory (kb : Int64) : Retention :=
  ⟨"|memory| >= " ++ toString kb.toInt ++ " kb", memoryReached kb⟩

/-- Keeps what reaches either threshold; the memory is looked at only if the time falls short. -/
def either (ms kb : Int64) : Retention where
  label := "time >= " ++ toString ms.toInt ++ " ms or |memory| >= " ++ toString kb.toInt ++ " kb"
  keeps call ret := do
    if ← timeReached ms call ret then return true
    memoryReached kb call ret

/-- The time threshold that asks for nothing. -/
def anyTime : Int64 := -1

/-- The memory threshold that asks for nothing. -/
def anyMemory : Int64 := 0

/-- The rule for two thresholds, none if neither asks for anything. -/
def ofThresholds (ms kb : Int64) : Except Fault (Option Retention) :=
  if kb < 0 then .error (.negativeThreshold kb.toInt)
  else if ms = anyTime then .ok (if kb = anyMemory then none else some (minMemory kb))
  else .ok (some (if kb = anyMemory then minTime ms else either ms kb))

/-- A rule in full, for descriptions of values. -/
def describe (r : Retention) : String :=
  "RetentionFilter \x7b label: " ++ Text.quoted r.label ++ " \x7d"

end Retention

end CallForest
