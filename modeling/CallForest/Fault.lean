import CallForest.Checked

/-!
# Faults

Everything that can go wrong between a log and a report, by cause.  `Fault.message` is the only
place that words a fault; `Fault.sort` groups the causes, and `Fault.trace` is the message followed
by the message of what lies behind it.
-/

namespace CallForest

/-- Why an operation failed. -/
inductive Fault where
  /-- A word is neither that of a call nor that of a return. -/
  | unknownWord (word : String)
  /-- A declaration line is zero. -/
  | lineBelowOne (line : Nat)
  /-- A memory threshold is negative. -/
  | negativeThreshold (kilobytes : Int)
  /-- A call was put into an invocation that has returned. -/
  | enterClosed
  /-- A return was put into an invocation that has returned. -/
  | leaveClosed
  /-- A return came while no invocation was open. -/
  | leaveOutside (function : Nat)
  /-- An event came after the session was finished. -/
  | recordAfterFinish
  /-- The session was finished while an invocation was open. -/
  | finishInside
  /-- A return is not the one of the running function. -/
  | mismatch (expected found : Nat)
  /-- No function has this number. -/
  | unknownFunction (function : Nat)
  /-- The depth of a forest without trees. -/
  | emptyForest
  /-- A line of a log is no record. -/
  | malformedLine (line : Nat) (reason : String)
  /-- A log cannot be read. -/
  | unreadable (reason : String)
  /-- A memory size left its range. -/
  | overflow (cause : Overflow)
  deriving DecidableEq, Repr

/-- The sorts of faults. -/
inductive Fault.Sort where
  | invalidInput
  | sequence
  | mismatch
  | unknownFunction
  | emptyForest
  | malformedLine
  | unreadable
  | overflow
  deriving DecidableEq, Repr

namespace Fault

/-- The reason given for the bytes of a log that are no text. -/
def notUtf8 : Fault := .unreadable "stream did not contain valid UTF-8"

/-- The sort of a fault. -/
def sort : Fault → Fault.Sort
  | unknownWord _ | lineBelowOne _ | negativeThreshold _ => .invalidInput
  | enterClosed | leaveClosed | leaveOutside _ | recordAfterFinish | finishInside => .sequence
  | mismatch _ _ => .mismatch
  | unknownFunction _ => .unknownFunction
  | emptyForest => .emptyForest
  | malformedLine _ _ => .malformedLine
  | unreadable _ => .unreadable
  | overflow _ => .overflow

/-- A memory size left its range.  Such a fault ends the program; every other one is an answer to
whoever asked. -/
def isOverflow : Fault → Bool
  | overflow _ => true
  | _ => false

/-- The wording of a fault. -/
def message : Fault → String
  | unknownWord word => "Invalid input: Expected \"call\" or \"return\" not \"" ++ word ++ "\""
  | lineBelowOne line =>
    "Invalid input: FunctionEncoder.encode(): line number must be >=1 not " ++ toString line
  | negativeThreshold kilobytes =>
    "Invalid input: filter_min_memory must be >= 0 not " ++ toString kilobytes
  | enterClosed => "Call/return sequence error: CallNode.add_call() when not open for calls."
  | leaveClosed => "Call/return sequence error: CallNode.add_return() when not open for returns."
  | leaveOutside function =>
    "Call/return sequence error: CallSequence received a return for function " ++
      toString function ++ " with no open call"
  | recordAfterFinish => "Call/return sequence error: MemTrace.record() after finalise()"
  | finishInside => "Call/return sequence error: MemTrace.finalise() with an open function"
  | mismatch expected found =>
    "Returning from open function " ++ toString expected ++ " but given ID of " ++ toString found
  | unknownFunction function => "Unknown function identifier: " ++ toString function
  | emptyForest => "CallSequence.max_depth() on empty tree"
  | malformedLine line reason => "Event log line " ++ toString line ++ ": " ++ reason
  | unreadable reason => "IO error: " ++ reason
  | overflow cause => cause.message

/-- The message of a fault, then that of what lies behind it. -/
def trace : Fault → List String
  | malformedLine line reason => [(malformedLine line reason).message, reason]
  | unreadable reason => [(unreadable reason).message, reason]
  | fault => [fault.message]

end Fault

end CallForest
