import CallForest.CommandLine.Run

/-!
# The program

Reads the arguments and the log, writes the report.
-/

namespace CallForest

namespace CommandLine

/-- What is said about arguments that ask for no run. -/
def Usage.text : Usage → String
  | .help =>
    "Usage: callforest [-t MS] [-m KB] [-d] [--format text|json|csv] [--order depth|width] " ++
      "[--keep-synthetic] [--csv-source] [--csv-stats] [--debug] EVENT_LOG"
  | .version => "callforest"
  | .repeated => "error: an option is given twice"
  | .invalidValue => "error: a value is missing or not allowed"
  | .notInteger => "error: a value is no integer"
  | .needlessValue => "error: an option takes no value"
  | .unknown => "error: an argument is not known"
  | .missingLog => "error: the event log is missing"

/-- The reason that the system gives for an error. -/
def reason (e : IO.Error) : String :=
  match e with
  | .interrupted _ code details
  | .noFileOrDirectory _ code details
  | .alreadyExists _ code details
  | .invalidArgument _ code details
  | .permissionDenied _ code details
  | .resourceExhausted _ code details
  | .inappropriateType _ code details
  | .noSuchThing _ code details
  | .otherError code details
  | .resourceBusy code details
  | .resourceVanished code details
  | .unsupportedOperation code details
  | .hardwareFault code details
  | .unsatisfiedConstraints code details
  | .illegalOperation code details
  | .protocolError code details
  | .timeExpired code details => details ++ " (os error " ++ toString code ++ ")"
  | .unexpectedEof => "failed to fill whole buffer"
  | .userError message => message

/-- Opens and reads a log. -/
def readLog (path : String) : IO Source := do
  match ← (IO.FS.Handle.mk path .read).toBaseIO with
  | .error e => return .closed (reason e)
  | .ok handle =>
    match ← handle.readBinToEnd.toBaseIO with
    | .error e => return .unread (reason e)
    | .ok bytes => return .content bytes

/-- Runs the program and returns its exit code. -/
def execute (arguments : List String) : IO UInt32 := do
  match Options.ofArguments arguments with
  | .error usage =>
    match usage with
    | .help | .version =>
      IO.println usage.text
      return 0
    | _ =>
      IO.eprintln usage.text
      return 2
  | .ok o =>
    let outcome := run o (← readLog o.log)
    IO.print outcome.stdout
    IO.eprint outcome.stderr
    return outcome.exit.toUInt32

end CommandLine

end CallForest

/-- The entry point. -/
def main (arguments : List String) : IO UInt32 :=
  CallForest.CommandLine.execute arguments
