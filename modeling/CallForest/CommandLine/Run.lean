import CallForest.CommandLine.Options
import CallForest.Log.Reading
import CallForest.Report.Csv
import CallForest.Report.Dump
import CallForest.Report.Export

/-!
# A run of the program

From the options and the content of the log to what the program writes.  A log is replayed into a
session and the session is finished; then it is reported in the format asked for.  An overflow
ends the program at once and leaves written what has been written before it.
-/

namespace CallForest

namespace CommandLine

/-- A fault, and what the program was about when it came up. -/
structure Trouble where
  context : Option String
  fault : Fault

namespace Trouble

/-- A text of several lines, those after the first one indented. -/
def indented (indent : Nat) (s : String) : String :=
  s.toList.foldl
    (fun acc c => if c = '\n' then (acc.push c).pushn ' ' indent else acc.push c) ""

/-- The lines of causes: a single one stands alone, several are numbered. -/
def causeLines : List String → String
  | [] => ""
  | [cause] => "\nCaused by:\n    " ++ indented 4 cause ++ "\n"
  | causes =>
    "\nCaused by:\n" ++
      String.join (causes.zipIdx.map fun (cause, i) =>
        Text.right 5 (toString i) ++ ": " ++ indented 7 cause ++ "\n")

/-- The report of a fault with the causes behind it. -/
def text (t : Trouble) : String :=
  match t.context.toList ++ t.fault.trace with
  | [] => ""
  | outermost :: causes => "Error: " ++ outermost ++ "\n" ++ causeLines causes

end Trouble

/-- What a run leaves. -/
structure Outcome where
  exit : Nat
  stdout : String
  stderr : String

namespace Outcome

/-- A run that wrote its report. -/
def done (stdout : String) : Outcome := ⟨0, stdout, ""⟩

/-- A run that ended in a fault after writing `stdout`. -/
def failed (stdout : String) (t : Trouble) : Outcome :=
  match t.fault with
  | .overflow cause => ⟨101, stdout, cause.message ++ "\n"⟩
  | _ => ⟨1, stdout, t.text⟩

end Outcome

/-- What there is of a log. -/
inductive Source where
  /-- It cannot be opened. -/
  | closed (reason : String)
  /-- It can be opened and not be read, as a directory can. -/
  | unread (reason : String)
  /-- Its content. -/
  | content (bytes : ByteArray)

/-- What a reader meets in a log, once it is open. -/
def Source.items (r : Log.Reader) : Source → Except Fault (List Log.Item)
  | closed reason => .error (.unreadable reason)
  | unread reason => .ok [.error (.unreadable reason)]
  | content bytes => .ok (r.items bytes)

/-- A result, or the fault with what the program was about. -/
def within {α : Type} (context : String) (r : Except Fault α) : Except Trouble α :=
  match r with
  | .ok a => .ok a
  | .error fault => .error ⟨some context, fault⟩

/-- The result of an operation on a session, or its fault. -/
def settled {α : Type} : EStateM.Result Fault Session α → Except Fault (α × Session)
  | .ok a s => .ok (a, s)
  | .error fault _ => .error fault

/-- The sample of the first item, if that is an entry. -/
def firstSample : List Log.Item → Sample
  | .ok e :: _ => e.sample
  | _ => .zero

/-- The sample of the last entry, `sample` if there is none. -/
def lastSample (sample : Sample) (items : List Log.Item) : Sample :=
  items.foldl
    (fun last item =>
      match item with
      | .ok e => e.sample
      | .error _ => last) sample

/-- The finished session of a log.  Its first entry stands for the start of the session and its last
one for the end. -/
def session (r : Log.Reader) (o : Options) (log : Source) : Except Trouble Session := do
  let rule ←
    match Retention.ofThresholds o.minTime o.minMemory with
    | .ok rule => .ok rule
    | .error fault => .error (Trouble.mk none fault)
  let items ← within ("Cannot open event log " ++ o.log) (log.items r)
  let initial := firstSample items
  let s := Session.start rule (!o.keepSynthetic) initial
  let (_, s) ← within ("Failed to replay " ++ o.log) (settled (Log.replay s items))
  let (_, s) ←
    within "Event log ends inside an open function" (settled (s.finish (lastSample initial items)))
  return s

/-- The costs of a forest. -/
def costs (f : Forest) : Except Fault CostTable :=
  match CostTable.ofForest f with
  | .ok t => .ok t
  | .error cause => .error (.overflow cause)

/-- Writes a report as text. -/
def textReport (o : Options) (s : Session) : Dump.Writing Unit := do
  Dump.summary s
  if o.dump then
    let _ ← Dump.forest s.forest o.order (Dump.baseline s) s.sites
    Dump.siteTable s.sites
  Dump.line ""
  match costs s.forest with
  | .ok t => modify fun text => text ++ t.text s.sites
  | .error fault => throw fault

/-- A report in one of the formats that are written in one piece. -/
def wholeReport (o : Options) (s : Session) : Except Fault String :=
  match o.format with
  | .csv =>
    if o.csvStats then (costs s.forest).map fun t => Csv.costs t s.sites
    else (Csv.rowsOf s.forest o.order s.sites).map (Csv.text o.csvSource)
  | _ =>
    match Export.ofSession s o.order with
    | .ok e => .ok (e.text ++ "\n")
    | .error cause => .error (.overflow cause)

/-- The report of a session. -/
def report (o : Options) (s : Session) : Outcome :=
  match o.format with
  | .text =>
    match textReport o s "" with
    | .ok _ text => .done text
    | .error fault text => .failed text ⟨none, fault⟩
  | _ =>
    match wholeReport o s with
    | .ok text => .done text
    | .error fault => .failed "" ⟨none, fault⟩

/-- A run of the program, on a log of JSON records. -/
def run (o : Options) (log : Source) : Outcome :=
  match session Log.json o log with
  | .ok s => report o s
  | .error t => .failed "" t

end CommandLine

end CallForest
