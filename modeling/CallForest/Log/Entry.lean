import CallForest.Exchange
import CallForest.Session
import CallForest.Text.Blank

/-!
# Entries of a log

An entry is one line of a log: a record in JSON.  Its word need not be that of a boundary; whether
it is shows when the entry is taken as an event.
-/

namespace CallForest

/-- One line of a log. -/
structure LogEntry where
  /-- The word for the boundary. -/
  word : String
  site : Site
  sample : Sample
  deriving DecidableEq, Repr

namespace LogEntry

/-- An entry as a record. -/
def schema : Json.Schema :=
  ⟨"EventRecord",
    [⟨"event", .text⟩, ⟨"file", .text⟩, ⟨"function", .text⟩, ⟨"line", .nat32⟩, ⟨"time", .real⟩,
      ⟨"memory", .int64⟩]⟩

/-- The fields of an entry. -/
def toRow (e : LogEntry) : Json.Row schema.fields :=
  (e.word, e.site.file, e.site.function, e.site.line, e.sample.time, e.sample.memory, ())

/-- The entry with given fields. -/
def ofRow : Json.Row schema.fields → LogEntry
  | (word, file, function, line, time, memory, ()) => ⟨word, ⟨file, function, line⟩, ⟨time, memory⟩⟩

@[simp] theorem ofRow_toRow (e : LogEntry) : ofRow e.toRow = e := rfl

/-- An entry as JSON. -/
def toValue (e : LogEntry) : Json.Value := schema.toValue e.toRow

/-- The entry that a text stands for. -/
def parse (text : List Char) : Except Json.Failure LogEntry := (schema.parse text).map ofRow

/-- The event of an entry. -/
def event (e : LogEntry) : Except Fault Event :=
  (Boundary.ofWord e.word).map fun boundary => ⟨boundary, e.site, e.sample⟩

/-- The line of an entry. -/
def line (e : LogEntry) : String := e.toValue.compact ++ "\n"

end LogEntry

/-- A way to read records: the entry that a text stands for, or why it stands for none. -/
structure Log.Reader where
  read : List Char → Except String LogEntry

/-- Records are JSON. -/
def Log.json : Log.Reader where
  read text :=
    match LogEntry.parse text with
    | .ok e => .ok e
    | .error f => .error (f.message text)

/-- Reads the line with a given number.  Blank lines and lines that start with `#` hold no entry;
white space around an entry does not matter. -/
def Log.Reader.ofLine (r : Log.Reader) (number : Nat) (line : List Char) :
    Except Fault (Option LogEntry) :=
  match Text.trim line with
  | [] => .ok none
  | c :: cs =>
    if c = '#' then .ok none
    else
      match r.read (c :: cs) with
      | .ok e => .ok (some e)
      | .error reason => .error (.malformedLine number reason)

/-- Reads the line with a given number as JSON. -/
def LogEntry.ofLine (number : Nat) (line : List Char) : Except Fault (Option LogEntry) :=
  Log.json.ofLine number line

end CallForest
