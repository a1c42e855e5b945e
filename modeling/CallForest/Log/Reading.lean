import CallForest.Log.Entry

/-!
# Reading and replaying a log

A log is a sequence of bytes whose lines end at a newline, a carriage return before it included.
`Log.items` gives what a reader meets on the way through a log: entries, and faults for the lines
that are no entries.  `Log.replay` feeds a session with the entries up to the first fault.

The records are JSON.  What a log gives depends on that only through `Log.Reader.read`, so that it
is written for any way to read the text of a record.
-/

namespace CallForest

namespace Log

/-- What a line of a log gives. -/
abbrev Item := Except Fault LogEntry

/-- The byte that ends a line. -/
def newline : UInt8 := 10

/-- The byte that may stand before the end of a line. -/
def carriageReturn : UInt8 := 13

/-- The bytes of a line, given last first, without a carriage return at its end. -/
def dropReturn : List UInt8 → List UInt8
  | [] => []
  | b :: bs => if b = carriageReturn then bs else b :: bs

/-- The lines of a log after the lines `done`, which are given last first, as are the bytes
`current` of the line begun. -/
def linesFrom (done : List (List UInt8)) (current : List UInt8) :
    List UInt8 → List (List UInt8)
  | [] => if current.isEmpty then done.reverse else (current.reverse :: done).reverse
  | b :: bs =>
    if b = newline then linesFrom ((dropReturn current).reverse :: done) [] bs
    else linesFrom done (b :: current) bs

/-- The lines of a log. -/
def lines (bytes : List UInt8) : List (List UInt8) := linesFrom [] [] bytes

/-- The characters of a line. -/
def decode? (line : List UInt8) : Option (List Char) :=
  (String.fromUTF8? ⟨line.toArray⟩).map String.toList

/-- What the lines after line `number` give.  Lines that are no text are not counted. -/
def Reader.itemsFrom (r : Reader) (number : Nat) : List (List UInt8) → List Item
  | [] => []
  | line :: rest =>
    match decode? line with
    | none => .error .notUtf8 :: r.itemsFrom number rest
    | some text =>
      match r.ofLine (number + 1) text with
      | .ok none => r.itemsFrom (number + 1) rest
      | .ok (some e) => .ok e :: r.itemsFrom (number + 1) rest
      | .error fault => .error fault :: r.itemsFrom (number + 1) rest

/-- What a log gives. -/
def Reader.items (r : Reader) (bytes : ByteArray) : List Item := r.itemsFrom 0 (lines bytes.toList)

/-- What a log of JSON records gives. -/
def items (bytes : ByteArray) : List Item := json.items bytes

/-- The text of a log with given entries. -/
def text (entries : List LogEntry) : String := String.join (entries.map LogEntry.line)

/-- Records one item. -/
def recordItem (s : Session) (item : Item) : EStateM.Result Fault Session Unit :=
  match item.bind LogEntry.event with
  | .error fault => .error fault s
  | .ok e => s.record e

/-- Records items up to the first fault, after `count` recorded ones. -/
def replayFrom (count : Nat) (s : Session) : List Item → EStateM.Result Fault Session Nat
  | [] => .ok count s
  | item :: rest =>
    match recordItem s item with
    | .error fault s => .error fault s
    | .ok _ s => replayFrom (count + 1) s rest

/-- Records items up to the first fault and counts them. -/
def replay (s : Session) (items : List Item) : EStateM.Result Fault Session Nat :=
  replayFrom 0 s items

end Log

end CallForest
