import CallForest.Forest

/-!
# Options

The arguments of the program are read from left to right.  A value that stands as an argument of
its own is judged when the next known option or the log comes, or at the end, so an unknown
argument directly after it is reported first.
-/

namespace CallForest

namespace CommandLine

/-- What the program writes. -/
inductive Format where
  | text
  | json
  | csv
  deriving DecidableEq, Repr

/-- What the arguments say. -/
structure Options where
  /-- The path of the log. -/
  log : String
  minTime : Int64
  minMemory : Int64
  dump : Bool
  format : Format
  order : Order
  keepSynthetic : Bool
  csvSource : Bool
  csvStats : Bool
  debug : Bool
  deriving DecidableEq, Repr

/-- Why the arguments are no options. -/
inductive Usage where
  /-- The help was asked for. -/
  | help
  /-- The version was asked for. -/
  | version
  /-- An option was given twice. -/
  | repeated
  /-- A value is missing, empty or none of those allowed. -/
  | invalidValue
  /-- A value is no integer. -/
  | notInteger
  /-- A value was given to an option without one. -/
  | needlessValue
  /-- An argument is not known. -/
  | unknown
  /-- The log was not given. -/
  | missingLog
  deriving DecidableEq, Repr

/-- The options without a value. -/
inductive Flag where
  | dump
  | keepSynthetic
  | csvSource
  | csvStats
  | debug
  deriving DecidableEq

/-- The options with a value. -/
inductive Setting where
  | minTime
  | minMemory
  | format
  | order
  deriving DecidableEq

/-- The options. -/
inductive Switch where
  | help
  | version
  | flag (f : Flag)
  | setting (s : Setting)
  deriving DecidableEq

/-- The option with a long name. -/
def Switch.ofName? : String → Option Switch
  | "help" => some .help
  | "version" => some .version
  | "dump" => some (.flag .dump)
  | "keep-synthetic" => some (.flag .keepSynthetic)
  | "csv-source" => some (.flag .csvSource)
  | "csv-stats" => some (.flag .csvStats)
  | "debug" => some (.flag .debug)
  | "filter-min-time" => some (.setting .minTime)
  | "filter-min-memory" => some (.setting .minMemory)
  | "format" => some (.setting .format)
  | "order" => some (.setting .order)
  | _ => none

/-- The option with a letter. -/
def Switch.ofLetter? : Char → Option Switch
  | 'h' => some .help
  | 'V' => some .version
  | 'd' => some (.flag .dump)
  | 't' => some (.setting .minTime)
  | 'm' => some (.setting .minMemory)
  | _ => none

/-! ### Values -/

/-- The number of decimal digits, none if there is another character or no digit. -/
def naturalOf? (cs : List Char) : Option Nat :=
  if cs.isEmpty then none
  else
    cs.foldl (fun n c => n.bind fun n =>
      if '0' ≤ c ∧ c ≤ '9' then some (n * 10 + (c.toNat - '0'.toNat)) else none) (some 0)

/-- The 64-bit integer of digits with an optional sign. -/
def integerOf? (s : String) : Option Int64 :=
  let n : Option Int :=
    match s.toList with
    | '-' :: cs => (naturalOf? cs).map fun n => -n
    | '+' :: cs => (naturalOf? cs).map fun n => n
    | cs => (naturalOf? cs).map fun n => n
  match n with
  | some n => if Checked.InRange n then some (Int64.ofInt n) else none
  | none => none

/-- The format of a word. -/
def Format.ofWord? : String → Option Format
  | "text" => some .text
  | "json" => some .json
  | "csv" => some .csv
  | _ => none

/-- The order of a word. -/
def orderOfWord? : String → Option Order
  | "depth" => some .depth
  | "width" => some .width
  | _ => none

/-- Digits, of which a point and then an exponent may stand after the first; an exponent has
something after it.  Such a text after a minus sign is taken for a negative number. -/
def looksNumeric (cs : List Char) : Bool :=
  let rec go (first point exponent : Bool) : List Char → Bool
    | [] => true
    | c :: cs =>
      if '0' ≤ c ∧ c ≤ '9' then go false point exponent cs
      else if c = '.' then !first && !point && !exponent && go false true exponent cs
      else if c = 'e' ∨ c = 'E' then
        !first && !exponent && !cs.isEmpty && go false point true cs
      else false
  go true false false cs

/-! ### Reading the arguments -/

/-- Something that waits for more. -/
inductive Pending where
  /-- An option waits for its value. -/
  | awaiting (s : Setting)
  /-- A value waits to be judged. -/
  | value (s : Setting) (text : String)
  /-- The path of the log waits to be judged. -/
  | log (path : String)

/-- What the arguments read so far say. -/
structure Draft where
  log : Option String
  minTime : Option Int64
  minMemory : Option Int64
  format : Option Format
  order : Option Order
  flags : List Flag
  pending : Option Pending
  /-- The path of the log has been read. -/
  hasLog : Bool
  /-- Only paths may follow. -/
  trailing : Bool

namespace Draft

/-- Before the first argument. -/
def empty : Draft where
  log := none
  minTime := none
  minMemory := none
  format := none
  order := none
  flags := []
  pending := none
  hasLog := false
  trailing := false

variable (d : Draft)

/-- Puts a value in the place of an option that has none yet. -/
def put {α : Type} (old : Option α) (new : Option α) (refusal : Usage) (set : α → Draft) :
    Except Usage Draft :=
  if old.isSome then .error .repeated
  else
    match new with
    | some a => .ok (set a)
    | none => .error refusal

/-- Judges a value of an option. -/
def assign (s : Setting) (text : String) : Except Usage Draft :=
  match s with
  | .minTime => put d.minTime (integerOf? text) .notInteger fun n => { d with minTime := some n }
  | .minMemory =>
    put d.minMemory (integerOf? text) .notInteger fun n => { d with minMemory := some n }
  | .format =>
    put d.format (Format.ofWord? text) .invalidValue fun f => { d with format := some f }
  | .order => put d.order (orderOfWord? text) .invalidValue fun o => { d with order := some o }

/-- Judges what waits to be judged. -/
def settle : Except Usage Draft :=
  match d.pending with
  | none => .ok d
  | some (.awaiting _) => .error .invalidValue
  | some (.value s text) => { d with pending := none }.assign s text
  | some (.log path) =>
    if path.isEmpty then .error .invalidValue else .ok { d with pending := none, log := some path }

/-- An option without value. -/
def useFlag (f : Flag) : Except Usage Draft := do
  let d ← d.settle
  if d.flags.contains f then .error .repeated else .ok { d with flags := f :: d.flags }

/-- An option with a value, or one that is to have it from the next argument. -/
def useSetting (s : Setting) (value : Option String) : Except Usage Draft := do
  let d ← d.settle
  match value with
  | some text => d.assign s text
  | none => .ok { d with pending := some (.awaiting s) }

/-- An option that ends the reading. -/
def stop (u : Usage) : Except Usage Draft := do
  let _ ← d.settle
  .error u

/-- An argument that is no option. -/
def usePath (path : String) : Except Usage Draft :=
  if d.hasLog then .error .unknown
  else do
    let d ← d.settle
    .ok { d with pending := some (.log path), hasLog := true }

/-- The text after the first `=`, if there is one, and the text before it. -/
def splitValue (cs : List Char) : String × Option String :=
  let name := String.ofList (cs.takeWhile (· != '='))
  match cs.dropWhile (· != '=') with
  | [] => (name, none)
  | _ :: value => (name, some (String.ofList value))

/-- An argument after `--`. -/
def readLong (cs : List Char) : Except Usage Draft :=
  let (name, value) := splitValue cs
  match Switch.ofName? name, value with
  | none, _ => .error .unknown
  | some (.setting s), value => d.useSetting s value
  | some _, some _ => .error .needlessValue
  | some .help, none => d.stop .help
  | some .version, none => d.stop .version
  | some (.flag f), none => d.useFlag f

/-- The letters of an argument after `-`.  What follows the letter of an option with a value is the
value, a `=` before it apart. -/
def readLetters (d : Draft) : List Char → Except Usage Draft
  | [] => .ok d
  | c :: cs =>
    match Switch.ofLetter? c with
    | none => .error .unknown
    | some .help => d.stop .help
    | some .version => d.stop .version
    | some (.flag f) =>
      match d.useFlag f with
      | .ok d => readLetters d cs
      | .error u => .error u
    | some (.setting s) =>
      match cs with
      | [] => d.useSetting s none
      | '=' :: cs => d.useSetting s (some (String.ofList cs))
      | cs => d.useSetting s (some (String.ofList cs))

/-- The option that waits for its value. -/
def awaited : Option Setting :=
  match d.pending with
  | some (.awaiting s) => some s
  | _ => none

/-- A value or a path. -/
def readPlain (text : String) : Except Usage Draft :=
  match d.awaited with
  | some s => .ok { d with pending := some (.value s text) }
  | none => d.usePath text

/-- The option takes negative numbers. -/
def takesNegative : Option Setting → Bool
  | some .minTime => true
  | some .minMemory => true
  | _ => false

/-- Reads an argument. -/
def read (text : String) : Except Usage Draft :=
  if d.trailing then d.usePath text
  else
    match text.toList with
    | ['-', '-'] => .ok { d with trailing := true }
    | '-' :: '-' :: cs => d.readLong cs
    | '-' :: c :: cs =>
      if takesNegative d.awaited && looksNumeric (c :: cs) then d.readPlain text
      else d.readLetters (c :: cs)
    | _ => d.readPlain text

/-- The options, given the path of the log; what was not said has its usual value. -/
def options (log : String) : Options where
  log
  minTime := d.minTime.getD Retention.anyTime
  minMemory := d.minMemory.getD Retention.anyMemory
  dump := d.flags.contains .dump
  format := d.format.getD .text
  order := d.order.getD .depth
  keepSynthetic := d.flags.contains .keepSynthetic
  csvSource := d.flags.contains .csvSource
  csvStats := d.flags.contains .csvStats
  debug := d.flags.contains .debug

/-- What the arguments say once all are read. -/
def finish : Except Usage Options := do
  let d ← d.settle
  match d.log with
  | none => .error .missingLog
  | some log => .ok (d.options log)

end Draft

/-- What the arguments say. -/
def Options.ofArguments (arguments : List String) : Except Usage Options := do
  let d ← arguments.foldlM Draft.read .empty
  d.finish

end CommandLine

end CallForest
