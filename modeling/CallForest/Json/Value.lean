import CallForest.Json.Text

/-!
# Values and how they are written

A JSON value is written on one line without blanks (`Value.compact`) or over several lines, every
item indented by two blanks more than what holds it (`Value.pretty`).
-/

namespace CallForest

namespace Json

/-- A JSON value.  A double that is no number is written as `null`. -/
inductive Value where
  | integer (n : Int)
  | real (x : Seconds)
  | text (s : String)
  | list (items : List Value)
  | object (members : List (String × Value))

namespace Value

mutual

/-- A value on one line. -/
def compact : Value → String
  | integer n => toString n
  | real x => realText x
  | text s => stringText s
  | list items => "[" ++ ",".intercalate (compactItems items) ++ "]"
  | object members => "\x7b" ++ ",".intercalate (compactMembers members) ++ "\x7d"

/-- The items of a list, each on one line. -/
def compactItems : List Value → List String
  | [] => []
  | v :: vs => v.compact :: compactItems vs

/-- The members of an object, each on one line. -/
def compactMembers : List (String × Value) → List String
  | [] => []
  | (k, v) :: ms => (stringText k ++ ":" ++ v.compact) :: compactMembers ms

end

/-- A new line at a depth of nesting. -/
def newLine (depth : Nat) : String := "\n".pushn ' ' (2 * depth)

/-- Items in brackets, each on its own line; brackets without items stay on one. -/
def block (opener closer : String) (depth : Nat) (items : List String) : String :=
  if items.isEmpty then opener ++ closer
  else
    opener ++ newLine (depth + 1) ++ ("," ++ newLine (depth + 1)).intercalate items ++
      newLine depth ++ closer

mutual

/-- A value over several lines, at a depth of nesting. -/
def pretty (depth : Nat) : Value → String
  | integer n => toString n
  | real x => realText x
  | text s => stringText s
  | list items => block "[" "]" depth (prettyItems (depth + 1) items)
  | object members => block "\x7b" "\x7d" depth (prettyMembers (depth + 1) members)

/-- The items of a list. -/
def prettyItems (depth : Nat) : List Value → List String
  | [] => []
  | v :: vs => v.pretty depth :: prettyItems depth vs

/-- The members of an object. -/
def prettyMembers (depth : Nat) : List (String × Value) → List String
  | [] => []
  | (k, v) :: ms => (stringText k ++ ": " ++ v.pretty depth) :: prettyMembers depth ms

end

end Value

end Json

end CallForest
