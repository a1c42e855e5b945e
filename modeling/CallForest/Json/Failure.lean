import CallForest.Decimal.Layout
import CallForest.Seconds
import CallForest.Text.Quoted

/-!
# Why a text is not the JSON wanted

Readers of JSON are functions from the characters still to read to a value and the characters after
it.  A reader that fails says why and how many bytes were left when it noticed, which
`Failure.place` turns into a line and a column, both counted from one and in bytes; a column is
that of the last byte read.
-/

namespace CallForest

namespace Json

/-- Numbers are written with the fewest digits that read back, positionally from `0.00001` up to
`10^16`, and of two equally near decimals the even one. -/
def numberLayout : Decimal.Layout where
  tie := .toEven
  plainFrom := -5
  plainBelow := 16
  plusSign := true

/-- The text of a double; what is no number is `null`. -/
def realText (x : Seconds) : String :=
  match Decimal.Reading.ofBits x.bits with
  | .finite negative size => numberLayout.finite negative size
  | _ => "null"

/-- What stands where something else is expected. -/
inductive Found where
  | null
  | boolean (b : Bool)
  | integer (n : Int)
  | real (x : Seconds)
  | text (s : String)
  | list
  | object
  deriving DecidableEq, Repr

namespace Found

/-- What was found, in words. -/
def describe : Found → String
  | null => "null"
  | boolean b => "boolean `" ++ (if b then "true" else "false") ++ "`"
  | integer n => "integer `" ++ toString n ++ "`"
  | real x => "floating point `" ++ realText x ++ "`"
  | text s => "string " ++ Text.quoted s
  | list => "sequence"
  | object => "map"

end Found

/-- Why a text is refused. -/
inductive Cause where
  | endInValue
  | endInString
  | endInList
  | endInObject
  | misspelledWord
  | invalidNumber
  | numberOutOfRange
  | invalidEscape
  | unfinishedEscape
  | loneSurrogate
  | controlCharacter
  | expectedValue
  | expectedColon
  | expectedCommaInList
  | expectedCommaInObject
  | trailingComma
  | trailingCharacters
  | keyNotText
  | wrongType (found : Found) (expected : String)
  | wrongValue (n : Int) (expected : String)
  | wrongLength (n : Nat) (record : String) (expected : Nat)
  | duplicateField (name : String)
  | missingField (name : String)
  | unknownWord (word : String) (expected : List String)
  deriving DecidableEq, Repr

namespace Cause

/-- The wording of a cause. -/
def message : Cause → String
  | endInValue => "EOF while parsing a value"
  | endInString => "EOF while parsing a string"
  | endInList => "EOF while parsing a list"
  | endInObject => "EOF while parsing an object"
  | misspelledWord => "expected ident"
  | invalidNumber => "invalid number"
  | numberOutOfRange => "number out of range"
  | invalidEscape => "invalid escape"
  | unfinishedEscape => "unexpected end of hex escape"
  | loneSurrogate => "lone leading surrogate in hex escape"
  | controlCharacter => "control character (\\u0000-\\u001F) found while parsing a string"
  | expectedValue => "expected value"
  | expectedColon => "expected `:`"
  | expectedCommaInList => "expected `,` or `]`"
  | expectedCommaInObject => "expected `,` or `\x7d`"
  | trailingComma => "trailing comma"
  | trailingCharacters => "trailing characters"
  | keyNotText => "key must be a string"
  | wrongType found expected => "invalid type: " ++ found.describe ++ ", expected " ++ expected
  | wrongValue n expected =>
    "invalid value: integer `" ++ toString n ++ "`, expected " ++ expected
  | wrongLength n record expected =>
    "invalid length " ++ toString n ++ ", expected " ++ record ++ " with " ++ toString expected ++
      " elements"
  | duplicateField name => "duplicate field `" ++ name ++ "`"
  | missingField name => "missing field `" ++ name ++ "`"
  | unknownWord word expected =>
    "unknown variant `" ++ word ++ "`, expected " ++
      " or ".intercalate (expected.map fun w => "`" ++ w ++ "`")

end Cause

/-- A refusal. -/
structure Failure where
  cause : Cause
  /-- The number of bytes not read when the cause was noticed. -/
  left : Nat
  deriving DecidableEq, Repr

/-- A value read from the front of a text, and what follows it. -/
abbrev Scan (α : Type) := Except Failure (α × List Char)

/-- The number of bytes of a text. -/
def byteLength (cs : List Char) : Nat := cs.foldl (fun n c => n + c.utf8Size) 0

/-- A refusal noticed in front of `cs`. -/
def Failure.before (cause : Cause) (cs : List Char) : Failure := ⟨cause, byteLength cs⟩

/-- A refusal noticed `n` bytes into `cs`, or at its end. -/
def Failure.within (cause : Cause) (n : Nat) (cs : List Char) : Failure := ⟨cause, byteLength cs - n⟩

/-- The line and column reached after `bytes` bytes of a text. -/
def placeAfter (line column bytes : Nat) : List Char → Nat × Nat
  | [] => (line, column)
  | c :: cs =>
    if bytes = 0 then (line, column)
    else if bytes < c.utf8Size then (line, column + bytes)
    else if c = '\n' then placeAfter (line + 1) 0 (bytes - 1) cs
    else placeAfter line (column + c.utf8Size) (bytes - c.utf8Size) cs

namespace Failure

/-- The line and column of a refusal within the text read. -/
def place (f : Failure) (text : List Char) : Nat × Nat :=
  placeAfter 1 0 (byteLength text - f.left) text

/-- The wording of a refusal with its place. -/
def message (f : Failure) (text : List Char) : String :=
  let (line, column) := f.place text
  f.cause.message ++ " at line " ++ toString line ++ " column " ++ toString column

end Failure

theorem exists_ok_of_bind_eq_ok {ε α β : Type} {x : Except ε α} {f : α → Except ε β} {b : β}
    (h : (x >>= f) = .ok b) : ∃ a, x = .ok a ∧ f a = .ok b := by
  cases x with
  | error e => cases h
  | ok a => exact ⟨a, rfl, h⟩

/-- The white space of JSON. -/
def isBlank (c : Char) : Bool := c == ' ' || c == '\n' || c == '\t' || c == '\r'

/-- The text from its first character that is no white space on. -/
def skipBlanks (cs : List Char) : List Char := cs.dropWhile isBlank

theorem length_skipBlanks_le (cs : List Char) : (skipBlanks cs).length ≤ cs.length :=
  (List.dropWhile_sublist _).length_le

/-- Reads the characters of a word. -/
def word : List Char → List Char → Except Failure (List Char)
  | [], cs => .ok cs
  | _ :: _, [] => .error (.before .endInValue [])
  | w :: ws, c :: cs => if c = w then word ws cs else .error (.within .misspelledWord 1 (c :: cs))

theorem length_le_of_word {ws cs r : List Char} (h : word ws cs = .ok r) :
    r.length ≤ cs.length := by
  fun_induction word ws cs with
  | case1 cs => simp_all
  | case2 => simp at h
  | case3 ws c cs ih =>
    have := ih h
    simp only [List.length_cons]
    omega
  | case4 => simp at h

end Json

end CallForest
