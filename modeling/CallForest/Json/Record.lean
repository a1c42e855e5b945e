import CallForest.Json.Skip
import CallForest.Json.Value

/-!
# Records

A `Schema` names the fields of a record and says of what kind they are; a `Row` has a value of the
right type for each of them.  A row is read from an object, whose members come in any order and may
include unknown ones, or from a list of the values in the order of the fields.  It is written as an
object in the order of the fields.
-/

namespace CallForest

namespace Json

/-- The kinds of fields. -/
inductive Kind where
  | text
  | nat32
  | int64
  | real
  deriving DecidableEq

namespace Kind

/-- The values of a kind. -/
abbrev Carrier : Kind → Type
  | text => String
  | nat32 => UInt32
  | int64 => Int64
  | real => Seconds

/-- The kind in words. -/
def describe : Kind → String
  | text => "a string"
  | nat32 => "u32"
  | int64 => "i64"
  | real => "f64"

/-- A value as JSON. -/
def toValue : (k : Kind) → k.Carrier → Value
  | text, s => .text s
  | nat32, n => .integer n.toNat
  | int64, n => .integer n.toInt
  | real, x => .real x

end Kind

/-- One field of a record. -/
structure Field where
  name : String
  kind : Kind

/-- The fields of a record, and its name in messages. -/
structure Schema where
  name : String
  fields : List Field

namespace Schema

/-- The record in words. -/
def describe (s : Schema) : String := "struct " ++ s.name

end Schema

/-- A value for every field. -/
abbrev Row : List Field → Type
  | [] => Unit
  | f :: fs => f.kind.Carrier × Row fs

/-- The values found so far. -/
abbrev Slots : List Field → Type
  | [] => Unit
  | f :: fs => Option f.kind.Carrier × Slots fs

/-! ### Reading a value -/

/-- The refusal of a value, at its first character, because something else is expected. -/
def refused (expected : String) (cs : List Char) : Failure :=
  match cs with
  | [] => .before .endInValue []
  | c :: r =>
    let after (found : Found) (r : Except Failure (List Char)) : Failure :=
      match r with
      | .ok r => .before (.wrongType found expected) r
      | .error f => f
    if c = 'n' then after .null (word ['u', 'l', 'l'] r)
    else if c = 't' then after (.boolean true) (word ['r', 'u', 'e'] r)
    else if c = 'f' then after (.boolean false) (word ['a', 'l', 's', 'e'] r)
    else if c = '"' then
      match stringBody [] r with
      | .ok (s, r) => .before (.wrongType (.text s) expected) r
      | .error f => f
    else if c = '[' then .before (.wrongType .list expected) (c :: r)
    else if c = '\x7b' then .before (.wrongType .object expected) (c :: r)
    else if c = '-' ∨ (digit? c).isSome then
      match number (c :: r) with
      | .ok (.integer n, r) => .before (.wrongType (.integer n) expected) r
      | .ok (.real x, r) => .before (.wrongType (.real x) expected) r
      | .error f => f
    else .within .expectedValue 1 (c :: r)

/-- The integer as a value of an integer kind. -/
def Kind.ofInteger (k : Kind) (n : Int) (rest : List Char) : Scan k.Carrier :=
  let outside : Failure := .before (.wrongValue n k.describe) rest
  match k with
  | .text => .error (.before (.wrongType (.integer n) k.describe) rest)
  | .nat32 => if 0 ≤ n ∧ n < UInt32.size then .ok (UInt32.ofNat n.toNat, rest) else .error outside
  | .int64 => if Checked.InRange n then .ok (Int64.ofInt n, rest) else .error outside
  | .real => .ok (.ofFloat (Float.ofInt n), rest)

/-- Reads a value of a kind. -/
def Kind.read (k : Kind) (cs : List Char) : Scan k.Carrier :=
  match skipBlanks cs with
  | [] => .error (.before .endInValue [])
  | c :: r =>
    match k with
    | .text => if c = '"' then stringBody [] r else .error (refused "a string" (c :: r))
    | k =>
      if c = '-' ∨ (digit? c).isSome then
        match number (c :: r) with
        | .error f => .error f
        | .ok (.integer n, r) => k.ofInteger n r
        | .ok (.real x, r) =>
          match k with
          | .real => .ok (x, r)
          | k => .error (.before (.wrongType (.real x) k.describe) r)
      else .error (refused k.describe (c :: r))

theorem Kind.rest_eq_of_ofInteger {k : Kind} {n : Int} {rest r : List Char} {v : k.Carrier}
    (h : k.ofInteger n rest = .ok (v, r)) : r = rest := by
  unfold Kind.ofInteger at h
  dsimp only at h
  split at h
  · cases h
  · split at h
    · simp only [Except.ok.injEq, Prod.mk.injEq] at h
      exact h.2.symm
    · cases h
  · split at h
    · simp only [Except.ok.injEq, Prod.mk.injEq] at h
      exact h.2.symm
    · cases h
  · simp only [Except.ok.injEq, Prod.mk.injEq] at h
    exact h.2.symm

theorem Kind.length_le_of_read {k : Kind} {cs r : List Char} {v : k.Carrier}
    (h : k.read cs = .ok (v, r)) : r.length ≤ cs.length := by
  unfold Kind.read at h
  have hb := length_skipBlanks_le cs
  split at h
  · cases h
  · rename_i c s hc
    rw [hc, List.length_cons] at hb
    split at h
    · split at h
      · have := length_lt_of_stringBody h
        omega
      · cases h
    · split at h
      · split at h
        · cases h
        · rename_i hn
          have := length_le_of_number hn
          rw [Kind.rest_eq_of_ofInteger h]
          simp only [List.length_cons] at this
          omega
        · rename_i hn
          have := length_le_of_number hn
          simp only [List.length_cons] at this
          split at h
          · simp only [Except.ok.injEq, Prod.mk.injEq] at h
            obtain ⟨-, rfl⟩ := h
            omega
          · cases h
      · cases h

/-! ### Reading a record -/

namespace Slots

/-- Nothing found. -/
def empty : (fs : List Field) → Slots fs
  | [] => ()
  | _ :: fs => (none, empty fs)

/-- There is a field of this name and its value has been found. -/
def has : (fs : List Field) → Slots fs → String → Bool
  | [], _, _ => false
  | f :: fs, (v, vs), key => if f.name = key then v.isSome else has fs vs key

/-- Reads the value of a member into its slot; that of an unknown member is passed over. -/
def read : (fs : List Field) → Slots fs → String → List Char → Scan (Slots fs)
  | [], _, _, cs => (skipValue cs).map ((), ·)
  | f :: fs, (v, vs), key, cs =>
    if f.name = key then (f.kind.read cs).map fun (v, r) => ((some v, vs), r)
    else (read fs vs key cs).map fun (vs, r) => ((v, vs), r)

/-- The row, or the name of the first field without a value. -/
def complete : (fs : List Field) → Slots fs → Except String (Row fs)
  | [], _ => .ok ()
  | f :: _, (none, _) => .error f.name
  | _ :: fs, (some v, vs) => (complete fs vs).map (v, ·)

theorem length_le_of_read {fs : List Field} {vs vs' : Slots fs} {key : String} {cs r : List Char}
    (h : read fs vs key cs = .ok (vs', r)) : r.length ≤ cs.length := by
  induction fs generalizing r with
  | nil =>
    unfold read at h
    cases hs : skipValue cs with
    | error => simp [hs, Except.map] at h
    | ok s =>
      simp only [hs, Except.map, Except.ok.injEq, Prod.mk.injEq] at h
      obtain ⟨-, rfl⟩ := h
      exact length_le_of_skipValue hs
  | cons f fs ih =>
    obtain ⟨v, vs⟩ := vs
    unfold read at h
    split at h
    · cases hs : f.kind.read cs with
      | error => simp [hs, Except.map] at h
      | ok s =>
        obtain ⟨v', r'⟩ := s
        simp only [hs, Except.map, Except.ok.injEq, Prod.mk.injEq] at h
        obtain ⟨-, rfl⟩ := h
        exact Kind.length_le_of_read hs
    · cases hs : read fs vs key cs with
      | error => simp [hs, Except.map] at h
      | ok s =>
        obtain ⟨vs'', r'⟩ := s
        simp only [hs, Except.map, Except.ok.injEq, Prod.mk.injEq] at h
        obtain ⟨-, rfl⟩ := h
        exact ih hs

end Slots

/-- What follows the closing brace, if that is what comes next, and else the text from its first
character that is no white space on. -/
def passClose (cs : List Char) : List Char :=
  match skipBlanks cs with
  | [] => []
  | c :: r => if c = '\x7d' then r else c :: r

/-- Reads the key of a member, its colon and its value.  A key that comes again is refused once the
end of the object has been looked for behind it. -/
def readMember (fs : List Field) (vs : Slots fs) (cs : List Char) : Scan (Slots fs) :=
  match cs with
  | [] => .error (.before .endInObject [])
  | c :: r =>
    if c = '"' then
      match stringBody [] r with
      | .error f => .error f
      | .ok (key, r) =>
        if Slots.has fs vs key then .error (.before (.duplicateField key) (passClose r))
        else
          match colon r with
          | .error f => .error f
          | .ok r => Slots.read fs vs key r
    else .error (.within .keyNotText 1 (c :: r))

theorem length_lt_of_readMember {fs : List Field} {vs vs' : Slots fs} {cs r : List Char}
    (h : readMember fs vs cs = .ok (vs', r)) : r.length < cs.length := by
  unfold readMember at h
  split at h
  · cases h
  · simp only [List.length_cons]
    split at h
    · split at h
      · cases h
      · rename_i hs
        have := length_lt_of_stringBody hs
        split at h
        · cases h
        · split at h
          · cases h
          · rename_i hc
            have := length_le_of_colon hc
            have := Slots.length_le_of_read h
            omega
    · cases h

/-- Reads the members after the first one and the closing brace. -/
def readMembers (fs : List Field) (vs : Slots fs) (cs : List Char) : Scan (Slots fs) :=
  match _hb : skipBlanks cs with
  | [] => .error (.before .endInObject [])
  | c :: r =>
    if c = '\x7d' then .ok (vs, r)
    else if c = ',' then
      match _hr : skipBlanks r with
      | [] => .error (.before .endInValue [])
      | d :: s =>
        if d = '\x7d' then .error (.within .trailingComma 1 (d :: s))
        else
          match _hm : readMember fs vs (d :: s) with
          | .error f => .error f
          | .ok (vs, s) => readMembers fs vs s
    else .error (.within .expectedCommaInObject 1 (c :: r))
termination_by cs.length
decreasing_by
  have h₁ := length_skipBlanks_le cs
  rw [_hb, List.length_cons] at h₁
  have h₂ := length_skipBlanks_le r
  rw [_hr] at h₂
  have h₃ := length_lt_of_readMember _hm
  omega

/-- Reads an object after its brace. -/
def readObject (fs : List Field) (cs : List Char) : Scan (Row fs) :=
  let members : Scan (Slots fs) :=
    match skipBlanks cs with
    | [] => .error (.before .endInObject [])
    | c :: r =>
      if c = '\x7d' then .ok (Slots.empty fs, r)
      else
        match readMember fs (Slots.empty fs) (c :: r) with
        | .error f => .error f
        | .ok (vs, r) => readMembers fs vs r
  match members with
  | .error f => .error f
  | .ok (vs, r) =>
    match Slots.complete fs vs with
    | .error name => .error (.before (.missingField name) r)
    | .ok row => .ok (row, r)

/-- Reads the closing bracket of a list of values. -/
def readListEnd (cs : List Char) : Except Failure (List Char) :=
  match skipBlanks cs with
  | [] => .error (.before .endInList [])
  | c :: r =>
    if c = ']' then .ok r
    else if c = ',' then
      match skipBlanks r with
      | ']' :: s => .error (.within .trailingComma 1 (']' :: s))
      | s => .error (.within .trailingCharacters 1 s)
    else .error (.within .trailingCharacters 1 (c :: r))

/-- Reads the values of a list after its bracket or after a value, of which there were `count`. -/
def readItems (short : Nat → Cause) (count : Nat) :
    (fs : List Field) → List Char → Scan (Row fs)
  | [], cs => (readListEnd cs).map ((), ·)
  | f :: fs, cs =>
    let item (cs : List Char) : Scan (Row (f :: fs)) :=
      match f.kind.read cs with
      | .error e => .error e
      | .ok (v, r) => (readItems short (count + 1) fs r).map fun (vs, r) => ((v, vs), r)
    match skipBlanks cs with
    | [] => .error (.before .endInList [])
    | c :: r =>
      if c = ']' then .error (.before (short count) r)
      else if count = 0 then item (c :: r)
      else if c = ',' then
        match skipBlanks r with
        | [] => .error (.before .endInValue [])
        | d :: s =>
          if d = ']' then .error (.within .trailingComma 1 (d :: s)) else item (d :: s)
      else .error (.within .expectedCommaInList 1 (c :: r))

namespace Schema

variable (s : Schema)

/-- Reads a record. -/
def readRow (cs : List Char) : Scan (Row s.fields) :=
  match skipBlanks cs with
  | [] => .error (.before .endInValue [])
  | c :: r =>
    if c = '[' then
      readItems (fun n => .wrongLength n s.describe s.fields.length) 0 s.fields r
    else if c = '\x7b' then readObject s.fields r
    else .error (refused s.describe (c :: r))

end Schema

/-- A value that is a whole text. -/
def whole {α : Type} (read : List Char → Scan α) (text : List Char) : Except Failure α :=
  match read text with
  | .error f => .error f
  | .ok (v, r) =>
    match skipBlanks r with
    | [] => .ok v
    | r => .error (.within .trailingCharacters 1 r)

/-- The row that a text stands for. -/
def Schema.parse (s : Schema) (text : List Char) : Except Failure (Row s.fields) :=
  whole s.readRow text

/-! ### Writing -/

/-- The members of a row. -/
def Row.members : (fs : List Field) → Row fs → List (String × Value)
  | [], _ => []
  | f :: fs, (v, vs) => (f.name, f.kind.toValue v) :: members fs vs

/-- The row as an object. -/
def Schema.toValue (s : Schema) (row : Row s.fields) : Value := .object (Row.members s.fields row)

/-! ### Words -/

/-- Reads one of a few words, alone or as the only key of an object whose value is `null`. -/
def readWord {α : Type} (words : List (String × α)) (cs : List Char) :
    Except Failure (α × List Char) :=
  let pick (s : String) (r : List Char) : Except Failure (α × List Char) :=
    match words.lookup s with
    | some v => .ok (v, r)
    | none => .error (.before (.unknownWord s (words.map (·.1))) r)
  match skipBlanks cs with
  | [] => .error (.before .endInValue [])
  | c :: r =>
    if c = '"' then do
      let (s, r) ← stringBody [] r
      pick s r
    else if c = '\x7b' then
      match skipBlanks r with
      | [] => .error (.before .endInObject [])
      | d :: r =>
        if d = '"' then do
          let (s, r) ← stringBody [] r
          let (v, r) ← pick s r
          let r ← colon r
          match skipBlanks r with
          | [] => .error (.before .endInValue [])
          | 'n' :: r =>
            let r ← word ['u', 'l', 'l'] r
            match skipBlanks r with
            | [] => .error (.before .endInObject [])
            | e :: r => if e = '\x7d' then .ok (v, r) else .error (.before .expectedValue (e :: r))
          | r => .error (refused "unit" r)
        else if d = '\x7d' then .error (.within .expectedValue 1 (d :: r))
        else .error (.within .keyNotText 1 (d :: r))
    else .error (.within .expectedValue 1 (c :: r))

end Json

end CallForest
