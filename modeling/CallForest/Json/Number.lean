import CallForest.Checked
import CallForest.Json.Failure

/-!
# Numbers in JSON

A number without point and exponent is an integer; every other one, and an integer that is too
long, is a double.  The double is computed as a product: as many leading digits as stay below
`2^64` make an integer, the exponent says how many places it is off, and the integer is multiplied
or divided by that power of ten.  Each step rounds, so the result may differ in its last bit from
the nearest double.
-/

namespace CallForest

namespace Json

/-- A number as it is read. -/
inductive Number where
  | integer (n : Int)
  | real (x : Seconds)
  deriving DecidableEq, Repr

/-- The value of a decimal digit. -/
def digit? (c : Char) : Option Nat :=
  if '0' ≤ c ∧ c ≤ '9' then some (c.toNat - '0'.toNat) else none

/-- The text starts with a digit. -/
def startsWithDigit : List Char → Bool
  | [] => false
  | c :: _ => (digit? c).isSome

/-- The digits at the front of a text. -/
def leadingDigits (cs : List Char) : List Nat :=
  (cs.takeWhile fun c => (digit? c).isSome).filterMap digit?

/-- The text from its first character that is no digit on. -/
def skipDigits (cs : List Char) : List Char := cs.dropWhile fun c => (digit? c).isSome

/-- Whether there is a minus sign, and what follows it. -/
def minusSign : List Char → Bool × List Char
  | '-' :: cs => (true, cs)
  | cs => (false, cs)

/-- The digits before the point; after a leading zero there is none. -/
def wholeDigits (cs : List Char) : Scan (List Nat) :=
  match cs with
  | [] => .error (.before .endInValue [])
  | '0' :: r =>
    if startsWithDigit r then .error (.within .invalidNumber 1 r) else .ok ([0], r)
  | c :: r =>
    if (digit? c).isSome then .ok (leadingDigits (c :: r), skipDigits r)
    else .error (.within .invalidNumber 1 (c :: r))

/-- The digits after the point, if there is one. -/
def fractionDigits (cs : List Char) : Scan (Option (List Nat)) :=
  match cs with
  | '.' :: r =>
    if startsWithDigit r then .ok (some (leadingDigits r), skipDigits r)
    else .error (.within (if r.isEmpty then .endInValue else .invalidNumber) 1 r)
  | cs => .ok (none, cs)

/-- Whether an exponent has a minus sign, and what follows its sign. -/
def exponentSign : List Char → Bool × List Char
  | '+' :: cs => (false, cs)
  | cs => minusSign cs

/-- The digits of an exponent and whether it has a minus sign, if there is one. -/
def exponentDigits (cs : List Char) : Scan (Option (Bool × List Nat)) :=
  match cs with
  | [] => .ok (none, [])
  | c :: r =>
    if c = 'e' ∨ c = 'E' then
      let s := exponentSign r
      if startsWithDigit s.2 then .ok (some (s.1, leadingDigits s.2), skipDigits s.2)
      else .error (.within (if s.2.isEmpty then .endInValue else .invalidNumber) 1 s.2)
    else .ok (none, c :: r)

/-- A number as it is written. -/
structure Numeral where
  negative : Bool
  whole : List Nat
  fraction : Option (List Nat)
  /-- Whether the exponent is negative, and its digits. -/
  exponent : Option (Bool × List Nat)

/-- Reads the parts of a number. -/
def numeral (cs : List Char) : Except Failure (Numeral × List Char) := do
  let (whole, r) ← wholeDigits (minusSign cs).2
  let (fraction, r) ← fractionDigits r
  let (exponent, r) ← exponentDigits r
  .ok (⟨(minusSign cs).1, whole, fraction, exponent⟩, r)

/-- The bound of the integer that leading digits make. -/
def significandBound : Nat := UInt64.size

/-- Appends digits to an integer as long as it stays below the bound, and counts them. -/
def absorb (n count : Nat) : List Nat → Nat × Nat
  | [] => (n, count)
  | d :: ds =>
    if n * 10 + d < significandBound then absorb (n * 10 + d) (count + 1) ds else (n, count)

/-- The greatest exponent that is told from the greater ones. -/
def exponentBound : Nat := 0x7FFFFFFF

/-- The value of an exponent; one that is too great is given by the number of digits after the one
that makes it so. -/
def exponentValue (n : Nat) : List Nat → Except Nat Nat
  | [] => .ok n
  | d :: ds =>
    if exponentBound < n * 10 + d then .error ds.length else exponentValue (n * 10 + d) ds

/-- A power of ten that a double can be multiplied by in one step. -/
def powerOfTen (n : Nat) : Float := Float.ofScientific 1 false n

/-- The greatest exponent of a power of ten among the doubles. -/
def powerBound : Nat := 308

/-- The double `x * 10 ^ power`, none if it is too great. -/
def scale (x : Float) (power : Int) : Option Float :=
  if power.natAbs ≤ powerBound then
    if 0 ≤ power then
      let y := x * powerOfTen power.natAbs
      if y.isInf then none else some y
    else some (x / powerOfTen power.natAbs)
  else if x == 0.0 then some x
  else if 0 ≤ power then none
  else scale (x / powerOfTen powerBound) (power + powerBound)
termination_by power.natAbs
decreasing_by
  simp only [powerBound] at *
  omega

/-- A double with its sign. -/
def signed (negative : Bool) (x : Float) : Number := .real (.ofFloat (if negative then -x else x))

/-- The integer of given digits, a double if it is no signed or unsigned 64-bit integer. -/
def integerNumber (negative : Bool) (n : Nat) : Number :=
  if negative then
    if n = 0 ∨ ¬Checked.InRange (-n) then signed true (Float.ofNat n) else .integer (-n)
  else .integer n

/-- The value of a number, or how many of its digits are left to read when it turns out to be too
great.  A number whose exponent is too far below zero is zero, and so is zero with any exponent. -/
def Numeral.value (n : Numeral) : Except Nat Number :=
  let (leading, count) := absorb 0 0 n.whole
  let (m, places) := absorb leading 0 (n.fraction.getD [])
  let power : Int := n.whole.length - count - places
  let scaled (power : Int) : Except Nat Number :=
    match scale (Float.ofNat m) power with
    | some x => .ok (signed n.negative x)
    | none => .error 0
  match n.exponent with
  | none =>
    if n.fraction.isNone && count == n.whole.length then .ok (integerNumber n.negative leading)
    else scaled power
  | some (down, digits) =>
    match exponentValue 0 digits with
    | .ok e => scaled (if down then power - e else power + e)
    | .error unread => if m ≠ 0 ∧ ¬down then .error unread else .ok (signed n.negative 0.0)

/-- Reads a number. -/
def number (cs : List Char) : Scan Number :=
  match numeral cs with
  | .error f => .error f
  | .ok (n, r) =>
    match n.value with
    | .ok v => .ok (v, r)
    | .error unread => .error ⟨.numberOutOfRange, byteLength r + unread⟩

/-- Passes over digits of which there has to be one. -/
def skipSomeDigits (cs : List Char) : Except Failure (List Char) :=
  if startsWithDigit cs then .ok (skipDigits cs) else .error (.within .invalidNumber 1 cs)

/-- Passes over the digits before the point. -/
def skipWhole (cs : List Char) : Except Failure (List Char) :=
  match cs with
  | '0' :: r => if startsWithDigit r then .error (.within .invalidNumber 1 r) else .ok r
  | cs => skipSomeDigits cs

/-- Passes over the point and the digits after it, if there is one. -/
def skipFraction (cs : List Char) : Except Failure (List Char) :=
  match cs with
  | '.' :: r => skipSomeDigits r
  | cs => .ok cs

/-- Passes over an exponent, if there is one. -/
def skipExponent (cs : List Char) : Except Failure (List Char) :=
  match cs with
  | [] => .ok []
  | c :: r => if c = 'e' ∨ c = 'E' then skipSomeDigits (exponentSign r).2 else .ok (c :: r)

/-- Passes over a number. -/
def skipNumber (cs : List Char) : Except Failure (List Char) := do
  let r ← skipWhole (minusSign cs).2
  let r ← skipFraction r
  skipExponent r

/-! ### Nothing is read twice -/

theorem length_skipDigits_le (cs : List Char) : (skipDigits cs).length ≤ cs.length :=
  (List.dropWhile_sublist _).length_le

theorem length_minusSign_le (cs : List Char) : (minusSign cs).2.length ≤ cs.length := by
  unfold minusSign
  split <;> simp

theorem length_le_of_wholeDigits {cs r : List Char} {ds : List Nat}
    (h : wholeDigits cs = .ok (ds, r)) : r.length ≤ cs.length := by
  unfold wholeDigits at h
  split at h
  · cases h
  · split at h
    · cases h
    · simp only [Except.ok.injEq, Prod.mk.injEq] at h
      obtain ⟨-, rfl⟩ := h
      simp
  · rename_i c r' _
    split at h
    · simp only [Except.ok.injEq, Prod.mk.injEq] at h
      obtain ⟨-, rfl⟩ := h
      have := length_skipDigits_le r'
      simp only [List.length_cons]
      omega
    · cases h

theorem length_le_of_fractionDigits {cs r : List Char} {ds : Option (List Nat)}
    (h : fractionDigits cs = .ok (ds, r)) : r.length ≤ cs.length := by
  unfold fractionDigits at h
  split at h
  · rename_i r'
    split at h
    · simp only [Except.ok.injEq, Prod.mk.injEq] at h
      obtain ⟨-, rfl⟩ := h
      have := length_skipDigits_le r'
      simp only [List.length_cons]
      omega
    · cases h
  · simp only [Except.ok.injEq, Prod.mk.injEq] at h
    obtain ⟨-, rfl⟩ := h
    exact Nat.le_refl _

theorem length_exponentSign_le (cs : List Char) : (exponentSign cs).2.length ≤ cs.length := by
  unfold exponentSign
  split
  · simp
  · exact length_minusSign_le _

theorem length_le_of_exponentDigits {cs r : List Char} {e : Option (Bool × List Nat)}
    (h : exponentDigits cs = .ok (e, r)) : r.length ≤ cs.length := by
  unfold exponentDigits at h
  split at h
  · cases h
    exact Nat.le_refl _
  · rename_i c r'
    split at h
    · dsimp only at h
      split at h
      · simp only [Except.ok.injEq, Prod.mk.injEq] at h
        obtain ⟨-, rfl⟩ := h
        have := length_skipDigits_le (exponentSign r').2
        have := length_exponentSign_le r'
        simp only [List.length_cons]
        omega
      · cases h
    · cases h
      exact Nat.le_refl _

theorem length_le_of_numeral {cs r : List Char} {n : Numeral} (h : numeral cs = .ok (n, r)) :
    r.length ≤ cs.length := by
  unfold numeral at h
  obtain ⟨⟨whole, r₁⟩, h₁, h⟩ := exists_ok_of_bind_eq_ok h
  obtain ⟨⟨fraction, r₂⟩, h₂, h⟩ := exists_ok_of_bind_eq_ok h
  obtain ⟨⟨exponent, r₃⟩, h₃, h⟩ := exists_ok_of_bind_eq_ok h
  simp only [Except.ok.injEq, Prod.mk.injEq] at h
  obtain ⟨-, rfl⟩ := h
  have l₀ := length_minusSign_le cs
  have l₁ := length_le_of_wholeDigits h₁
  have l₂ := length_le_of_fractionDigits h₂
  have l₃ := length_le_of_exponentDigits h₃
  omega

theorem length_le_of_number {cs r : List Char} {v : Number} (h : number cs = .ok (v, r)) :
    r.length ≤ cs.length := by
  unfold number at h
  split at h
  · cases h
  · rename_i hn
    split at h
    · simp only [Except.ok.injEq, Prod.mk.injEq] at h
      obtain ⟨-, rfl⟩ := h
      exact length_le_of_numeral hn
    · cases h

theorem length_le_of_skipSomeDigits {cs r : List Char} (h : skipSomeDigits cs = .ok r) :
    r.length ≤ cs.length := by
  unfold skipSomeDigits at h
  split at h
  · cases h
    exact length_skipDigits_le cs
  · cases h

theorem length_le_of_skipWhole {cs r : List Char} (h : skipWhole cs = .ok r) :
    r.length ≤ cs.length := by
  unfold skipWhole at h
  split at h
  · split at h <;> cases h
    simp
  · exact length_le_of_skipSomeDigits h

theorem length_le_of_skipFraction {cs r : List Char} (h : skipFraction cs = .ok r) :
    r.length ≤ cs.length := by
  unfold skipFraction at h
  split at h
  · have := length_le_of_skipSomeDigits h
    simp only [List.length_cons]
    omega
  · cases h
    exact Nat.le_refl _

theorem length_le_of_skipExponent {cs r : List Char} (h : skipExponent cs = .ok r) :
    r.length ≤ cs.length := by
  unfold skipExponent at h
  split at h
  · cases h
    exact Nat.le_refl _
  · rename_i c r'
    split at h
    · have := length_le_of_skipSomeDigits h
      have := length_exponentSign_le r'
      simp only [List.length_cons]
      omega
    · cases h
      exact Nat.le_refl _

theorem length_le_of_skipNumber {cs r : List Char} (h : skipNumber cs = .ok r) :
    r.length ≤ cs.length := by
  unfold skipNumber at h
  obtain ⟨r₁, h₁, h⟩ := exists_ok_of_bind_eq_ok h
  obtain ⟨r₂, h₂, h⟩ := exists_ok_of_bind_eq_ok h
  have l₀ := length_minusSign_le cs
  have l₁ := length_le_of_skipWhole h₁
  have l₂ := length_le_of_skipFraction h₂
  have l₃ := length_le_of_skipExponent h
  omega

end Json

end CallForest
