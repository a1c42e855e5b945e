import CallForest.Json.Number
import CallForest.Json.Text

/-!
# Values passed over

A value that nobody asked for is checked for its form and passed over.  The brackets open around
the place reached are on a stack, so values may be nested to any depth.
-/

namespace CallForest

namespace Json

/-- What may stand around a value. -/
inductive Bracket where
  | list
  | object
  deriving DecidableEq

namespace Bracket

/-- The bracket that a character opens. -/
def ofOpener? (c : Char) : Option Bracket :=
  if c = '[' then some list else if c = '\x7b' then some object else none

/-- The character that closes a bracket. -/
def closer : Bracket → Char
  | list => ']'
  | object => '\x7d'

/-- The text ends before the bracket is closed. -/
def unclosed : Bracket → Cause
  | list => .endInList
  | object => .endInObject

/-- After a value stands neither a comma nor the closing bracket. -/
def unseparated : Bracket → Cause
  | list => .expectedCommaInList
  | object => .expectedCommaInObject

end Bracket

/-- Reads the colon after a key. -/
def colon (cs : List Char) : Except Failure (List Char) :=
  match skipBlanks cs with
  | [] => .error (.before .endInObject [])
  | c :: r => if c = ':' then .ok r else .error (.within .expectedColon 1 (c :: r))

/-- Passes over what comes before a value inside a bracket: in an object, the key and its colon. -/
def skipKey (b : Bracket) (cs : List Char) : Except Failure (List Char) :=
  match b with
  | .list => .ok cs
  | .object =>
    match skipBlanks cs with
    | [] => .error (.before .endInObject [])
    | c :: r =>
      if c = '"' then do
        let r ← skipString r
        colon r
      else .error (.within .keyNotText 1 (c :: r))

/-- Passes over a value that is no list and no object, at its first character. -/
def skipScalar (cs : List Char) : Except Failure (List Char) :=
  match cs with
  | [] => .error (.before .endInValue [])
  | c :: r =>
    if c = 'n' then word ['u', 'l', 'l'] r
    else if c = 't' then word ['r', 'u', 'e'] r
    else if c = 'f' then word ['a', 'l', 's', 'e'] r
    else if c = '"' then skipString r
    else if c = '-' ∨ (digit? c).isSome then skipNumber (c :: r)
    else .error (.within .expectedValue 1 (c :: r))

theorem length_le_of_colon {cs r : List Char} (h : colon cs = .ok r) : r.length ≤ cs.length := by
  unfold colon at h
  have := length_skipBlanks_le cs
  split at h
  · cases h
  · rename_i c r' hc
    rw [hc, List.length_cons] at this
    split at h <;> cases h
    omega

theorem length_le_of_skipKey {b : Bracket} {cs r : List Char} (h : skipKey b cs = .ok r) :
    r.length ≤ cs.length := by
  unfold skipKey at h
  split at h
  · cases h
    exact Nat.le_refl _
  · have := length_skipBlanks_le cs
    split at h
    · cases h
    · rename_i c r' hc
      rw [hc, List.length_cons] at this
      split at h
      · obtain ⟨r₁, h₁, h⟩ := exists_ok_of_bind_eq_ok h
        have := length_lt_of_skipString h₁
        have := length_le_of_colon h
        omega
      · cases h

theorem length_le_of_skipScalar {cs r : List Char} (h : skipScalar cs = .ok r) :
    r.length ≤ cs.length := by
  unfold skipScalar at h
  split at h
  · cases h
  · simp only [List.length_cons]
    repeat' split at h
    · have := length_le_of_word h
      omega
    · have := length_le_of_word h
      omega
    · have := length_le_of_word h
      omega
    · have := length_lt_of_skipString h
      omega
    · exact length_le_of_skipNumber h
    · cases h

mutual

/-- Passes over a value and what the brackets around it still hold. -/
def skipNested (around : List Bracket) (cs : List Char) : Except Failure (List Char) :=
  match _hb : skipBlanks cs with
  | [] => .error (.before .endInValue [])
  | c :: r =>
    match Bracket.ofOpener? c with
    | some b =>
      match _hr : skipBlanks r with
      | [] => .error (.before b.unclosed [])
      | d :: s =>
        if d = b.closer then skipRest around s
        else
          match _hk : skipKey b (d :: s) with
          | .error f => .error f
          | .ok s => skipNested (b :: around) s
    | none =>
      match _hs : skipScalar (c :: r) with
      | .error f => .error f
      | .ok s => skipRest around s
termination_by (cs.length, 1)
decreasing_by
  all_goals
    have := length_skipBlanks_le cs
    rw [_hb, List.length_cons] at this
  · have := length_skipBlanks_le r
    rw [_hr, List.length_cons] at this
    exact Prod.Lex.left _ _ (by omega)
  · have := length_skipBlanks_le r
    rw [_hr] at this
    have := length_le_of_skipKey _hk
    exact Prod.Lex.left _ _ (by omega)
  · have := length_le_of_skipScalar _hs
    simp only [List.length_cons] at this
    rcases Nat.lt_or_eq_of_le (Nat.le_trans this ‹_›) with h | h
    · exact Prod.Lex.left _ _ h
    · rw [h]
      exact Prod.Lex.right _ (by omega)

/-- Passes over what the brackets around still hold after a value. -/
def skipRest (around : List Bracket) (cs : List Char) : Except Failure (List Char) :=
  match around with
  | [] => .ok cs
  | b :: outer =>
    match _hb : skipBlanks cs with
    | [] => .error (.before b.unclosed [])
    | c :: r =>
      if c = ',' then
        match _hk : skipKey b r with
        | .error f => .error f
        | .ok s => skipNested (b :: outer) s
      else if c = b.closer then skipRest outer r
      else .error (.within b.unseparated 1 (c :: r))
termination_by (cs.length, 0)
decreasing_by
  all_goals
    have := length_skipBlanks_le cs
    rw [_hb, List.length_cons] at this
  · have := length_le_of_skipKey _hk
    exact Prod.Lex.left _ _ (by omega)
  · exact Prod.Lex.left _ _ (by omega)

end

/-- Passes over a value. -/
def skipValue (cs : List Char) : Except Failure (List Char) := skipNested [] cs

theorem length_le_of_skip (n : Nat) :
    (∀ around cs r, cs.length = n → skipNested around cs = .ok r → r.length ≤ cs.length) ∧
    (∀ around cs r, cs.length = n → skipRest around cs = .ok r → r.length ≤ cs.length) := by
  induction n using Nat.strongRecOn with
  | ind n ih =>
    have rest : ∀ around cs r, cs.length = n → skipRest around cs = .ok r →
        r.length ≤ cs.length := by
      intro around cs r hn h
      have hb := length_skipBlanks_le cs
      unfold skipRest at h
      split at h
      · cases h
        exact Nat.le_refl _
      · split at h
        · cases h
        · rename_i c s hc
          rw [hc, List.length_cons] at hb
          split at h
          · split at h
            · cases h
            · rename_i s' hk
              have := length_le_of_skipKey hk
              have := (ih s'.length (by omega)).1 _ _ _ rfl h
              omega
          · split at h
            · have := (ih s.length (by omega)).2 _ _ _ rfl h
              omega
            · cases h
    refine ⟨fun around cs r hn h => ?_, rest⟩
    have hb := length_skipBlanks_le cs
    unfold skipNested at h
    split at h
    · cases h
    · rename_i c s hc
      rw [hc, List.length_cons] at hb
      split at h
      · have hb' := length_skipBlanks_le s
        split at h
        · cases h
        · rename_i d s' hd
          rw [hd, List.length_cons] at hb'
          split at h
          · have := (ih s'.length (by omega)).2 _ _ _ rfl h
            omega
          · split at h
            · cases h
            · rename_i s'' hk
              have := length_le_of_skipKey hk
              simp only [List.length_cons] at this
              have := (ih s''.length (by omega)).1 _ _ _ rfl h
              omega
      · split at h
        · cases h
        · rename_i s' hs
          have hs := length_le_of_skipScalar hs
          simp only [List.length_cons] at hs
          rcases Nat.lt_or_eq_of_le (Nat.le_trans hs hb) with hl | hl
          · have := (ih s'.length (by omega)).2 _ _ _ rfl h
            omega
          · have := rest _ _ _ (hl.trans hn) h
            omega

theorem length_le_of_skipValue {cs r : List Char} (h : skipValue cs = .ok r) :
    r.length ≤ cs.length :=
  (length_le_of_skip cs.length).1 _ _ _ rfl h

end Json

end CallForest
