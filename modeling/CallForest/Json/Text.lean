import CallForest.Json.Failure

/-!
# Strings in JSON

Reading a string decodes its escapes, a pair of surrogate escapes to one character.  A string that
is only passed over is checked less closely: surrogates need not come in pairs.  Writing escapes
quotes, backslashes and control characters and nothing else.
-/

namespace CallForest

namespace Json

/-- The value of a hexadecimal digit. -/
def hexDigit? (c : Char) : Option Nat :=
  if '0' ≤ c ∧ c ≤ '9' then some (c.toNat - '0'.toNat)
  else if 'a' ≤ c ∧ c ≤ 'f' then some (c.toNat - 'a'.toNat + 10)
  else if 'A' ≤ c ∧ c ≤ 'F' then some (c.toNat - 'A'.toNat + 10)
  else none

/-- Four hexadecimal digits. -/
def hex4 (cs : List Char) : Scan Nat :=
  let refused := if byteLength cs < 4 then .before .endInString [] else .within .invalidEscape 4 cs
  match cs with
  | a :: b :: c :: d :: cs =>
    match hexDigit? a, hexDigit? b, hexDigit? c, hexDigit? d with
    | some a, some b, some c, some d => .ok (((a * 16 + b) * 16 + c) * 16 + d, cs)
    | _, _, _, _ => .error refused
  | _ => .error refused

/-- What the letter after a backslash stands for. -/
def shortEscape? : Char → Option Char
  | '"' => some '"'
  | '\\' => some '\\'
  | '/' => some '/'
  | 'b' => some '\x08'
  | 'f' => some '\x0c'
  | 'n' => some '\n'
  | 'r' => some '\r'
  | 't' => some '\t'
  | _ => none

/-- The first of a pair of surrogates. -/
def isHighSurrogate (n : Nat) : Bool := 0xD800 ≤ n && n ≤ 0xDBFF

/-- The second of a pair of surrogates. -/
def isLowSurrogate (n : Nat) : Bool := 0xDC00 ≤ n && n ≤ 0xDFFF

/-- One character that has to come inside an escape. -/
def escapePart (w : Char) : List Char → Except Failure (List Char)
  | [] => .error (.before .endInString [])
  | c :: cs => if c = w then .ok cs else .error (.within .unfinishedEscape 1 (c :: cs))

/-- The character of a numeric escape, after its `u`. -/
def numericEscape (cs : List Char) : Except Failure (Char × List Char) := do
  let (high, cs) ← hex4 cs
  if isLowSurrogate high then .error (.before .loneSurrogate cs)
  else if isHighSurrogate high then
    let cs ← escapePart '\\' cs
    let cs ← escapePart 'u' cs
    let (low, cs) ← hex4 cs
    if isLowSurrogate low then
      .ok (Char.ofNat (0x10000 + (high - 0xD800) * 0x400 + (low - 0xDC00)), cs)
    else .error (.before .loneSurrogate cs)
  else .ok (Char.ofNat high, cs)

/-- The character of an escape, after its backslash. -/
def escape : List Char → Scan Char
  | [] => .error (.before .endInString [])
  | c :: cs =>
    if c = 'u' then numericEscape cs
    else
      match shortEscape? c with
      | some d => .ok (d, cs)
      | none => .error (.within .invalidEscape 1 (c :: cs))

/-- An escape passed over, after its backslash. -/
def skipEscape : List Char → Except Failure (List Char)
  | [] => .error (.before .endInString [])
  | c :: cs =>
    if c = 'u' then (hex4 cs).map (·.2)
    else if (shortEscape? c).isSome then .ok cs
    else .error (.within .invalidEscape 1 (c :: cs))

theorem length_le_of_hex4 {cs r : List Char} {n : Nat} (h : hex4 cs = .ok (n, r)) :
    r.length ≤ cs.length := by
  unfold hex4 at h
  dsimp only at h
  split at h
  · split at h
    · simp only [Except.ok.injEq, Prod.mk.injEq] at h
      obtain ⟨-, rfl⟩ := h
      simp only [List.length_cons]
      omega
    · simp at h
  · simp at h

theorem length_le_of_escapePart {w : Char} {cs r : List Char} (h : escapePart w cs = .ok r) :
    r.length ≤ cs.length := by
  cases cs with
  | nil => simp [escapePart] at h
  | cons c cs =>
    simp only [escapePart] at h
    split at h
    · cases h
      simp
    · simp at h

theorem length_le_of_numericEscape {cs r : List Char} {c : Char}
    (h : numericEscape cs = .ok (c, r)) : r.length ≤ cs.length := by
  unfold numericEscape at h
  obtain ⟨⟨high, r₁⟩, h₁, h⟩ := exists_ok_of_bind_eq_ok h
  have l₁ := length_le_of_hex4 h₁
  dsimp only at h
  split at h
  · cases h
  · split at h
    · obtain ⟨r₂, h₂, h⟩ := exists_ok_of_bind_eq_ok h
      obtain ⟨r₃, h₃, h⟩ := exists_ok_of_bind_eq_ok h
      obtain ⟨⟨low, r₄⟩, h₄, h⟩ := exists_ok_of_bind_eq_ok h
      have l₂ := length_le_of_escapePart h₂
      have l₃ := length_le_of_escapePart h₃
      have l₄ := length_le_of_hex4 h₄
      dsimp only at h
      split at h
      · simp only [Except.ok.injEq, Prod.mk.injEq] at h
        obtain ⟨-, rfl⟩ := h
        omega
      · cases h
    · simp only [Except.ok.injEq, Prod.mk.injEq] at h
      obtain ⟨-, rfl⟩ := h
      exact l₁

theorem length_lt_of_escape {cs r : List Char} {c : Char} (h : escape cs = .ok (c, r)) :
    r.length < cs.length := by
  cases cs with
  | nil => simp [escape] at h
  | cons d cs =>
    simp only [escape] at h
    split at h
    · have := length_le_of_numericEscape h
      simp only [List.length_cons]
      omega
    · split at h
      · simp only [Except.ok.injEq, Prod.mk.injEq] at h
        obtain ⟨-, rfl⟩ := h
        simp
      · simp at h

theorem length_lt_of_skipEscape {cs r : List Char} (h : skipEscape cs = .ok r) :
    r.length < cs.length := by
  cases cs with
  | nil => simp [skipEscape] at h
  | cons d cs =>
    simp only [skipEscape] at h
    split at h
    · cases h₁ : hex4 cs with
      | error => simp [h₁, Except.map] at h
      | ok p =>
        obtain ⟨n, r'⟩ := p
        have := length_le_of_hex4 h₁
        simp only [h₁, Except.map, Except.ok.injEq] at h
        subst h
        simp only [List.length_cons]
        omega
    · split at h
      · simp only [Except.ok.injEq] at h
        subst h
        simp
      · simp at h

/-- The rest of a string after the characters `done`, which are given last first. -/
def stringBody (done : List Char) (cs : List Char) : Scan String :=
  match cs with
  | [] => .error (.before .endInString [])
  | c :: cs =>
    if c = '"' then .ok (String.ofList done.reverse, cs)
    else if c = '\\' then
      match _h : escape cs with
      | .ok (d, r) => stringBody (d :: done) r
      | .error f => .error f
    else if c < ' ' then .error (.within .controlCharacter 1 (c :: cs))
    else stringBody (c :: done) cs
termination_by cs.length
decreasing_by
  · have := length_lt_of_escape _h
    simp only [List.length_cons]
    omega
  · simp

/-- The rest of a string passed over. -/
def skipString (cs : List Char) : Except Failure (List Char) :=
  match cs with
  | [] => .error (.before .endInString [])
  | c :: cs =>
    if c = '"' then .ok cs
    else if c = '\\' then
      match _h : skipEscape cs with
      | .ok r => skipString r
      | .error f => .error f
    else if c < ' ' then .error (.before .controlCharacter (c :: cs))
    else skipString cs
termination_by cs.length
decreasing_by
  · have := length_lt_of_skipEscape _h
    simp only [List.length_cons]
    omega
  · simp

theorem length_lt_of_stringBody {done cs r : List Char} {s : String}
    (h : stringBody done cs = .ok (s, r)) : r.length < cs.length := by
  fun_induction stringBody done cs with
  | case1 => simp at h
  | case2 =>
    simp only [Except.ok.injEq, Prod.mk.injEq] at h
    obtain ⟨-, rfl⟩ := h
    simp
  | case3 done cs d r' hd _ ih =>
    have := length_lt_of_escape hd
    have := ih h
    simp only [List.length_cons]
    omega
  | case4 => simp at h
  | case5 => simp at h
  | case6 done c cs _ _ _ ih =>
    have := ih h
    simp only [List.length_cons]
    omega

theorem length_lt_of_skipString {cs r : List Char} (h : skipString cs = .ok r) :
    r.length < cs.length := by
  fun_induction skipString cs with
  | case1 => simp at h
  | case2 =>
    simp only [Except.ok.injEq] at h
    subst h
    simp
  | case3 cs r' hd _ ih =>
    have := length_lt_of_skipEscape hd
    have := ih h
    simp only [List.length_cons]
    omega
  | case4 => simp at h
  | case5 => simp at h
  | case6 c cs _ _ _ ih =>
    have := ih h
    simp only [List.length_cons]
    omega

/-! ### Writing -/

/-- A character as it stands in a string. -/
def escaped (c : Char) : List Char :=
  match c with
  | '"' => ['\\', '"']
  | '\\' => ['\\', '\\']
  | '\x08' => ['\\', 'b']
  | '\x0c' => ['\\', 'f']
  | '\n' => ['\\', 'n']
  | '\r' => ['\\', 'r']
  | '\t' => ['\\', 't']
  | c => if c < ' ' then '\\' :: 'u' :: (Text.hex 4 c.toNat).toList else [c]

/-- A string with its quotes. -/
def stringText (s : String) : String :=
  String.ofList ('"' :: s.toList.flatMap escaped ++ ['"'])

end Json

end CallForest
