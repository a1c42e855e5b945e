import CallForest.Json.Value
import CallForest.Proofs.Characters
import Mathlib.Data.List.Basic

/-!
# Strings read back

A string is written with its quotes, backslashes and control characters escaped, so it is read back
whatever characters it has, and no control character of it ends up in the text: a value on one line
has no line end in it.

* `Json.stringBody_escaped`: one character is read back;
* `Json.stringBody_stringText`: a string is read back in front of any text;
* `Json.Value.onOneLine_compact`: a value on one line has no control characters.
-/

namespace CallForest

namespace Json

/-! ### Reading what was escaped -/

/-- The digits of a control character. -/
theorem toList_hex_of_lt {n : Nat} (h : n < 32) :
    (Text.hex 4 n).toList = ['0', '0', (n / 16).digitChar, (n % 16).digitChar] :=
  (by decide : ∀ n < 32,
    (Text.hex 4 n).toList = ['0', '0', (n / 16).digitChar, (n % 16).digitChar]) n h

theorem hexDigit?_digitChar {n : Nat} (h : n < 16) : hexDigit? n.digitChar = some n :=
  (by decide : ∀ n < 16, hexDigit? n.digitChar = some n) n h

theorem toNat_lt_of_lt_blank {c : Char} (h : c < ' ') : c.toNat < 32 := h

theorem numericEscape_hex {c : Char} (h : c < ' ') (rest : List Char) :
    numericEscape ((Text.hex 4 c.toNat).toList ++ rest) = .ok (c, rest) := by
  have hlt := toNat_lt_of_lt_blank h
  have hread : hex4 ((Text.hex 4 c.toNat).toList ++ rest) = .ok (c.toNat, rest) := by
    rw [toList_hex_of_lt hlt]
    simp only [List.cons_append, List.nil_append, hex4,
      hexDigit?_digitChar (show c.toNat / 16 < 16 by omega),
      hexDigit?_digitChar (show c.toNat % 16 < 16 by omega)]
    rw [show hexDigit? '0' = some 0 from rfl]
    simp only [Except.ok.injEq, Prod.mk.injEq, and_true]
    omega
  have hlow : isLowSurrogate c.toNat = false := by simp [isLowSurrogate]; omega
  have hhigh : isHighSurrogate c.toNat = false := by simp [isHighSurrogate]; omega
  simp [numericEscape, hread, hlow, hhigh, bind, Except.bind, Char.ofNat_toNat]

theorem stringBody_backslash {cs r : List Char} {c : Char} (done : List Char)
    (h : escape cs = .ok (c, r)) : stringBody done ('\\' :: cs) = stringBody (c :: done) r := by
  rw [stringBody, if_neg (by decide), if_pos rfl]
  split
  · rename_i heq
    cases h.symm.trans heq
    rfl
  · rename_i heq
    cases h.symm.trans heq

/-- An escaped character in front of other text is read as one character. -/
theorem stringBody_escaped (done : List Char) (c : Char) (rest : List Char) :
    stringBody done (escaped c ++ rest) = stringBody (c :: done) rest := by
  unfold escaped
  split
  case h_8 hquote hbackslash _ _ _ _ _ =>
    split
    · rename_i hcontrol
      refine stringBody_backslash done ?_
      rw [List.append_eq, List.cons_append, escape, if_pos rfl, numericEscape_hex hcontrol]
    · rename_i hcontrol
      rw [List.singleton_append, stringBody, if_neg hquote, if_neg hbackslash, if_neg hcontrol]
  all_goals exact stringBody_backslash done rfl

theorem stringBody_flatMap (done cs rest : List Char) :
    stringBody done (cs.flatMap escaped ++ '"' :: rest) =
      .ok (String.ofList (done.reverse ++ cs), rest) := by
  induction cs generalizing done with
  | nil => simp [stringBody]
  | cons c cs ih =>
    rw [List.flatMap_cons, List.append_assoc, stringBody_escaped, ih]
    simp

/-- **A string is read back** in front of any text, once its first quote is read. -/
theorem stringBody_stringText (s : String) (rest : List Char) :
    ∃ cs, (stringText s).toList ++ rest = '"' :: cs ∧ stringBody [] cs = .ok (s, rest) := by
  refine ⟨s.toList.flatMap escaped ++ '"' :: rest, by simp [stringText], ?_⟩
  rw [stringBody_flatMap]
  simp

/-! ### One line -/

/-- No control character, and so no end of a line, is in the text. -/
def OnOneLine (s : String) : Prop := ∀ c ∈ s.toList, ' ' ≤ c

instance (s : String) : Decidable (OnOneLine s) := List.decidableBAll _ s.toList

theorem OnOneLine.append {s t : String} (hs : OnOneLine s) (ht : OnOneLine t) :
    OnOneLine (s ++ t) := by
  rw [OnOneLine, String.toList_append, List.forall_mem_append]
  exact ⟨hs, ht⟩

theorem OnOneLine.intercalate {s : String} {ts : List String} (hs : OnOneLine s)
    (hts : ∀ t ∈ ts, OnOneLine t) : OnOneLine (s.intercalate ts) := by
  induction ts with
  | nil => exact fun c hc => absurd hc (by simp)
  | cons t ts ih =>
    obtain ⟨ht, hts⟩ := List.forall_mem_cons.mp hts
    cases ts with
    | nil => rwa [String.intercalate_singleton]
    | cons u ts =>
      rw [String.intercalate_cons_cons]
      exact (ht.append hs).append (ih hts)

theorem onOneLine_of_isNumeric {s : String} (h : Text.IsNumeric s) : OnOneLine s := by
  intro c hc
  refine Char.not_lt.mp fun hlt => ?_
  have hnumeric := h c hc
  have hcontrol : (c.toNat : Nat) < 32 := hlt
  rw [← Char.ofNat_toNat c] at hnumeric
  exact (by decide : ∀ n < 32, ¬Text.isNumericChar (Char.ofNat n) = true) _ hcontrol hnumeric

theorem le_of_mem_escaped {c d : Char} (h : d ∈ escaped c) : ' ' ≤ d := by
  unfold escaped at h
  split at h
  case h_8 =>
    split at h
    · rename_i hcontrol
      have hdigits : (Text.hex 4 c.toNat).toList.all (' ' ≤ ·) = true :=
        (by decide : ∀ n < 32, (Text.hex 4 n).toList.all (' ' ≤ ·) = true) _
          (toNat_lt_of_lt_blank hcontrol)
      rcases List.mem_cons.mp h with rfl | h
      · decide
      · rcases List.mem_cons.mp h with rfl | h
        · decide
        · exact of_decide_eq_true (List.all_eq_true.mp hdigits d h)
    · rename_i hcontrol
      rw [List.mem_singleton.mp h]
      exact Char.not_lt.mp hcontrol
  all_goals
    simp only [List.mem_cons, List.not_mem_nil, or_false] at h
    rcases h with rfl | rfl <;> decide

theorem onOneLine_stringText (s : String) : OnOneLine (stringText s) := by
  intro d hd
  simp only [stringText, String.toList_ofList, List.cons_append, List.mem_cons, List.mem_append,
    List.mem_flatMap, List.not_mem_nil, or_false] at hd
  rcases hd with rfl | ⟨c, -, hd⟩ | rfl
  · decide
  · exact le_of_mem_escaped hd
  · decide

namespace Value

mutual

/-- **A value on one line** has no control characters, whatever strings are in it. -/
theorem onOneLine_compact : (v : Value) → OnOneLine v.compact
  | integer n => onOneLine_of_isNumeric (Text.isNumeric_toString_int n)
  | real x => onOneLine_of_isNumeric (Text.isNumeric_realText x)
  | text s => onOneLine_stringText s
  | list items => by
    rw [compact]
    exact .append (.append (by decide) (.intercalate (by decide) (onOneLine_compactItems items)))
      (by decide)
  | object members => by
    rw [compact]
    exact .append
      (.append (by decide) (.intercalate (by decide) (onOneLine_compactMembers members)))
      (by decide)

theorem onOneLine_compactItems : (items : List Value) → ∀ t ∈ compactItems items, OnOneLine t
  | [] => by simp [compactItems]
  | v :: vs => by
    rw [compactItems, List.forall_mem_cons]
    exact ⟨onOneLine_compact v, onOneLine_compactItems vs⟩

theorem onOneLine_compactMembers :
    (members : List (String × Value)) → ∀ t ∈ compactMembers members, OnOneLine t
  | [] => by simp [compactMembers]
  | (k, v) :: ms => by
    rw [compactMembers, List.forall_mem_cons]
    exact ⟨.append (.append (onOneLine_stringText k) (by decide)) (onOneLine_compact v),
      onOneLine_compactMembers ms⟩

end

end Value

end Json

end CallForest
