import CallForest.Json.Failure
import CallForest.Decimal.Places

/-!
# The characters of numbers

Numbers of every kind and in every format are written with letters, digits, points and signs only;
so a text that holds them can give any other character a meaning of its own.

* `Text.isNumeric_toString_nat`, `Text.isNumeric_toString_int`: integers;
* `Text.isNumeric_fixed`: doubles with a fixed number of places;
* `Text.isNumeric_realText`: doubles with the fewest digits that read back.
-/

namespace CallForest

namespace Text

/-- The characters that numbers are written with. -/
def isNumericChar (c : Char) : Bool := c.isAlphanum || c == '.' || c == '-' || c == '+'

/-- The text has only characters that numbers are written with. -/
def IsNumeric (s : String) : Prop := ∀ c ∈ s.toList, isNumericChar c = true

instance (s : String) : Decidable (IsNumeric s) := List.decidableBAll _ s.toList

theorem isNumericChar_of_isDigit {c : Char} (h : c.isDigit = true) : isNumericChar c = true := by
  simp [isNumericChar, Char.isAlphanum, h]

theorem IsNumeric.append {s t : String} (hs : IsNumeric s) (ht : IsNumeric t) :
    IsNumeric (s ++ t) := by
  rw [IsNumeric, String.toList_append, List.forall_mem_append]
  exact ⟨hs, ht⟩

theorem IsNumeric.take {s : String} (h : IsNumeric s) (n : Nat) :
    IsNumeric (String.ofList (s.toList.take n)) := by
  intro c hc
  rw [String.toList_ofList] at hc
  exact h c (List.mem_of_mem_take hc)

theorem IsNumeric.drop {s : String} (h : IsNumeric s) (n : Nat) :
    IsNumeric (String.ofList (s.toList.drop n)) := by
  intro c hc
  rw [String.toList_ofList] at hc
  exact h c (List.mem_of_mem_drop hc)

theorem toList_pushn (s : String) (c : Char) (n : Nat) :
    (s.pushn c n).toList = s.toList ++ List.replicate n c := by
  rw [String.pushn_eq_repeat_push]
  induction n with
  | zero => simp [Nat.repeat]
  | succ n ih =>
    rw [Nat.repeat, String.toList_push, ih, List.append_assoc, ← List.replicate_succ']

theorem isNumeric_zeros (n : Nat) : IsNumeric ("".pushn '0' n) := by
  intro c hc
  rw [toList_pushn, String.toList_empty, List.nil_append] at hc
  rw [List.eq_of_mem_replicate hc]
  rfl

/-! ### Integers -/

theorem isDigit_of_mem_toString {n : Nat} {c : Char} (h : c ∈ (toString n).toList) :
    c.isDigit = true := by
  rw [Nat.toString_eq_repr, Nat.toList_repr] at h
  exact Nat.isDigit_of_mem_toDigits (by decide) (by decide) h

theorem isNumeric_toString_nat (n : Nat) : IsNumeric (toString n) :=
  fun _ hc => isNumericChar_of_isDigit (isDigit_of_mem_toString hc)

theorem isNumeric_toString_int (i : Int) : IsNumeric (toString i) := by
  rw [show toString i = i.repr from rfl, Int.repr_eq_if]
  split
  · exact isNumeric_toString_nat _
  · exact .append (by decide) (isNumeric_toString_nat _)

/-! ### Doubles -/

theorem isNumeric_pointed (n value : Nat) : IsNumeric (Decimal.pointed n value) := by
  have hpadded := (isNumeric_zeros (n + 1 - (toString value).length)).append
    (isNumeric_toString_nat value)
  rw [Decimal.pointed]
  dsimp only
  split
  · exact hpadded
  · exact ((hpadded.take _).append (by decide)).append (hpadded.drop _)

/-- Doubles with a fixed number of places are numeric, be they finite or not. -/
theorem isNumeric_fixed (n : Nat) (x : Float) : IsNumeric (Decimal.fixed n x) := by
  unfold Decimal.fixed
  split
  · decide
  · split <;> decide
  · refine .append ?_ (isNumeric_pointed _ _)
    split <;> decide

theorem isNumeric_positional {digits : String} (h : IsNumeric digits) (leading : Int) :
    IsNumeric (Decimal.Layout.positional digits leading) := by
  unfold Decimal.Layout.positional
  dsimp only
  split
  · exact (IsNumeric.append (by decide) (isNumeric_zeros _)).append h
  · split
    · exact (h.append (isNumeric_zeros _)).append (by decide)
    · exact ((h.take _).append (by decide)).append (h.drop _)

theorem isNumeric_scientific (l : Decimal.Layout) {digits : String} (h : IsNumeric digits)
    (leading : Int) : IsNumeric (l.scientific digits leading) := by
  unfold Decimal.Layout.scientific
  dsimp only
  refine .append (.append (.append (.append (h.take 1) ?fraction) (by decide)) ?sign)
    (isNumeric_toString_nat _)
  case fraction =>
    split
    · decide
    · exact .append (by decide) (h.drop 1)
  case sign =>
    repeat' split
    all_goals decide

theorem isNumeric_finite (l : Decimal.Layout) (negative : Bool) (x : Decimal.Expansion) :
    IsNumeric (l.finite negative x) := by
  refine .append (by cases negative <;> decide) ?_
  unfold Decimal.Layout.magnitude
  dsimp only
  split
  · decide
  · split
    · exact isNumeric_positional (isNumeric_toString_nat _) _
    · exact isNumeric_scientific l (isNumeric_toString_nat _) _

theorem isNumeric_realText (x : Seconds) : IsNumeric (Json.realText x) := by
  unfold Json.realText
  split
  · exact isNumeric_finite _ _ _
  · decide

end Text

end CallForest
