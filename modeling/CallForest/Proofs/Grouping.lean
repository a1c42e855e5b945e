import CallForest.Proofs.Characters
import CallForest.Sample
import Mathlib

/-!
# Digits in groups

Reports round numbers to integers and put commas between groups of three digits.  The commas are
all that is added, so two samples look alike just if their parts come to the same integers.

* `Text.Integer`: an integer written out, as a finite double is when it is rounded;
* `Text.exists_groups_eq`: the commas cut its digits into threes, counted from the right;
* `Text.withoutCommas_thousands`: taking them out gives the integer back;
* `Sample.grouped_inj`: a rounded double in groups shows what it comes to, and nothing else;
* `Text.thousands_lossless`: nothing is lost, be it of an integer, of a double or of a sample.
-/

namespace CallForest

namespace Text

/-! ### The groups of a row of digits -/

/-- The characters other than commas. -/
def withoutCommas (cs : List Char) : List Char := cs.filter (· ≠ ',')

theorem withoutCommas_of_not_mem {cs : List Char} (h : ',' ∉ cs) : withoutCommas cs = cs :=
  List.filter_eq_self.2 fun _ hc => decide_eq_true fun heq => h (heq ▸ hc)

theorem withoutCommas_append (cs ds : List Char) :
    withoutCommas (cs ++ ds) = withoutCommas cs ++ withoutCommas ds :=
  List.filter_append cs ds

theorem mem_withoutCommas {c : Char} {cs : List Char} (h : c ∈ cs) (hc : c ≠ ',') :
    c ∈ withoutCommas cs :=
  List.mem_filter.2 ⟨h, decide_eq_true hc⟩

/-- Commas are all that grouping adds. -/
theorem withoutCommas_groups (digits : List Char) :
    withoutCommas (groups digits) = withoutCommas digits := by
  induction digits with
  | nil => rfl
  | cons c cs ih =>
    have hcons : withoutCommas (c :: groups cs) = withoutCommas (c :: cs) := by
      rw [← List.singleton_append, withoutCommas_append, ih, ← withoutCommas_append,
        List.singleton_append]
    rw [groups]
    split
    · rw [← hcons]
      simp [withoutCommas, List.filter_cons]
    · exact hcons

theorem length_flatten_of_threes {parts : List (List Char)} (h : ∀ part ∈ parts, part.length = 3) :
    parts.flatten.length = 3 * parts.length := by
  induction parts with
  | nil => rfl
  | cons part parts ih =>
    obtain ⟨hpart, hparts⟩ := List.forall_mem_cons.1 h
    rw [List.flatten_cons, List.length_append, hpart, ih hparts, List.length_cons]
    omega

/-- **The commas cut the digits into threes**; only the first group may be shorter. -/
theorem exists_groups_eq {digits : List Char} (h : digits ≠ []) :
    ∃ first rest, groups digits = [','].intercalate (first :: rest) ∧
      first ++ rest.flatten = digits ∧ 1 ≤ first.length ∧ first.length ≤ 3 ∧
      ∀ part ∈ rest, part.length = 3 := by
  induction digits with
  | nil => exact absurd rfl h
  | cons c cs ih =>
    by_cases hcs : cs = []
    · subst hcs
      exact ⟨[c], [], rfl, rfl, by simp, by simp, List.forall_mem_nil _⟩
    obtain ⟨first, rest, hgroups, hdigits, hpos, hle, hrest⟩ := ih hcs
    have hlength : cs.length = first.length + 3 * rest.length := by
      rw [← hdigits, List.length_append, length_flatten_of_threes hrest]
    rw [groups, hgroups]
    -- The digits that follow fill their first group just if their number is a multiple of three.
    by_cases hfull : cs.length % 3 = 0
    · have hthree : first.length = 3 := by omega
      refine ⟨[c], first :: rest, ?_, ?_, by simp, by simp, List.forall_mem_cons.2 ⟨hthree, hrest⟩⟩
      · rw [if_pos ⟨hcs, hfull⟩, List.intercalate_cons_cons]
        rfl
      · rw [List.flatten_cons, hdigits]
        rfl
    · refine ⟨c :: first, rest, ?_, ?_, by simp, by rw [List.length_cons]; omega, hrest⟩
      · rw [if_neg fun hand => hfull hand.2]
        cases rest with
        | nil => simp
        | cons part rest => simp [List.intercalate_cons_cons]
      · rw [List.cons_append, hdigits]

/-- Seven digits make two full groups. -/
example : groups "1234567".toList = "1,234,567".toList := by decide

/-! ### Integers written out -/

/-- The sign of an integer. -/
def minus (negative : Bool) : List Char := if negative then ['-'] else []

/-- An integer written out: its digits, after a minus sign or none. -/
structure Integer where
  negative : Bool
  digits : List Char
  digits_ne_nil : digits ≠ []
  isDigit : ∀ c ∈ digits, c.isDigit = true

namespace Integer

variable (n : Integer)

/-- The characters of an integer. -/
def text : List Char := minus n.negative ++ n.digits

/-- The integer that is written out. -/
def value : Int :=
  if n.negative then -(Nat.ofDigitChars 10 n.digits 0 : Int) else Nat.ofDigitChars 10 n.digits 0

/-- The integer of a given size. -/
def ofSize (negative : Bool) (size : Nat) : Integer where
  negative := negative
  digits := Nat.toDigits 10 size
  digits_ne_nil := Nat.toDigits_ne_nil
  isDigit _ hc := Nat.isDigit_of_mem_toDigits (by decide) (by decide) hc

theorem value_ofSize (negative : Bool) (size : Nat) :
    (ofSize negative size).value = if negative then -(size : Int) else size := by
  rw [value, ofSize, Nat.ofDigitChars_toDigits (by decide) (by decide)]

/-- The text of an integer in the ordinary way, never minus zero. -/
def ofInt (value : Int) : Integer := ofSize (value < 0) value.natAbs

theorem text_ofInt (value : Int) : (ofInt value).text = value.repr.toList := by
  rw [Int.repr_eq_if]
  split
  · rename_i hnonneg
    rw [Nat.toList_repr, text, ofInt, ofSize, decide_eq_false (by omega),
      show value.natAbs = value.toNat by omega]
    rfl
  · rename_i hneg
    rw [String.toList_append, Nat.toList_repr, text, ofInt, ofSize, decide_eq_true (by omega),
      show value.natAbs = (-value).toNat by omega]
    rfl

variable {n}

theorem not_mem_digits {c : Char} (h : c.isDigit = false) : c ∉ n.digits := by
  intro hc
  rw [n.isDigit c hc] at h
  cases h

/-- Minus zero is one digit behind a sign, and nothing else. -/
theorem text_eq_minusZero_iff : n.text = ['-', '0'] ↔ n.negative = true ∧ n.digits = ['0'] := by
  rw [text]
  cases hnegative : n.negative with
  | true => simp [minus]
  | false =>
    refine iff_of_false (fun heq => ?_) (by simp)
    have hsign : '-' ∈ n.digits := by
      rw [show n.digits = ['-', '0'] from heq]
      exact List.mem_cons_self
    exact not_mem_digits (by decide) hsign

theorem text_ofInt_ne (value : Int) : (ofInt value).text ≠ ['-', '0'] := by
  rw [ne_eq, text_eq_minusZero_iff]
  rintro ⟨hnegative, hzero⟩
  have hneg : value < 0 := of_decide_eq_true hnegative
  have hsize := congrArg (Nat.ofDigitChars 10 · 0) hzero
  rw [ofInt, ofSize, Nat.ofDigitChars_toDigits (by decide) (by decide)] at hsize
  have hnone : value.natAbs = 0 := hsize
  omega

end Integer

variable (n : Integer)

/-- The sign stays in front of the groups, unless the integer is zero. -/
theorem thousands_text :
    thousands n.text = minus (n.negative && n.digits ≠ ['0']) ++ groups n.digits := by
  rw [Integer.text]
  cases n.negative with
  | true =>
    by_cases hzero : n.digits = ['0']
    · rw [hzero]
      rfl
    · simp [minus, thousands, hzero]
  | false =>
    show thousands n.digits = groups n.digits
    unfold thousands
    split
    · rename_i digits heq
      have hsign : '-' ∈ n.digits := by
        rw [heq]
        exact List.mem_cons_self
      exact absurd hsign (Integer.not_mem_digits (by decide))
    · rfl

/-- **Without its commas an integer is itself again**, but minus zero has become zero. -/
theorem withoutCommas_thousands :
    withoutCommas (thousands n.text) = if n.text = ['-', '0'] then ['0'] else n.text := by
  have hdigits : withoutCommas (groups n.digits) = n.digits := by
    rw [withoutCommas_groups, withoutCommas_of_not_mem (Integer.not_mem_digits (by decide))]
  have hsign (negative : Bool) : withoutCommas (minus negative) = minus negative := by
    cases negative <;> rfl
  rw [thousands_text, withoutCommas_append, hsign, hdigits]
  by_cases hzero : n.text = ['-', '0']
  · rw [if_pos hzero, (Integer.text_eq_minusZero_iff.1 hzero).2]
    cases n.negative <;> rfl
  · have hkeeps : (n.negative && decide (n.digits ≠ ['0'])) = n.negative := by
      rw [Integer.text_eq_minusZero_iff] at hzero
      cases hnegative : n.negative with
      | true => exact decide_eq_true fun hdigit => hzero ⟨hnegative, hdigit⟩
      | false => rfl
    rw [if_neg hzero, hkeeps, Integer.text]

/-- In groups, minus zero has no text of its own. -/
theorem thousands_ofSize (negative : Bool) (size : Nat) :
    thousands (Integer.ofSize negative size).text =
      thousands (Integer.ofInt (Integer.ofSize negative size).value).text := by
  rw [Integer.value_ofSize, Integer.ofInt]
  cases negative with
  | false => rfl
  | true =>
    simp only [if_true, Int.natAbs_neg, Int.natAbs_natCast]
    by_cases hzero : size = 0
    · subst hzero
      rfl
    · rw [decide_eq_true (by omega)]

end Text

/-! ### Doubles rounded to integers -/

namespace Decimal

/-- What a double comes to when it is rounded to an integer. -/
inductive Rounded where
  | nan
  | infinite (negative : Bool)
  | integer (value : Int)
  deriving DecidableEq

/-- A double rounded to an integer.  Zero has no sign. -/
def rounded (x : Float) : Rounded :=
  match Reading.ofBits x.toBits with
  | .nan => .nan
  | .infinite negative => .infinite negative
  | .finite negative size => .integer (if negative then -(size.rounded 0 : Int) else size.rounded 0)

/-- The text of a rounded double, without groups. -/
def Rounded.text : Rounded → String
  | .nan => "NaN"
  | .infinite negative => if negative then "-inf" else "inf"
  | .integer value => value.repr

theorem toList_pointed_zero (value : Nat) : (pointed 0 value).toList = Nat.toDigits 10 value := by
  have hlength : 0 + 1 - (toString value).length = 0 := by
    have hne : (Nat.toDigits 10 value).length ≠ 0 := by
      simp [Nat.toDigits_ne_nil]
    rw [← String.length_toList, Nat.toString_eq_repr, Nat.toList_repr]
    omega
  simp only [pointed, hlength, if_true]
  rw [String.toList_append, Nat.toString_eq_repr, Nat.toList_repr]
  rfl

theorem toList_finite (negative : Bool) (size : Nat) :
    ((if negative then "-" else "") ++ pointed 0 size).toList =
      (Text.Integer.ofSize negative size).text := by
  rw [String.toList_append, toList_pointed_zero]
  cases negative <;> rfl

/-- A double that comes to an integer is written as that integer. -/
theorem exists_text_of_rounded {x : Float} {value : Int} (h : rounded x = .integer value) :
    ∃ n : Text.Integer, (fixed 0 x).toList = n.text ∧ n.value = value := by
  rw [rounded] at h
  cases hreading : Reading.ofBits x.toBits with
  | nan =>
    rw [hreading] at h
    cases h
  | infinite negative =>
    rw [hreading] at h
    cases h
  | finite negative size =>
    rw [hreading] at h
    refine ⟨.ofSize negative (size.rounded 0), ?_, ?_⟩
    · rw [fixed, hreading]
      exact toList_finite negative _
    · rw [Text.Integer.value_ofSize]
      exact Rounded.integer.inj h

/-- In groups, a double shows no more than what it comes to. -/
theorem thousands_fixed (x : Float) :
    Text.thousands (fixed 0 x).toList = Text.thousands (rounded x).text.toList := by
  rw [fixed, rounded]
  cases Reading.ofBits x.toBits with
  | nan => rfl
  | infinite negative => rfl
  | finite negative size =>
    simp only [toList_finite, Text.thousands_ofSize, Text.Integer.value_ofSize, Rounded.text,
      ← Text.Integer.text_ofInt]

theorem Rounded.withoutCommas_thousands (r : Rounded) :
    Text.withoutCommas (Text.thousands r.text.toList) = r.text.toList := by
  cases r with
  | nan => rfl
  | infinite negative => cases negative <;> rfl
  | integer value =>
    rw [text, ← Text.Integer.text_ofInt, Text.withoutCommas_thousands, if_neg]
    exact Text.Integer.text_ofInt_ne value

/-- The text of an integer is read as that integer, and the others are none. -/
theorem Rounded.toInt?_text (r : Rounded) :
    r.text.toInt? = match r with | .integer value => some value | _ => none := by
  cases r with
  | nan => cbv
  | infinite negative => cases negative <;> cbv
  | integer value => exact value.toInt?_repr

/-- No two of them have the same text. -/
theorem Rounded.eq_of_text_eq {r s : Rounded} (h : r.text = s.text) : r = s := by
  have hread := congrArg String.toInt? h
  rw [toInt?_text, toInt?_text] at hread
  cases r with
  | integer value =>
    cases s with
    | integer value' => rw [Option.some.inj hread]
    | nan => cases hread
    | infinite negative => cases hread
  | nan =>
    cases s with
    | integer value => cases hread
    | nan => rfl
    | infinite negative => cases negative <;> exact absurd h (by decide)
  | infinite negative =>
    cases s with
    | integer value => cases hread
    | nan => cases negative <;> exact absurd h (by decide)
    | infinite negative' =>
      have hsign : ∀ a b : Bool, text (.infinite a) = text (.infinite b) → a = b := by decide
      rw [hsign negative negative' h]

end Decimal

namespace Sample

/-! ### Samples as reports show them -/

/-- **A double in groups shows what it comes to**, and nothing else. -/
theorem grouped_inj {x y : Float} :
    grouped x = grouped y ↔ Decimal.rounded x = Decimal.rounded y := by
  rw [grouped, grouped, String.ofList_inj, Decimal.thousands_fixed, Decimal.thousands_fixed]
  constructor
  · intro h
    have htext := congrArg Text.withoutCommas h
    rw [Decimal.Rounded.withoutCommas_thousands, Decimal.Rounded.withoutCommas_thousands,
      String.toList_inj] at htext
    exact Decimal.Rounded.eq_of_text_eq htext
  · intro h
    rw [h]

theorem blank_not_mem_grouped (x : Float) : ' ' ∉ (grouped x).toList := by
  rw [grouped, String.toList_ofList, Decimal.thousands_fixed]
  intro hmem
  have htext := Text.mem_withoutCommas hmem (by decide)
  rw [Decimal.Rounded.withoutCommas_thousands] at htext
  have hnumeric : Text.IsNumeric (Decimal.rounded x).text := by
    cases Decimal.rounded x with
    | nan => decide
    | infinite negative => cases negative <;> decide
    | integer value => exact Text.isNumeric_toString_int value
  exact absurd (hnumeric ' ' htext) (by decide)

/-- A text is cut at its first blank in one way only. -/
theorem append_blank_inj {cs ds rest rest' : List Char} (hcs : ' ' ∉ cs) (hds : ' ' ∉ ds)
    (h : cs ++ ' ' :: rest = ds ++ ' ' :: rest') : cs = ds ∧ rest = rest' := by
  have hcut (l r : List Char) (hl : ' ' ∉ l) : (l ++ ' ' :: r).takeWhile (· ≠ ' ') = l := by
    have hall : ∀ c ∈ l, decide (c ≠ ' ') = true := by
      intro c hc
      refine decide_eq_true ?_
      rintro rfl
      exact hl hc
    rw [List.takeWhile_append_of_pos hall]
    simp
  have hfront := congrArg (List.takeWhile (· ≠ ' ')) h
  rw [hcut cs rest hcs, hcut ds rest' hds] at hfront
  subst hfront
  exact ⟨rfl, (List.cons.inj (List.append_cancel_left h)).2⟩

theorem toList_text (s : Sample) :
    s.text.toList =
      (grouped s.milliseconds).toList ++ ' ' :: ("(ms)".toList ++
        ' ' :: ((grouped (kilobytes s.memory)).toList ++ " (kb)".toList)) := by
  simp [text, timeText, memoryText]

/-- **Two samples look alike just if their parts come to the same.** -/
theorem text_inj {a b : Sample} :
    a.text = b.text ↔ Decimal.rounded a.milliseconds = Decimal.rounded b.milliseconds ∧
      Decimal.rounded (kilobytes a.memory) = Decimal.rounded (kilobytes b.memory) := by
  rw [← grouped_inj, ← grouped_inj]
  constructor
  · intro h
    have hlist := congrArg String.toList h
    rw [toList_text, toList_text] at hlist
    obtain ⟨htime, hrest⟩ :=
      append_blank_inj (blank_not_mem_grouped _) (blank_not_mem_grouped _) hlist
    have hmemory := List.append_cancel_right (List.cons.inj (List.append_cancel_left hrest)).2
    exact ⟨String.toList_inj.1 htime, String.toList_inj.1 hmemory⟩
  · rintro ⟨htime, hmemory⟩
    rw [text, text, timeText, timeText, memoryText, memoryText, htime, hmemory]

end Sample

namespace Text

/-- **Grouping loses nothing.**  For an integer with any number of digits, taking the commas out
gives the text back, but minus zero has become zero; and the commas stand between groups of three
digits, of which only the first may be shorter, with the sign in front of them.  A double that comes
to an integer is written as such a text of it.  So two samples look alike just if their parts come
to the same, and never if one part comes to different integers. -/
theorem thousands_lossless :
    (∀ n : Integer,
      (thousands n.text).filter (· ≠ ',') = (if n.text = ['-', '0'] then ['0'] else n.text) ∧
      ∃ first rest,
        thousands n.text =
          minus (n.negative && n.digits ≠ ['0']) ++ [','].intercalate (first :: rest) ∧
        first ++ rest.flatten = n.digits ∧ 1 ≤ first.length ∧ first.length ≤ 3 ∧
        ∀ part ∈ rest, part.length = 3) ∧
    (∀ x value, Decimal.rounded x = .integer value →
      ∃ n : Integer, (Decimal.fixed 0 x).toList = n.text ∧ n.value = value) ∧
    ∀ a b : Sample, a.text = b.text ↔
      Decimal.rounded a.milliseconds = Decimal.rounded b.milliseconds ∧
        Decimal.rounded (Sample.kilobytes a.memory) =
          Decimal.rounded (Sample.kilobytes b.memory) := by
  refine ⟨fun n => ⟨withoutCommas_thousands n, ?_⟩,
    fun _ _ => Decimal.exists_text_of_rounded, fun _ _ => Sample.text_inj⟩
  obtain ⟨first, rest, hgroups, hparts⟩ := exists_groups_eq n.digits_ne_nil
  refine ⟨first, rest, ?_, hparts⟩
  rw [thousands_text, hgroups]

/-- A negative double of seven digits, and two samples of two and three kilobytes. -/
theorem thousands_lossless_negative :
    (Decimal.rounded (Float.ofBits 0xC132D68700000000) = .integer (-1234567) ∧
      ∃ n : Integer,
        (Decimal.fixed 0 (Float.ofBits 0xC132D68700000000)).toList = n.text ∧ n.value = -1234567) ∧
    (⟨.zero, 2048⟩ : Sample).text ≠ (⟨.zero, 3072⟩ : Sample).text := by
  obtain ⟨-, hwritten, hsamples⟩ := thousands_lossless
  have hdouble : Decimal.rounded (Float.ofBits 0xC132D68700000000) = .integer (-1234567) := by
    decide
  refine ⟨⟨hdouble, hwritten _ _ hdouble⟩, fun halike => ?_⟩
  exact absurd ((hsamples _ _).1 halike).2 (by decide)

end Text

end CallForest
