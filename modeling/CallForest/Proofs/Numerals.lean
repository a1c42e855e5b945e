import CallForest.Json.Number
import Mathlib.Data.List.TakeWhile

/-!
# Numbers read back

A number is read the same whatever text follows it, as long as that text cannot carry it on; and an
signed 64-bit integer is read back from its decimal digits.

* `Json.number_append`: a number in front of other text;
* `Json.absorb_digits`: the digits of an integer make that integer;
* `Json.number_toString_int`: integers are read back;
* `Json.exists_cons_of_number`: how a number starts.
-/

namespace CallForest

namespace Json

/-- A text in front of which a number ends. -/
def EndsNumber (rest : List Char) : Prop :=
  ∀ c ∈ rest.head?, (digit? c).isSome = false ∧ c ≠ '.' ∧ c ≠ 'e' ∧ c ≠ 'E'

/-! ### A number in front of other text -/

theorem minusSign_of_ne {c : Char} (h : c ≠ '-') (cs : List Char) :
    minusSign (c :: cs) = (false, c :: cs) := by
  unfold minusSign
  split
  · rename_i heq
    cases heq
    exact absurd rfl h
  · rfl

theorem minusSign_append (cs : List Char) (hne : cs ≠ []) (rest : List Char) :
    minusSign (cs ++ rest) = ((minusSign cs).1, (minusSign cs).2 ++ rest) := by
  obtain ⟨c, cs, rfl⟩ := List.exists_cons_of_ne_nil hne
  by_cases hminus : c = '-'
  · subst hminus
    rfl
  · rw [List.cons_append, minusSign_of_ne hminus, minusSign_of_ne hminus, List.cons_append]

theorem exponentSign_append (cs : List Char) (hne : cs ≠ []) (rest : List Char) :
    exponentSign (cs ++ rest) = ((exponentSign cs).1, (exponentSign cs).2 ++ rest) := by
  obtain ⟨c, cs, rfl⟩ := List.exists_cons_of_ne_nil hne
  by_cases hplus : c = '+'
  · subst hplus
    rfl
  · have hskip (r : List Char) : exponentSign (c :: r) = minusSign (c :: r) := by
      unfold exponentSign
      split
      · rename_i heq
        cases heq
        exact absurd rfl hplus
      · rfl
    rw [List.cons_append, hskip, hskip, ← List.cons_append, minusSign_append _ hne rest]

section Append

variable {rest : List Char} (hrest : EndsNumber rest)

include hrest

theorem takeWhile_of_endsNumber : rest.takeWhile (fun c => (digit? c).isSome) = [] := by
  cases rest with
  | nil => rfl
  | cons c rest => simp [hrest c rfl]

theorem dropWhile_of_endsNumber : rest.dropWhile (fun c => (digit? c).isSome) = rest := by
  cases rest with
  | nil => rfl
  | cons c rest => simp [hrest c rfl]

theorem leadingDigits_append (cs : List Char) :
    leadingDigits (cs ++ rest) = leadingDigits cs := by
  rw [leadingDigits, leadingDigits, List.takeWhile_append, takeWhile_of_endsNumber hrest]
  split
  · rename_i hall
    rw [List.append_nil, (List.takeWhile_prefix _).eq_of_length hall]
  · rfl

theorem skipDigits_append (cs : List Char) : skipDigits (cs ++ rest) = skipDigits cs ++ rest := by
  rw [skipDigits, skipDigits, List.dropWhile_append, dropWhile_of_endsNumber hrest]
  split
  · rename_i hempty
    rw [List.isEmpty_iff.mp hempty, List.nil_append]
  · rfl

theorem startsWithDigit_append (cs : List Char) :
    startsWithDigit (cs ++ rest) = startsWithDigit cs := by
  cases cs with
  | nil =>
    cases rest with
    | nil => rfl
    | cons c rest => exact (hrest c rfl).1
  | cons c cs => rfl

theorem wholeDigits_append {cs r : List Char} {ds : List Nat} (h : wholeDigits cs = .ok (ds, r)) :
    wholeDigits (cs ++ rest) = .ok (ds, r ++ rest) := by
  unfold wholeDigits at h
  split at h
  · cases h
  · rename_i cs
    split at h
    · cases h
    · rename_i hdigit
      cases h
      simp [wholeDigits, startsWithDigit_append hrest, hdigit]
  · rename_i c cs hzero
    split at h
    · rename_i hdigit
      cases h
      have happend := leadingDigits_append hrest (c :: cs)
      rw [List.cons_append] at happend ⊢
      rw [wholeDigits, if_pos hdigit, happend, skipDigits_append hrest]
      exact hzero
    · cases h

theorem fractionDigits_append {cs r : List Char} {ds : Option (List Nat)}
    (h : fractionDigits cs = .ok (ds, r)) :
    fractionDigits (cs ++ rest) = .ok (ds, r ++ rest) := by
  unfold fractionDigits at h
  split at h
  · rename_i cs
    split at h
    · rename_i hdigit
      cases h
      simp [fractionDigits, startsWithDigit_append hrest, hdigit, leadingDigits_append hrest,
        skipDigits_append hrest]
    · cases h
  · rename_i hpoint
    cases h
    unfold fractionDigits
    split
    · rename_i r hr
      cases cs with
      | nil =>
        rw [List.nil_append] at hr
        exact absurd rfl (hrest '.' (by rw [hr]; rfl)).2.1
      | cons c cs =>
        rw [List.cons_append, List.cons.injEq] at hr
        exact absurd (by rw [hr.1]) (hpoint cs)
    · rfl

theorem exponentDigits_append {cs r : List Char} {e : Option (Bool × List Nat)}
    (h : exponentDigits cs = .ok (e, r)) : exponentDigits (cs ++ rest) = .ok (e, r ++ rest) := by
  cases cs with
  | nil =>
    cases h
    cases rest with
    | nil => rfl
    | cons c rest =>
      obtain ⟨-, -, he, hE⟩ := hrest c rfl
      simp [exponentDigits, he, hE]
  | cons c cs =>
    simp only [List.cons_append, exponentDigits] at h ⊢
    by_cases hexponent : c = 'e' ∨ c = 'E'
    · rw [if_pos hexponent] at h ⊢
      split at h
      · rename_i hdigit
        cases h
        have hne : cs ≠ [] := by
          rintro rfl
          exact absurd hdigit (by decide)
        rw [exponentSign_append cs hne, startsWithDigit_append hrest, if_pos hdigit,
          leadingDigits_append hrest, skipDigits_append hrest]
      · cases h
    · rw [if_neg hexponent] at h ⊢
      cases h
      rfl

theorem numeral_append {cs r : List Char} {n : Numeral} (h : numeral cs = .ok (n, r)) :
    numeral (cs ++ rest) = .ok (n, r ++ rest) := by
  unfold numeral at h
  obtain ⟨⟨whole, r₁⟩, h₁, h⟩ := exists_ok_of_bind_eq_ok h
  obtain ⟨⟨fraction, r₂⟩, h₂, h⟩ := exists_ok_of_bind_eq_ok h
  obtain ⟨⟨exponent, r₃⟩, h₃, h⟩ := exists_ok_of_bind_eq_ok h
  cases h
  have hne : cs ≠ [] := by
    rintro rfl
    cases h₁
  simp only [numeral, minusSign_append cs hne, wholeDigits_append hrest h₁,
    fractionDigits_append hrest h₂, exponentDigits_append hrest h₃, bind, Except.bind]

/-- **A number in front of other text** is read as if it stood alone. -/
theorem number_append {cs r : List Char} {v : Number} (h : number cs = .ok (v, r)) :
    number (cs ++ rest) = .ok (v, r ++ rest) := by
  unfold number at h ⊢
  cases hn : numeral cs with
  | error f => simp [hn] at h
  | ok p =>
    obtain ⟨n, r'⟩ := p
    rw [hn] at h
    rw [numeral_append hrest hn]
    dsimp only at h ⊢
    cases hv : n.value with
    | error unread => simp [hv] at h
    | ok v' =>
      rw [hv] at h
      cases h
      rfl

end Append

/-! ### Integers -/

theorem isSome_digit? (c : Char) : (digit? c).isSome = c.isDigit := by
  simp only [digit?, Char.isDigit, ge_iff_le, UInt32.le_iff_toNat_le, Char.le_def]
  split <;> simp_all

theorem digit?_digitChar {d : Nat} (h : d < 10) : digit? d.digitChar = some d := by
  revert d
  decide

theorem absorb_append {n count m : Nat} {ds : List Nat} (ds' : List Nat)
    (h : absorb n count ds = (m, count + ds.length)) :
    absorb n count (ds ++ ds') = absorb m (count + ds.length) ds' := by
  induction ds generalizing n count with
  | nil =>
    obtain ⟨rfl, -⟩ := Prod.mk.inj h
    rfl
  | cons d ds ih =>
    rw [List.length_cons, Nat.add_comm ds.length, ← Nat.add_assoc] at h ⊢
    rw [absorb] at h
    rw [List.cons_append, absorb]
    by_cases hbound : n * 10 + d < significandBound
    · rw [if_pos hbound] at h ⊢
      exact ih h
    · rw [if_neg hbound] at h
      have := (Prod.mk.inj h).2
      omega

/-- The digits of an integer below the bound make that integer, and none is left out. -/
theorem absorb_digits {n : Nat} (h : n < significandBound) :
    absorb 0 0 ((Nat.toDigits 10 n).filterMap digit?) =
      (n, ((Nat.toDigits 10 n).filterMap digit?).length) := by
  induction n using Nat.strongRecOn with
  | ind n ih =>
    rw [Nat.toDigits_eq_if (by decide)]
    split
    · rename_i hlt
      simp [absorb, digit?_digitChar hlt, h]
    · rename_i hle
      have hlast : [(n % 10).digitChar].filterMap digit? = [n % 10] := by
        rw [List.filterMap_cons_some (digit?_digitChar (Nat.mod_lt n (by decide))),
          List.filterMap_nil]
      have hfront := ih (n / 10) (by omega) (by omega)
      rw [List.filterMap_append, hlast, absorb_append _ (by rw [hfront, Nat.zero_add]), absorb,
        Nat.div_add_mod' n 10, if_pos h, absorb]
      simp

theorem head?_toDigits_ne_zero {n : Nat} (h : 0 < n) : (Nat.toDigits 10 n).head? ≠ some '0' := by
  induction n using Nat.strongRecOn with
  | ind n ih =>
    rw [Nat.toDigits_eq_if (by decide)]
    split
    · rename_i hlt
      exact (by decide : ∀ n < 10, 0 < n → [n.digitChar].head? ≠ some '0') n hlt h
    · rename_i hle
      have hfront := ih (n / 10) (by omega) (by omega)
      obtain ⟨c, cs, hcs⟩ :=
        List.exists_cons_of_ne_nil (Nat.toDigits_ne_nil (n := n / 10) (b := 10))
      rw [hcs] at hfront ⊢
      exact hfront

theorem wholeDigits_toDigits (n : Nat) :
    wholeDigits (Nat.toDigits 10 n) = .ok ((Nat.toDigits 10 n).filterMap digit?, []) := by
  have hdigits : ∀ c ∈ Nat.toDigits 10 n, (digit? c).isSome = true := fun c hc => by
    rw [isSome_digit?]
    exact Nat.isDigit_of_mem_toDigits (by decide) (by decide) hc
  rcases Nat.eq_zero_or_pos n with rfl | hpos
  · rfl
  · have hzero := head?_toDigits_ne_zero hpos
    obtain ⟨c, cs, hcs⟩ := List.exists_cons_of_ne_nil (Nat.toDigits_ne_nil (n := n) (b := 10))
    rw [hcs] at hdigits hzero ⊢
    rw [wholeDigits, if_pos (hdigits c List.mem_cons_self), leadingDigits,
      List.takeWhile_eq_self_iff.mpr hdigits, skipDigits,
      List.dropWhile_eq_nil_iff.mpr fun d hd => hdigits d (List.mem_cons_of_mem _ hd)]
    rintro rfl
    exact hzero rfl

theorem minusSign_toDigits (n : Nat) :
    minusSign (Nat.toDigits 10 n) = (false, Nat.toDigits 10 n) := by
  unfold minusSign
  split
  · rename_i cs hcs
    have hminus : '-' ∈ Nat.toDigits 10 n := hcs ▸ List.mem_cons_self
    exact absurd (Nat.isDigit_of_mem_toDigits (by decide) (by decide) hminus) (by decide)
  · rfl

/-- An integer below the bound is read from its digits, with or without a minus sign. -/
theorem number_digits {n : Nat} (h : n < significandBound) (negative : Bool) :
    number ((if negative then ['-'] else []) ++ Nat.toDigits 10 n) =
      .ok (integerNumber negative n, []) := by
  have hsign : minusSign ((if negative then ['-'] else []) ++ Nat.toDigits 10 n) =
      (negative, Nat.toDigits 10 n) := by
    cases negative with
    | false => exact minusSign_toDigits n
    | true => rfl
  have hvalue : (⟨negative, (Nat.toDigits 10 n).filterMap digit?, none, none⟩ : Numeral).value =
      .ok (integerNumber negative n) := by
    simp [Numeral.value, absorb_digits h]
  have hnumeral : numeral ((if negative then ['-'] else []) ++ Nat.toDigits 10 n) =
      .ok (⟨negative, (Nat.toDigits 10 n).filterMap digit?, none, none⟩, []) := by
    simp only [numeral, hsign, wholeDigits_toDigits, fractionDigits, exponentDigits, bind,
      Except.bind]
  simp only [number, hnumeral, hvalue]

/-- **An integer is read back** from its text if it is a signed 64-bit one. -/
theorem number_toString_int {n : Int} (h : Checked.InRange n) :
    number (toString n).toList = .ok (.integer n, []) := by
  have hbounds : -9223372036854775808 ≤ n ∧ n ≤ 9223372036854775807 := h
  rw [show toString n = n.repr from rfl, Int.repr_eq_if]
  split
  · rename_i hnonneg
    rw [Nat.toList_repr]
    have := number_digits (n := n.toNat) (show n.toNat < 18446744073709551616 by omega) false
    simpa [integerNumber, Int.toNat_of_nonneg hnonneg] using this
  · rename_i hneg
    rw [String.toList_append, Nat.toList_repr]
    have hread := number_digits (n := (-n).toNat)
      (show (-n).toNat < 18446744073709551616 by omega) true
    have hback : -((-n).toNat : Int) = n := by omega
    have hinside : ¬((-n).toNat = 0 ∨ ¬Checked.InRange n) := by
      rintro (hzero | hout)
      · omega
      · exact hout h
    rw [integerNumber, hback, if_pos rfl, if_neg hinside] at hread
    exact hread

/-! ### The first character -/

theorem isSome_digit?_of_wholeDigits {c : Char} {cs r : List Char} {ds : List Nat}
    (h : wholeDigits (c :: cs) = .ok (ds, r)) : (digit? c).isSome = true := by
  unfold wholeDigits at h
  split at h
  · cases h
  · rename_i heq
    cases heq
    rfl
  · rename_i heq
    cases heq
    split at h
    · assumption
    · cases h

/-- A number starts with a minus sign or a digit. -/
theorem exists_cons_of_number {cs r : List Char} {v : Number} (h : number cs = .ok (v, r)) :
    ∃ c cs', cs = c :: cs' ∧ (c = '-' ∨ (digit? c).isSome = true) := by
  obtain ⟨n, r', hnumeral⟩ : ∃ n r', numeral cs = .ok (n, r') := by
    unfold number at h
    split at h
    · cases h
    · exact ⟨_, _, ‹_›⟩
  unfold numeral at hnumeral
  obtain ⟨⟨whole, r₁⟩, hwhole, -⟩ := exists_ok_of_bind_eq_ok hnumeral
  cases cs with
  | nil => cases hwhole
  | cons c cs =>
    refine ⟨c, cs, rfl, ?_⟩
    by_cases hminus : c = '-'
    · exact .inl hminus
    · rw [minusSign_of_ne hminus] at hwhole
      exact .inr (isSome_digit?_of_wholeDigits hwhole)

end Json

end CallForest
