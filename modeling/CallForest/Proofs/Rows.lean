import CallForest.Json.Record
import CallForest.Proofs.Numerals
import CallForest.Proofs.Strings

/-!
# Rows read back

A row is written as an object with its members in the order of the fields.  Reading it fills the
slots from the first to the last, so the state of the reader is known by the number of members read.
Strings and integers are read back whatever they are; of doubles it is assumed.

* `Json.Kind.read_compact`: a value of a field is read back;
* `Json.readMember_compact`: a member fills the next slot;
* `Json.Schema.parse_compact`: a row is read back.
-/

namespace CallForest

namespace Json

/-! ### Values -/

/-- A double is read from its text as the same double. -/
def ReadsBack (x : Seconds) : Prop := number (realText x).toList = .ok (.real x, [])

-- the digits are right, but reading rounds twice and is one bit off
example : realText ⟨0x3fb999999999999d⟩ = "0.10000000000000005" ∧
    ¬ReadsBack ⟨0x3fb999999999999d⟩ := by
  unfold ReadsBack
  decide +kernel

/-- A value is read back if it is no double or one that is. -/
def Kind.ReadsBack : (k : Kind) → k.Carrier → Prop
  | .real, x => Json.ReadsBack x
  | .text, _ | .nat32, _ | .int64, _ => True

/-- The values of a row are read back. -/
def Row.ReadsBack : (fs : List Field) → Row fs → Prop
  | [], _ => True
  | f :: fs, (v, vs) => f.kind.ReadsBack v ∧ Row.ReadsBack fs vs

theorem skipBlanks_cons {c : Char} (h : isBlank c = false) (cs : List Char) :
    skipBlanks (c :: cs) = c :: cs := by
  simp [skipBlanks, h]

theorem isBlank_of_startsNumber {c : Char} (h : c = '-' ∨ (digit? c).isSome = true) :
    isBlank c = false := by
  rw [← Bool.not_eq_true]
  simp only [isBlank, Bool.or_eq_true, beq_iff_eq]
  rintro (((rfl | rfl) | rfl) | rfl) <;> exact absurd h (by decide)

theorem Kind.read_of_number {k : Kind} {cs r : List Char} {n : Number} (hk : k ≠ .text)
    (h : number cs = .ok (n, r)) :
    k.read cs =
      match n with
      | .integer i => k.ofInteger i r
      | .real x =>
        match k with
        | .real => .ok (x, r)
        | k => .error (.before (.wrongType (.real x) k.describe) r) := by
  obtain ⟨c, cs, rfl, hc⟩ := exists_cons_of_number h
  unfold Kind.read
  rw [skipBlanks_cons (isBlank_of_startsNumber hc)]
  cases k with
  | text => exact absurd rfl hk
  | nat32 | int64 | real =>
    simp only [if_pos hc, h]
    cases n <;> rfl

/-- A value is read back in front of a text that cannot carry a number on. -/
theorem Kind.read_compact {k : Kind} {v : k.Carrier} (hv : k.ReadsBack v) {rest : List Char}
    (hrest : EndsNumber rest) : k.read ((k.toValue v).compact.toList ++ rest) = .ok (v, rest) := by
  cases k with
  | text =>
    obtain ⟨cs, hcs, hbody⟩ := stringBody_stringText v rest
    rw [Kind.toValue, Value.compact, hcs, Kind.read, skipBlanks_cons (by decide)]
    exact hbody
  | nat32 =>
    have hbound : v.toNat < 4294967296 := v.toNat_lt
    have hinside : Checked.InRange (v.toNat : Int) :=
      show -9223372036854775808 ≤ (v.toNat : Int) ∧ (v.toNat : Int) ≤ 9223372036854775807 by omega
    have hfits : 0 ≤ (v.toNat : Int) ∧ (v.toNat : Int) < UInt32.size :=
      ⟨Int.natCast_nonneg _, Int.ofNat_lt.mpr v.toNat_lt⟩
    have hread := number_append hrest (number_toString_int hinside)
    rw [Kind.toValue, Value.compact, Kind.read_of_number (by decide) hread]
    simp only [Kind.ofInteger]
    rw [if_pos hfits, Int.toNat_natCast, UInt32.ofNat_toNat, List.nil_append]
  | int64 =>
    have hread := number_append hrest (number_toString_int (Checked.inRange_toInt v))
    rw [Kind.toValue, Value.compact, Kind.read_of_number (by decide) hread]
    simp [Kind.ofInteger, Checked.inRange_toInt v]
  | real =>
    rw [Kind.toValue, Value.compact, Kind.read_of_number (by decide) (number_append hrest hv)]
    rfl

/-! ### Slots -/

namespace Slots

/-- The first `n` values of a row. -/
def filled : (fs : List Field) → Row fs → Nat → Slots fs
  | [], _, _ => ()
  | _ :: fs, (_, vs), 0 => (none, filled fs vs 0)
  | _ :: fs, (v, vs), n + 1 => (some v, filled fs vs n)

theorem filled_zero (fs : List Field) (row : Row fs) : filled fs row 0 = empty fs := by
  induction fs with
  | nil => rfl
  | cons f fs ih =>
    obtain ⟨v, vs⟩ := row
    simp only [filled, empty, ih]

theorem complete_filled (fs : List Field) (row : Row fs) {n : Nat} (h : fs.length ≤ n) :
    complete fs (filled fs row n) = .ok row := by
  induction fs generalizing n with
  | nil => rfl
  | cons f fs ih =>
    obtain ⟨v, vs⟩ := row
    obtain ⟨m, rfl⟩ : ∃ m, n = m + 1 := ⟨n - 1, by simp at h; omega⟩
    simp only [filled, complete, ih vs (by simpa using h)]
    rfl

end Slots

theorem length_members (fs : List Field) (row : Row fs) :
    (Row.members fs row).length = fs.length := by
  induction fs with
  | nil => rfl
  | cons f fs ih =>
    obtain ⟨v, vs⟩ := row
    simp [Row.members, ih]

theorem map_fst_members (fs : List Field) (row : Row fs) :
    (Row.members fs row).map (·.1) = fs.map (·.name) := by
  induction fs with
  | nil => rfl
  | cons f fs ih =>
    obtain ⟨v, vs⟩ := row
    simp [Row.members, ih]

theorem ne_of_members {f : Field} {fs : List Field} {row : Row fs} {n : Nat} {key : String}
    {value : Value} (hnames : ((f :: fs).map (·.name)).Nodup)
    (h : (Row.members fs row)[n]? = some (key, value)) : f.name ≠ key := by
  rintro rfl
  have hmem : f.name ∈ fs.map (·.name) := by
    rw [← map_fst_members fs row]
    exact List.mem_map_of_mem (f := (·.1)) (List.mem_of_getElem? h)
  exact (List.nodup_cons.mp hnames).1 hmem

/-- The value of the next member goes into the next slot, which is empty before. -/
theorem Slots.read_filled {fs : List Field} (hnames : (fs.map (·.name)).Nodup) {row : Row fs}
    (hrow : Row.ReadsBack fs row) {n : Nat} {key : String} {value : Value}
    (h : (Row.members fs row)[n]? = some (key, value)) {rest : List Char}
    (hrest : EndsNumber rest) :
    Slots.has fs (filled fs row n) key = false ∧
      Slots.read fs (filled fs row n) key (value.compact.toList ++ rest) =
        .ok (filled fs row (n + 1), rest) := by
  induction fs generalizing n with
  | nil => simp [Row.members] at h
  | cons f fs ih =>
    obtain ⟨v, vs⟩ := row
    obtain ⟨hv, hvs⟩ := hrow
    cases n with
    | zero =>
      rw [Row.members, List.getElem?_cons_zero] at h
      cases h
      simp [filled, Slots.has, Slots.read, Kind.read_compact hv hrest, Except.map]
    | succ n =>
      rw [Row.members, List.getElem?_cons_succ] at h
      obtain ⟨hhas, hread⟩ := ih (List.nodup_cons.mp hnames).2 hvs h
      simp [filled, Slots.has, Slots.read, ne_of_members hnames h, hhas, hread, Except.map]

/-! ### Objects -/

/-- The text of a member. -/
def memberText (m : String × Value) : String := stringText m.1 ++ ":" ++ m.2.compact

theorem compactMembers_eq_map (ms : List (String × Value)) :
    Value.compactMembers ms = ms.map memberText := by
  induction ms with
  | nil => rfl
  | cons m ms ih =>
    obtain ⟨k, v⟩ := m
    rw [Value.compactMembers, ih]
    rfl

/-- The text of an object after some of its members, `ms` being those to come. -/
def afterMember (ms : List (String × Value)) (rest : List Char) : List Char :=
  ms.flatMap (fun m => ',' :: (memberText m).toList) ++ '\x7d' :: rest

theorem toList_compact_object (m : String × Value) (ms : List (String × Value)) :
    (Value.object (m :: ms)).compact.toList =
      '\x7b' :: ((memberText m).toList ++ afterMember ms []) := by
  have hmembers : (",".intercalate ((m :: ms).map memberText)).toList =
      (memberText m).toList ++ ms.flatMap fun m => ',' :: (memberText m).toList := by
    induction ms generalizing m with
    | nil => simp
    | cons m' ms ih =>
      rw [List.map_cons, List.map_cons, String.intercalate_cons_cons, ← List.map_cons,
        String.toList_append, ih]
      simp
  rw [Value.compact, compactMembers_eq_map, String.toList_append, String.toList_append, hmembers]
  simp [afterMember]

theorem endsNumber_afterMember (ms : List (String × Value)) (rest : List Char) :
    EndsNumber (afterMember ms rest) := by
  cases ms with
  | nil =>
    rintro c hc
    cases hc
    decide
  | cons m ms =>
    rintro c hc
    cases hc
    decide

theorem exists_toList_memberText (m : String × Value) :
    ∃ cs, (memberText m).toList = '"' :: cs := by
  obtain ⟨cs, hcs, -⟩ := stringBody_stringText m.1 []
  rw [List.append_nil] at hcs
  exact ⟨cs ++ ':' :: m.2.compact.toList, by simp [memberText, hcs]⟩

theorem readMembers_close (fs : List Field) (vs : Slots fs) (rest : List Char) :
    readMembers fs vs ('\x7d' :: rest) = .ok (vs, rest) := by
  rw [readMembers]
  split
  · rename_i hblanks
    rw [skipBlanks_cons (by decide)] at hblanks
    cases hblanks
  · rename_i hblanks
    rw [skipBlanks_cons (by decide)] at hblanks
    cases hblanks
    rw [if_pos rfl]

theorem readMembers_comma {fs : List Field} {vs vs' : Slots fs} {cs r : List Char}
    (h : readMember fs vs ('"' :: cs) = .ok (vs', r)) :
    readMembers fs vs (',' :: '"' :: cs) = readMembers fs vs' r := by
  rw [readMembers]
  split
  · rename_i hblanks
    rw [skipBlanks_cons (by decide)] at hblanks
    cases hblanks
  · rename_i hblanks
    rw [skipBlanks_cons (by decide)] at hblanks
    cases hblanks
    rw [if_neg (by decide), if_pos rfl]
    split
    · rename_i hquote
      rw [skipBlanks_cons (by decide)] at hquote
      cases hquote
    · rename_i hquote
      rw [skipBlanks_cons (by decide)] at hquote
      cases hquote
      rw [if_neg (by decide)]
      split
      · rename_i hfailed
        cases h.symm.trans hfailed
      · rename_i hpassed
        cases h.symm.trans hpassed
        rfl

section Filling

variable {fs : List Field} (hnames : (fs.map (·.name)).Nodup) {row : Row fs}
  (hrow : Row.ReadsBack fs row)

include hnames hrow

/-- A member fills the next slot. -/
theorem readMember_compact {n : Nat} {m : String × Value} (h : (Row.members fs row)[n]? = some m)
    {rest : List Char} (hrest : EndsNumber rest) :
    readMember fs (Slots.filled fs row n) ((memberText m).toList ++ rest) =
      .ok (Slots.filled fs row (n + 1), rest) := by
  obtain ⟨key, value⟩ := m
  obtain ⟨hhas, hread⟩ := Slots.read_filled hnames hrow h hrest
  obtain ⟨cs, hcs, hbody⟩ := stringBody_stringText key (':' :: (value.compact.toList ++ rest))
  have htext : (memberText (key, value)).toList ++ rest = '"' :: cs := by
    rw [← hcs]
    simp [memberText]
  have hcolon (r : List Char) : colon (':' :: r) = .ok r := by
    rw [colon, skipBlanks_cons (by decide)]
    rfl
  simp [htext, readMember, hbody, hhas, hcolon, hread]

/-- The members that are still to come fill the slots that are still empty. -/
theorem readMembers_compact {n : Nat} (hn : n ≤ fs.length) {ms : List (String × Value)}
    (h : (Row.members fs row).drop n = ms) (rest : List Char) :
    readMembers fs (Slots.filled fs row n) (afterMember ms rest) =
      .ok (Slots.filled fs row fs.length, rest) := by
  -- on the members to come; the state of the reader is the number of those before them
  induction ms generalizing n with
  | nil =>
    have hlength : n = fs.length := by
      have := List.drop_eq_nil_iff.mp h
      rw [length_members] at this
      omega
    subst hlength
    exact readMembers_close fs _ rest
  | cons m ms ih =>
    have hget : (Row.members fs row)[n]? = some m := by
      rw [← List.head?_drop, h, List.head?_cons]
    have hlt : n < fs.length := by
      rw [← length_members fs row]
      exact (List.getElem?_eq_some_iff.mp hget).1
    have hdrop : (Row.members fs row).drop (n + 1) = ms := by
      rw [← List.tail_drop, h, List.tail_cons]
    have hmember := readMember_compact hnames hrow hget (endsNumber_afterMember ms rest)
    obtain ⟨cs, hcs⟩ := exists_toList_memberText m
    have htext : afterMember (m :: ms) rest = ',' :: '"' :: (cs ++ afterMember ms rest) := by
      simp [afterMember, hcs]
    rw [hcs, List.cons_append] at hmember
    rw [htext, readMembers_comma hmember]
    exact ih hlt hdrop

/-- An object is read back, once its brace is read. -/
theorem readObject_compact {cs : List Char}
    (h : (Value.object (Row.members fs row)).compact.toList = '\x7b' :: cs) :
    readObject fs cs = .ok (row, []) := by
  have hcomplete := Slots.complete_filled fs row (Nat.le_refl _)
  unfold readObject
  cases hms : Row.members fs row with
  | nil =>
    have hlength : fs.length = 0 := by rw [← length_members fs row, hms, List.length_nil]
    have hempty : (Value.object []).compact.toList = ['\x7b', '\x7d'] := rfl
    rw [hms, hempty] at h
    cases h
    rw [hlength, Slots.filled_zero] at hcomplete
    simp [skipBlanks_cons (show isBlank '\x7d' = false by decide), hcomplete]
  | cons m ms =>
    have hlt : 0 < fs.length := by
      rw [← length_members fs row, hms]
      exact Nat.succ_pos _
    have hmember := readMember_compact hnames hrow (n := 0) (by rw [hms]; rfl)
      (endsNumber_afterMember ms [])
    have hmembers : readMembers fs (Slots.filled fs row 1) (afterMember ms []) =
        .ok (Slots.filled fs row fs.length, []) :=
      readMembers_compact hnames hrow hlt (by rw [hms]; rfl) []
    rw [hms, toList_compact_object] at h
    obtain ⟨-, rfl⟩ := List.cons.inj h
    obtain ⟨cs, hcs⟩ := exists_toList_memberText m
    rw [Slots.filled_zero] at hmember
    rw [hcs, List.cons_append] at hmember ⊢
    simp [skipBlanks_cons (show isBlank '"' = false by decide), hmember, hmembers, hcomplete]

end Filling

theorem exists_toList_compact_object (ms : List (String × Value)) :
    ∃ cs, (Value.object ms).compact.toList = '\x7b' :: cs := by
  cases ms with
  | nil => exact ⟨['\x7d'], rfl⟩
  | cons m ms => exact ⟨_, toList_compact_object m ms⟩

/-- **A row is read back** from its text on one line if its doubles are and no two of its fields
have the same name. -/
theorem Schema.parse_compact (s : Schema) (hnames : (s.fields.map (·.name)).Nodup)
    {row : Row s.fields} (hrow : Row.ReadsBack s.fields row) :
    s.parse (s.toValue row).compact.toList = .ok row := by
  obtain ⟨cs, hcs⟩ := exists_toList_compact_object (Row.members s.fields row)
  have hobject := readObject_compact hnames hrow hcs
  rw [Schema.toValue, hcs, Schema.parse, whole, Schema.readRow, skipBlanks_cons (by decide)]
  simp [hobject, skipBlanks]

end Json

end CallForest
