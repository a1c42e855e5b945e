import CallForest.Proofs.RoundTrip
import Mathlib.Data.List.Induction

/-!
# The numbers of malformed lines

A line that is no record is reported with a number.  The number counts the lines up to it, but a
line that is no text is not counted, so the number is that of the line in the log only as long as
all lines before it are text.

* `Log.Reader.item?`, `Log.Reader.itemsFrom_append`: a log gives the items of its lines, one after
  another, whatever reads the text of a record;
* `Log.Reader.located`: the items of a log, each with the place of its line among all lines;
* `Log.lines_newline`: the place of a line is that of the newline that ends it;
* `Log.malformedLine_numbers`: by how much the number of a malformed line falls short of its place.
-/

namespace CallForest

namespace Log

/-! ### The items of a log -/

/-- The number of lines that are text. -/
def counted (ls : List (List UInt8)) : Nat := ls.countP fun line => (decode? line).isSome

theorem counted_append (ls ls' : List (List UInt8)) :
    counted (ls ++ ls') = counted ls + counted ls' :=
  List.countP_append

namespace Reader

variable (r : Reader)

/-- What a line gives under a number; nothing if it is blank or a comment. -/
def item? (number : Nat) (line : List UInt8) : Option Item :=
  match decode? line with
  | none => some (.error .notUtf8)
  | some text =>
    match r.ofLine number text with
    | .ok none => none
    | .ok (some e) => some (.ok e)
    | .error fault => some (.error fault)

theorem itemsFrom_cons (number : Nat) (line : List UInt8) (rest : List (List UInt8)) :
    r.itemsFrom number (line :: rest) =
      (r.item? (number + 1) line).toList ++ r.itemsFrom (number + counted [line]) rest := by
  rw [itemsFrom, item?, counted, List.countP_singleton]
  cases decode? line with
  | none => rfl
  | some text =>
    cases h : r.ofLine (number + 1) text with
    | error fault => simp [h]
    | ok e? => cases e? <;> simp [h]

/-- **Two logs, one after the other**: the lines of the second are numbered on from those of the
first that are text. -/
theorem itemsFrom_append (number : Nat) (ls ls' : List (List UInt8)) :
    r.itemsFrom number (ls ++ ls') =
      r.itemsFrom number ls ++ r.itemsFrom (number + counted ls) ls' := by
  induction ls generalizing number with
  | nil => rfl
  | cons line ls ih =>
    have hcounted : counted (line :: ls) = counted [line] + counted ls := counted_append [line] ls
    rw [List.cons_append, itemsFrom_cons, itemsFrom_cons, ih, hcounted, List.append_assoc,
      Nat.add_assoc]

variable {r}

theorem number_of_ofLine {number : Nat} {text : List Char} {fault : Fault}
    (h : r.ofLine number text = .error fault) :
    ∃ reason, fault = .malformedLine number reason := by
  rw [ofLine] at h
  split at h
  · cases h
  · split at h
    · cases h
    · split at h <;> cases h
      exact ⟨_, rfl⟩

/-- A malformed line is reported with the number that it is read under. -/
theorem number_of_item? {number m : Nat} {line : List UInt8} {reason : String}
    (h : r.item? number line = some (.error (.malformedLine m reason))) : m = number := by
  rw [item?] at h
  cases hdecode : decode? line with
  | none => simp [hdecode, Fault.notUtf8] at h
  | some text =>
    cases hline : r.ofLine number text with
    | error fault =>
      obtain ⟨reason', rfl⟩ := number_of_ofLine hline
      simp only [hdecode, hline] at h
      cases h
      rfl
    | ok e? => cases e? <;> simp [hdecode, hline] at h

/-! ### The places of lines -/

variable (r)

/-- The items of a log, each with the place of its line among all lines, the first of which is at
`1`. -/
def located (ls : List (List UInt8)) : List (Nat × Item) :=
  ls.zipIdx.filterMap fun (line, i) => (r.item? (counted (ls.take i) + 1) line).map (i + 1, ·)

variable {r} in
theorem mem_located_iff {ls : List (List UInt8)} {n : Nat} {item : Item} :
    (n, item) ∈ r.located ls ↔
      ∃ i line, ls[i]? = some line ∧ n = i + 1 ∧
        r.item? (counted (ls.take i) + 1) line = some item := by
  rw [located, List.mem_filterMap]
  constructor
  · rintro ⟨⟨line, i⟩, hline, hitem⟩
    obtain ⟨_, hitem, h⟩ := Option.map_eq_some_iff.1 hitem
    cases h
    exact ⟨i, line, List.mk_mem_zipIdx_iff_getElem?.1 hline, rfl, hitem⟩
  · rintro ⟨i, line, hline, rfl, hitem⟩
    refine ⟨(line, i), List.mk_mem_zipIdx_iff_getElem?.2 hline, ?_⟩
    dsimp only
    rw [hitem]
    rfl

theorem located_concat (ls : List (List UInt8)) (line : List UInt8) :
    r.located (ls ++ [line]) =
      r.located ls ++ ((r.item? (counted ls + 1) line).map (ls.length + 1, ·)).toList := by
  -- what stands before the lines of the front does not depend on the line added
  have hfront : ∀ p ∈ ls.zipIdx, (r.item? (counted ((ls ++ [line]).take p.2) + 1) p.1).map
      (p.2 + 1, ·) = (r.item? (counted (ls.take p.2) + 1) p.1).map (p.2 + 1, ·) := by
    rintro ⟨l, i⟩ hp
    have hi := (List.getElem?_eq_some_iff.1 (List.mk_mem_zipIdx_iff_getElem?.1 hp)).1
    rw [List.take_append_of_le_length (Nat.le_of_lt hi)]
  rw [located, List.zipIdx_append, List.filterMap_append, List.filterMap_congr hfront, located,
    Nat.zero_add, List.zipIdx_singleton, List.filterMap_cons, List.filterMap_nil]
  dsimp only
  rw [List.take_left' rfl]
  cases r.item? (counted ls + 1) line <;> rfl

/-- A log gives the items of its lines, in their order. -/
theorem map_snd_located (ls : List (List UInt8)) :
    (r.located ls).map Prod.snd = r.itemsFrom 0 ls := by
  induction ls using List.reverseRecOn with
  | nil => rfl
  | append_singleton ls line ih =>
    rw [located_concat, List.map_append, ih, itemsFrom_append, itemsFrom_cons, Nat.zero_add,
      itemsFrom, List.append_nil]
    cases r.item? (counted ls + 1) line <;> rfl

end Reader

/-! ### Newlines -/

theorem linesFrom_done (done : List (List UInt8)) (current bytes : List UInt8) :
    linesFrom done current bytes = done.reverse ++ linesFrom [] current bytes := by
  induction bytes generalizing done current with
  | nil => cases current <;> simp [linesFrom]
  | cons b bytes ih =>
    by_cases hb : b = newline
    · rw [linesFrom, if_pos hb, ih, linesFrom, if_pos hb, ih [_]]
      simp
    · rw [linesFrom, if_neg hb, ih, linesFrom, if_neg hb]

theorem linesFrom_newline (current front back : List UInt8) :
    linesFrom [] current (front ++ newline :: back) =
        linesFrom [] current (front ++ [newline]) ++ lines back ∧
      (linesFrom [] current (front ++ [newline])).length = front.count newline + 1 := by
  induction front generalizing current with
  | nil =>
    rw [List.nil_append, List.nil_append, linesFrom, if_pos rfl, linesFrom, if_pos rfl,
      linesFrom_done]
    exact ⟨rfl, rfl⟩
  | cons b front ih =>
    by_cases hb : b = newline
    · obtain ⟨hlines, hlength⟩ := ih []
      rw [List.cons_append, List.cons_append, linesFrom, if_pos hb, linesFrom_done, hlines,
        linesFrom, if_pos hb, linesFrom_done [_] [] (front ++ [newline]), List.append_assoc,
        List.length_append, hlength, hb, List.count_cons_self]
      exact ⟨rfl, Nat.add_comm _ _⟩
    · obtain ⟨hlines, hlength⟩ := ih (b :: current)
      rw [List.cons_append, List.cons_append, linesFrom, if_neg hb, linesFrom, if_neg hb,
        List.count_cons_of_ne hb]
      exact ⟨hlines, hlength⟩

/-- **The place of a line is that of its newline**: up to a newline there are as many lines as
newlines, and what is behind it begins a line. -/
theorem lines_newline (front back : List UInt8) :
    lines (front ++ newline :: back) = lines (front ++ [newline]) ++ lines back ∧
      (lines (front ++ [newline])).length = front.count newline + 1 :=
  linesFrom_newline [] front back

/-! ### Numbers and places -/

namespace Reader

section Place

variable {r : Reader} {ls : List (List UInt8)} {n m : Nat} {reason : String}
  (h : (n, .error (.malformedLine m reason)) ∈ r.located ls)
include h

/-- The number of a malformed line and the lines before it that are no text make up its place. -/
theorem number_add_noText :
    m + (ls.take (n - 1)).countP (fun line => (decode? line).isNone) = n := by
  obtain ⟨i, line, hline, rfl, hitem⟩ := mem_located_iff.1 h
  have hi : (ls.take i).length = i :=
    List.length_take_of_le (Nat.le_of_lt (List.getElem?_eq_some_iff.1 hline).1)
  -- the lines before are those that are text, which are counted, and those that are not
  have hsplit := List.length_eq_countP_add_countP (l := ls.take i) fun line => (decode? line).isSome
  simp only [Bool.not_eq_true, Option.isSome_eq_false_iff, Bool.decide_eq_true, hi] at hsplit
  rw [number_of_item? hitem, counted, Nat.add_sub_cancel]
  omega

theorem number_eq_place_iff :
    m = n ↔ ∀ line ∈ ls.take (n - 1), (decode? line).isSome = true := by
  have hplace := number_add_noText h
  have hzero : m = n ↔ (ls.take (n - 1)).countP (fun line => (decode? line).isNone) = 0 := by
    omega
  rw [hzero, List.countP_eq_zero]
  simp only [Option.isNone_iff_eq_none, Option.isSome_iff_ne_none, ne_eq]

end Place

end Reader

/-- **The number of a malformed line falls short of its place** by the number of lines before it
that are no text, whatever reads the text of a record.  So every malformed line of a log is reported
with its place just if no line before one of them fails to be text. -/
theorem malformedLine_numbers (r : Reader) (bytes : ByteArray) :
    r.items bytes = (r.located (lines bytes.toList)).map Prod.snd ∧
    (∀ front back, bytes.toList = front ++ newline :: back →
      lines bytes.toList = lines (front ++ [newline]) ++ lines back ∧
        (lines (front ++ [newline])).length = front.count newline + 1) ∧
    (∀ n m reason, (n, .error (.malformedLine m reason)) ∈ r.located (lines bytes.toList) →
      m + ((lines bytes.toList).take (n - 1)).countP (fun line => (decode? line).isNone) = n) ∧
    ((∀ n m reason, (n, .error (.malformedLine m reason)) ∈ r.located (lines bytes.toList) →
        m = n) ↔
      ∀ n m reason, (n, .error (.malformedLine m reason)) ∈ r.located (lines bytes.toList) →
        ∀ line ∈ (lines bytes.toList).take (n - 1), (decode? line).isSome = true) := by
  refine ⟨(r.map_snd_located _).symm, ?_, ?_, ?_⟩
  · intro front back h
    rw [h]
    exact lines_newline front back
  · intro n m reason h
    exact Reader.number_add_noText h
  · constructor
    · intro h n m reason hmem
      exact (Reader.number_eq_place_iff hmem).1 (h n m reason hmem)
    · intro h n m reason hmem
      exact (Reader.number_eq_place_iff hmem).2 (h n m reason hmem)

/-- A line that is no text, and after it one that is text and no record. -/
def afterNoText : ByteArray := ⟨#[255, 10, 120, 10]⟩

theorem mem_located_afterNoText :
    (2, .error (.malformedLine 1 "expected value at line 1 column 1")) ∈
      json.located (lines afterNoText.toList) := by
  have hlocated : json.located (lines afterNoText.toList) = [(1, .error .notUtf8),
      (2, .error (.malformedLine 1 "expected value at line 1 column 1"))] := by
    decide +kernel
  rw [hlocated]
  exact List.mem_cons_of_mem _ (List.mem_singleton_self _)

/-- The second line is reported as the first. -/
theorem malformedLine_numbers_afterNoText :
    items afterNoText = (json.located (lines afterNoText.toList)).map Prod.snd ∧
      (2, .error (.malformedLine 1 "expected value at line 1 column 1")) ∈
        json.located (lines afterNoText.toList) ∧
      1 + ((lines afterNoText.toList).take 1).countP (fun line => (decode? line).isNone) = 2 := by
  obtain ⟨hitems, -, hshort, -⟩ := malformedLine_numbers json afterNoText
  exact ⟨hitems, mem_located_afterNoText, hshort 2 1 _ mem_located_afterNoText⟩

/-- The number of a malformed line need not be its place. -/
theorem malformedLine_numbered_short :
    ¬ ∀ (bytes : ByteArray) (n m : Nat) (reason : String),
      (n, .error (.malformedLine m reason)) ∈ json.located (lines bytes.toList) → m = n := by
  intro h
  exact absurd (h afterNoText 2 1 _ mem_located_afterNoText) (by decide)

end Log

end CallForest
