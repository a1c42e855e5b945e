import CallForest.Proofs.Fields

/-!
# Fields with carriage returns

Many readers of comma-separated records take a carriage return for the end of a record, alone or
before a newline.  A field is quoted for a comma, a quote or a newline, and not for a carriage
return, so that such a reader breaks a record at a carriage return that stands in an unquoted field.
Nothing else goes wrong: where every carriage return is in a field that is quoted anyway, the
records are read as they were written.

* `Csv.LineReader`: the reader that breaks at carriage returns too, made from the one that does not;
* `Csv.Guarded`: the texts whose carriage returns are quoted;
* `Csv.LineReader.readsFields`: guarded texts are read back, and `Csv.LineReader.guarded_of_read`:
  only tables of guarded texts are;
* `Csv.lineRecords?_text_iff`: when the rows of a forest are read back.
-/

namespace CallForest

namespace Csv

/-! ### The reader -/

/-- A reader for which a record ends at a newline, at a carriage return or at the two together. -/
structure LineReader where
  reader : Reader
  /-- The last character was a carriage return, which ended a record. -/
  returned : Bool

namespace LineReader

/-- A reader before a field, with the fields and the records it has read. -/
def before (fields : List String) (records : List (List String)) : LineReader :=
  ⟨.before fields records, false⟩

variable (l : LineReader)

/-- The reader after a character.  A newline right behind the carriage return that ended a record
belongs to it. -/
def step (c : Char) : Option LineReader :=
  if l.returned = true ∧ c = '\n' then some { l with returned := false }
  else if c = '\r' ∧ l.reader.place ≠ .quoted then some ⟨l.reader.endRecord, true⟩
  else (l.reader.step c).map (⟨·, false⟩)

/-- The reader after a text. -/
def read (cs : List Char) : Option LineReader := cs.foldlM step l

end LineReader

/-- The records of a text for a reader that breaks at carriage returns too, if all of it is
records. -/
def lineRecords? (s : String) : Option (List (List String)) :=
  ((LineReader.before [] []).read s.toList).bind fun l => l.reader.complete?

/-- A carriage return in the text is put between quotes. -/
def Guarded (s : String) : Prop := '\r' ∈ s.toList → needsQuotes s.toList = true

instance (s : String) : Decidable (Guarded s) :=
  inferInstanceAs (Decidable ('\r' ∈ s.toList → needsQuotes s.toList = true))

theorem guarded_of_not_mem {s : String} (h : '\r' ∉ s.toList) : Guarded s := fun hs => absurd hs h

/-! ### Records are only added -/

namespace Reader

theorem records_unquoted (r : Reader) (c : Char) : r.records <+: (r.unquoted c).records := by
  rw [unquoted]
  split
  · exact List.prefix_rfl
  · split
    · exact List.prefix_append _ _
    · exact List.prefix_rfl

theorem records_step {r r' : Reader} {c : Char} (h : r.step c = some r') :
    r.records <+: r'.records := by
  rw [step] at h
  split at h
  · cases h
    split
    · exact List.prefix_rfl
    · exact r.records_unquoted c
  · cases h
    exact r.records_unquoted c
  · cases h
    split <;> exact List.prefix_rfl
  · split at h
    · cases h
      exact List.prefix_rfl
    · split at h
      · cases h
        exact r.records_unquoted c
      · cases h

end Reader

namespace LineReader

variable {l l' : LineReader} {r : Reader} {c : Char} {cs : List Char}

@[simp] theorem read_nil : l.read [] = some l := rfl

@[simp] theorem read_cons : l.read (c :: cs) = (l.step c).bind (·.read cs) := rfl

theorem read_append (cs cs' : List Char) :
    l.read (cs ++ cs') = (l.read cs).bind (·.read cs') :=
  List.foldlM_append

theorem records_step (h : l.step c = some l') : l.reader.records <+: l'.reader.records := by
  rw [step] at h
  split at h
  · cases h
    exact List.prefix_rfl
  · split at h
    · cases h
      exact List.prefix_append _ _
    · obtain ⟨r', hr', rfl⟩ := Option.map_eq_some_iff.1 h
      exact Reader.records_step hr'

/-- What is read later takes no record back. -/
theorem records_read (h : l.read cs = some l') : l.reader.records <+: l'.reader.records := by
  induction cs generalizing l with
  | nil =>
    cases h
    exact List.prefix_rfl
  | cons c cs ih =>
    obtain ⟨l₁, hl₁, h⟩ := Option.bind_eq_some_iff.1 h
    exact (records_step hl₁).trans (ih h)

/-! ### Fields whose carriage returns are quoted -/

/-- But for carriage returns outside of quotes the two readers agree. -/
theorem step_mk (h : c = '\r' → r.place = .quoted) :
    (mk r false).step c = (r.step c).map (⟨·, false⟩) := by
  have hreturn : ¬(c = '\r' ∧ r.place ≠ .quoted) := fun ⟨hc, hplace⟩ => hplace (h hc)
  rw [step, if_neg (fun h => Bool.false_ne_true h.1), if_neg hreturn]

theorem read_mk (h : '\r' ∉ cs) : (mk r false).read cs = (r.read cs).map (⟨·, false⟩) := by
  induction cs generalizing r with
  | nil => rfl
  | cons c cs ih =>
    obtain ⟨hc, hcs⟩ : '\r' ≠ c ∧ '\r' ∉ cs := by simpa using h
    rw [read_cons, step_mk fun hreturn => absurd hreturn.symm hc, Reader.read_cons]
    cases r.step c with
    | none => rfl
    | some r' => exact ih hcs

/-- Between quotes the doubled text is taken as it was, with its carriage returns. -/
theorem read_doubled (h : r.place = .quoted) (cs : List Char) :
    (mk r false).read (doubled cs) = some ⟨{ r with chars := r.chars ++ cs }, false⟩ := by
  induction cs generalizing r with
  | nil => simp [doubled]
  | cons c cs ih =>
    have hone : (mk r false).read (doubled [c]) =
        some ⟨{ r with chars := r.chars ++ [c] }, false⟩ := by
      have hreader := Reader.read_doubled h [c]
      by_cases hc : c = '"'
      · subst hc
        rw [read_mk (by decide), hreader]
        rfl
      · have hdoubled : doubled [c] = [c] := by simp [doubled, hc]
        rw [hdoubled] at hreader ⊢
        rw [read_cons, step_mk fun _ => h]
        rw [Reader.read_cons] at hreader
        cases hstep : r.step c with
        | none => simp [hstep] at hreader
        | some r' =>
          rw [hstep] at hreader
          cases hreader
          rfl
    have hsplit : doubled (c :: cs) = doubled [c] ++ doubled cs := by simp [doubled]
    rw [hsplit, read_append, hone, Option.bind_some, ih (r := { r with chars := r.chars ++ [c] }) h]
    simp

/-- A guarded text is taken from the field it was written to. -/
theorem read_field {s : String} (hs : Guarded s) (fields : List String)
    (records : List (List String)) :
    ∃ place, place ≠ .quoted ∧
      (before fields records).read (field s).toList =
        some ⟨⟨place, s.toList, fields, records⟩, false⟩ := by
  cases h : needsQuotes s.toList with
  | false =>
    have hreturn : '\r' ∉ s.toList := fun hmem => by
      rw [hs hmem] at h
      cases h
    obtain ⟨place, hplace, hread⟩ := Reader.read_field fields records s
    refine ⟨place, hplace, ?_⟩
    rw [field_of_needsQuotes h] at hread ⊢
    rw [before, read_mk hreturn, hread]
    rfl
  | true =>
    refine ⟨.behind, by simp, ?_⟩
    have hfield : (field s).toList = '"' :: (doubled s.toList ++ ['"']) := by simp [field, h]
    have hopen : (before fields records).step '"' = some ⟨⟨.quoted, [], fields, records⟩, false⟩ :=
      rfl
    rw [hfield, read_cons, hopen, Option.bind_some, read_append, read_doubled rfl]
    rfl

/-- A guarded field and the character that ends it. -/
theorem read_field_ends {s : String} (hs : Guarded s) (hc : c = ',' ∨ c = '\n')
    (fields : List String) (records : List (List String)) (rest : List Char) :
    (before fields records).read ((field s).toList ++ c :: rest) =
      (mk ((⟨.plain, s.toList, fields, records⟩ : Reader).unquoted c) false).read rest := by
  obtain ⟨place, hplace, hread⟩ := read_field hs fields records
  have hreturn : c ≠ '\r' := by rcases hc with rfl | rfl <;> decide
  rw [read_append, hread, Option.bind_some, read_cons, step_mk fun h => absurd h hreturn,
    Reader.step_of_ends hplace hc, Option.map_some, Option.bind_some]
  rcases hc with rfl | rfl <;> rfl

theorem readsFields : ReadsFields read before Guarded where
  nothing _ := rfl
  comma hs fields records rest := by
    rw [read_field_ends hs (.inl rfl)]
    simp [Reader.unquoted, Reader.endField, before]
  newline hs fields records rest := by
    rw [read_field_ends hs (.inr rfl)]
    simp [Reader.unquoted, Reader.endRecord, before]

/-! ### Fields whose carriage returns are not quoted -/

/-- A text that is not guarded ends its record at its first carriage return. -/
theorem exists_cut_of_not_guarded {s : String} (hs : ¬Guarded s) {fields : List String}
    {records : List (List String)} {rest : List Char}
    (h : (before fields records).read ((field s).toList ++ rest) = some l) :
    ∃ cut, cut ≠ s ∧ records ++ [fields ++ [cut]] <+: l.reader.records := by
  obtain ⟨hreturn, hquotes⟩ := Classical.not_imp.1 hs
  rw [Bool.not_eq_true] at hquotes
  obtain ⟨front, back, hsplit, hfront⟩ := List.eq_append_cons_of_mem hreturn
  have hplain : needsQuotes front = false := by
    rw [hsplit, needsQuotes_append] at hquotes
    exact (Bool.or_eq_false_iff.1 hquotes).1
  obtain ⟨place, hplace, hread⟩ :=
    Reader.read_plain (r := .before fields records) (.inl rfl) front hplain
  have hbreak : (mk { Reader.before fields records with place, chars := front } false).step '\r' =
      some ⟨.before [] (records ++ [fields ++ [String.ofList front]]), true⟩ := by
    have hquoted : place ≠ .quoted := by
      rintro rfl
      simp at hplace
    rw [step, if_neg (by simp), if_pos ⟨rfl, hquoted⟩]
    rfl
  -- the cut is the text up to its first carriage return, which is not in it
  refine ⟨String.ofList front, ?_, ?_⟩
  · rintro rfl
    rw [String.toList_ofList] at hreturn
    exact hfront hreturn
  · rw [field_of_needsQuotes hquotes, hsplit, List.append_assoc, List.cons_append, read_append,
      before, read_mk hfront, hread, Option.map_some, Option.bind_some] at h
    simp only [Reader.before, List.nil_append] at h hbreak
    rw [read_cons, hbreak, Option.bind_some] at h
    exact records_read h

theorem exists_first_not_guarded {fields : List String} (h : ¬∀ s ∈ fields, Guarded s) :
    ∃ ss s ts, fields = ss ++ s :: ts ∧ (∀ s ∈ ss, Guarded s) ∧ ¬Guarded s := by
  cases hfind : fields.find? (fun s => decide ¬Guarded s) with
  | none => exact absurd (by simpa using hfind) h
  | some s =>
    obtain ⟨hs, ss, ts, hsplit, hss⟩ := List.find?_eq_some_iff_append.1 hfind
    exact ⟨ss, s, ts, hsplit, by simpa using hss, by simpa using hs⟩

theorem exists_toList_record_cons (s : String) (ts : List String) :
    ∃ rest, (record ((s :: ts).map field)).toList = (field s).toList ++ rest := by
  cases ts with
  | nil => exact ⟨_, by rw [List.map_singleton, toList_record_singleton]⟩
  | cons t ts => exact ⟨_, by rw [List.map_cons, List.map_cons, toList_record_cons_cons]⟩

/-- **Only tables of guarded texts are read back.** -/
theorem guarded_of_read {rows : List (List String)} (hne : ∀ fields ∈ rows, fields ≠ [])
    {records : List (List String)}
    (h : (before [] records).read (table rows).toList = some l)
    (hrecords : l.reader.records = records ++ rows) :
    ∀ fields ∈ rows, ∀ s ∈ fields, Guarded s := by
  induction rows generalizing records with
  | nil => simp
  | cons fields rows ih =>
    obtain ⟨hnil, hne⟩ := List.forall_mem_cons.1 hne
    rw [toList_table_cons] at h
    by_cases hfields : ∀ s ∈ fields, Guarded s
    · rw [readsFields.record hnil hfields] at h
      exact List.forall_mem_cons.2 ⟨hfields, ih hne h (by rw [hrecords]; simp)⟩
    · -- the first text that is not guarded cuts its record short, and the record stays so
      exfalso
      obtain ⟨ss, s, ts, hsplit, hss, hs⟩ := exists_first_not_guarded hfields
      obtain ⟨rest, hrest⟩ := exists_toList_record_cons s ts
      rw [hsplit, readsFields.fields hss, List.nil_append, hrest, List.append_assoc] at h
      obtain ⟨cut, hcut, hprefix⟩ := exists_cut_of_not_guarded hs h
      rw [hrecords, List.prefix_append_right_inj, hsplit] at hprefix
      obtain ⟨more, hmore⟩ := hprefix
      obtain ⟨hrecord, -⟩ := List.cons.inj hmore
      exact hcut (List.cons.inj (List.append_cancel_left hrecord)).1

end LineReader

/-- **A table is read back just if its texts are guarded.** -/
theorem lineRecords?_table_iff {rows : List (List String)} (hne : ∀ fields ∈ rows, fields ≠ []) :
    lineRecords? (table rows) = some rows ↔ ∀ fields ∈ rows, ∀ s ∈ fields, Guarded s := by
  constructor
  · intro h
    obtain ⟨l, hread, hcomplete⟩ := Option.bind_eq_some_iff.1 h
    refine LineReader.guarded_of_read hne hread ?_
    rw [Reader.complete?] at hcomplete
    split at hcomplete
    · exact Option.some.inj hcomplete
    · cases hcomplete
  · intro h
    rw [lineRecords?, LineReader.readsFields.table hne h]
    simp [LineReader.before, Reader.complete?, Reader.before]

/-! ### Rows of a forest -/

theorem not_mem_of_isNumeric {s : String} (h : Text.IsNumeric s) : '\r' ∉ s.toList := by
  intro hreturn
  exact absurd (h _ hreturn) (by decide)

/-- The line behind the name of a file needs no quotes and has no carriage return. -/
theorem guarded_declaration_iff (file : String) (line : Nat) :
    Guarded (file ++ ":" ++ toString line) ↔ Guarded file := by
  have hline : '\r' ∉ (toString line).toList :=
    not_mem_of_isNumeric (Text.isNumeric_toString_nat line)
  have hquotes : needsQuotes (toString line).toList = false :=
    needsQuotes_of_isNumeric (Text.isNumeric_toString_nat line)
  have hcolon : needsQuotes ":".toList = false := by decide
  have hmem : '\r' ∈ (file ++ ":" ++ toString line).toList ↔ '\r' ∈ file.toList := by
    simp only [String.toList_append, List.mem_append, hline, or_false]
    exact or_iff_left (by decide)
  rw [Guarded, Guarded, hmem, String.toList_append, String.toList_append, needsQuotes_append,
    needsQuotes_append, hquotes, hcolon, Bool.or_false, Bool.or_false]

/-- Of the texts of a row only the names of the function and of the file can have a carriage
return. -/
theorem Row.forall_guarded_texts_iff (withSource : Bool) (r : Row) :
    (∀ s ∈ r.texts withSource, Guarded s) ↔
      Guarded r.site.function ∧ (withSource = true → Guarded r.site.file) := by
  have hnat : ∀ n : Nat, Guarded (toString n) := fun n =>
    guarded_of_not_mem (not_mem_of_isNumeric (Text.isNumeric_toString_nat n))
  have hint : ∀ n : Int, Guarded (toString n) := fun n =>
    guarded_of_not_mem (not_mem_of_isNumeric (Text.isNumeric_toString_int n))
  have htime : ∀ x : Float, Guarded (Decimal.fixed 6 x) := fun x =>
    guarded_of_not_mem (not_mem_of_isNumeric (Text.isNumeric_fixed 6 x))
  have hword : ∀ b : Boundary, Guarded b.word := by
    intro b
    cases b <;> decide
  have hsource : (∀ s ∈ (if withSource then [r.site.file ++ ":" ++ toString r.site.line.toNat]
      else []), Guarded s) ↔ (withSource = true → Guarded r.site.file) := by
    cases withSource with
    | false => simp
    | true => simp only [if_true, List.forall_mem_singleton, guarded_declaration_iff, forall_const]
  rw [Row.texts, List.forall_mem_append, hsource]
  simp only [List.forall_mem_cons, hnat, hint, htime, hword, List.not_mem_nil, false_implies,
    implies_true, true_and, and_true]

/-- **When rows are read back by a reader that breaks at carriage returns.**  The records are the
headings and one for each row, field by field, just if every name with a carriage return in it also
has a comma, a quote or a newline and so is quoted: the names of the functions, and those of the
files where there is a column for them. -/
theorem lineRecords?_text_iff (withSource : Bool) (rows : List Row) :
    lineRecords? (text withSource rows) =
        some (headings withSource :: rows.map (Row.texts withSource)) ↔
      ∀ r ∈ rows, Guarded r.site.function ∧ (withSource = true → Guarded r.site.file) := by
  have hheadings : ∀ s ∈ headings withSource, Guarded s := by
    cases withSource <;> decide
  have hne : ∀ fields ∈ headings withSource :: rows.map (Row.texts withSource), fields ≠ [] := by
    rw [List.forall_mem_cons, List.forall_mem_map]
    cases withSource <;> exact ⟨List.cons_ne_nil _ _, fun _ _ => List.cons_ne_nil _ _⟩
  rw [text_eq_table, lineRecords?_table_iff hne, List.forall_mem_cons, List.forall_mem_map]
  simp only [Row.forall_guarded_texts_iff]
  exact and_iff_right hheadings

/-- A visit of a function with a carriage return in its name. -/
def brokenRow : Row := ⟨⟨0, 0, .enter, 0, .zero⟩, ⟨"a.py", "a\rb", 1⟩⟩

/-- The record of such a visit is broken in two. -/
theorem lineRecords?_text_broken :
    lineRecords? (text false [brokenRow]) =
        some [headings false, ["0", "0", "call", "0", "a"], ["b", "0.000000", "0"]] ∧
      ¬ ∀ (withSource : Bool) (rows : List Row),
        lineRecords? (text withSource rows) =
          some (headings withSource :: rows.map (Row.texts withSource)) := by
  have hbroken : lineRecords? (text false [brokenRow]) =
      some [headings false, ["0", "0", "call", "0", "a"], ["b", "0.000000", "0"]] := by
    decide +kernel
  refine ⟨hbroken, fun h => ?_⟩
  rw [h false [brokenRow]] at hbroken
  exact absurd hbroken (by decide +kernel)

end Csv

end CallForest
