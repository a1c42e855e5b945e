import CallForest.Proofs.Characters
import CallForest.Report.Csv
import Mathlib.Data.List.Basic
import Std.Data.String.ToNat

/-!
# Reading fields back

A reader of comma-separated records, one character after another: a comma ends a field and a
newline a record, and between the quotes of a field that starts with one neither does, while two
quotes stand for one.  Such a reader gets from the texts of this library the fields they were
written from, whatever the names of functions and files are.

* `Csv.ReadsFields`: a reader that takes fields one by one takes whole tables;
* `Csv.Reader.read_field`: what a reader has taken of a field that was written;
* `Csv.records?_table`: the records of a table are read back;
* `Csv.field_of_isNumeric`: numbers need no quotes;
* `Csv.records?_text`: the rows of a forest and the costs of its functions are read back.
-/

namespace CallForest

namespace Csv

/-! ### The reader -/

/-- Where a reader stands in a field. -/
inductive Place where
  /-- Nothing of the field is read. -/
  | start
  /-- In a field without quotes. -/
  | plain
  /-- Between the quotes of a field. -/
  | quoted
  /-- Behind a quote that ends the field unless it is followed by another. -/
  | behind
  deriving DecidableEq, Repr

/-- What is read of a text: the field and the record that are not complete, and the records before
them. -/
structure Reader where
  place : Place
  chars : List Char
  fields : List String
  records : List (List String)

namespace Reader

/-- A reader before a field, with the fields and the records it has read. -/
def before (fields : List String) (records : List (List String)) : Reader :=
  ⟨.start, [], fields, records⟩

variable (r : Reader)

/-- The field is complete. -/
def endField : Reader := before (r.fields ++ [String.ofList r.chars]) r.records

/-- The field and the record are complete. -/
def endRecord : Reader := before [] (r.records ++ [r.fields ++ [String.ofList r.chars]])

/-- One more character of the field. -/
def take (place : Place) (c : Char) : Reader := { r with place, chars := r.chars ++ [c] }

/-- A character that is not between quotes. -/
def unquoted (c : Char) : Reader :=
  if c = ',' then r.endField else if c = '\n' then r.endRecord else r.take .plain c

/-- The reader after a character; a field cannot go on behind its closing quote. -/
def step (c : Char) : Option Reader :=
  match r.place with
  | .start => some (if c = '"' then { r with place := .quoted } else r.unquoted c)
  | .plain => some (r.unquoted c)
  | .quoted => some (if c = '"' then { r with place := .behind } else r.take .quoted c)
  | .behind =>
    if c = '"' then some (r.take .quoted c)
    else if c = ',' ∨ c = '\n' then some (r.unquoted c)
    else none

/-- The reader after a text. -/
def read (cs : List Char) : Option Reader := cs.foldlM step r

/-- The records that are read, none of which is left incomplete. -/
def complete? : Option (List (List String)) :=
  if r.place = .start ∧ r.fields = [] then some r.records else none

end Reader

/-- The records of a text, if all of it is records. -/
def records? (s : String) : Option (List (List String)) :=
  ((Reader.before [] []).read s.toList).bind Reader.complete?

/-! ### Records and tables -/

theorem toList_record_cons_cons (s t : String) (ss : List String) :
    (record (s :: t :: ss)).toList = s.toList ++ ',' :: (record (t :: ss)).toList := by
  simp [record, String.intercalate_cons_cons]

theorem toList_record_singleton (s : String) : (record [s]).toList = s.toList ++ ['\n'] := by
  simp [record]

/-- The text of a table of fields. -/
def table (rows : List (List String)) : String :=
  String.join (rows.map fun fields => record (fields.map field))

theorem toList_table_cons (fields : List String) (rows : List (List String)) :
    (table (fields :: rows)).toList =
      (record (fields.map field)).toList ++ (table rows).toList := by
  simp [table, String.toList_join]

/-- A reader takes the texts with the property `P` from the fields that they were written to.  What
it is before a field is given by the fields and the records it has read. -/
structure ReadsFields {ρ : Type} (read : ρ → List Char → Option ρ)
    (before : List String → List (List String) → ρ) (P : String → Prop) : Prop where
  nothing : ∀ r, read r [] = some r
  comma : ∀ {s}, P s → ∀ fields records rest,
    read (before fields records) ((field s).toList ++ ',' :: rest) =
      read (before (fields ++ [s]) records) rest
  newline : ∀ {s}, P s → ∀ fields records rest,
    read (before fields records) ((field s).toList ++ '\n' :: rest) =
      read (before [] (records ++ [fields ++ [s]])) rest

namespace ReadsFields

variable {ρ : Type} {read : ρ → List Char → Option ρ}
  {before : List String → List (List String) → ρ} {P : String → Prop}
  (h : ReadsFields read before P)
include h

/-- Fields before another one of their record. -/
theorem fields {ss : List String} (hss : ∀ s ∈ ss, P s) (t : String) (ts fields : List String)
    (records : List (List String)) (rest : List Char) :
    read (before fields records) ((record ((ss ++ t :: ts).map field)).toList ++ rest) =
      read (before (fields ++ ss) records) ((record ((t :: ts).map field)).toList ++ rest) := by
  -- on the fields to come, `fields` being those the reader has
  induction ss generalizing fields with
  | nil => simp
  | cons s ss ih =>
    obtain ⟨hs, hss⟩ := List.forall_mem_cons.1 hss
    obtain ⟨u, us, hus⟩ : ∃ u us, ss ++ t :: ts = u :: us :=
      List.exists_cons_of_ne_nil (List.append_ne_nil_of_right_ne_nil _ (List.cons_ne_nil t ts))
    have hsplit : (record (((s :: ss) ++ t :: ts).map field)).toList =
        (field s).toList ++ ',' :: (record ((ss ++ t :: ts).map field)).toList := by
      rw [List.cons_append, hus, List.map_cons, List.map_cons, toList_record_cons_cons]
    have hfields : fields ++ [s] ++ ss = fields ++ s :: ss := by simp
    rw [hsplit, List.append_assoc, List.cons_append, h.comma hs, ← hfields, ← ih hss]

/-- A record that was written is one record more for the reader. -/
theorem record {fields : List String} (hne : fields ≠ []) (hfields : ∀ s ∈ fields, P s)
    (records : List (List String)) (rest : List Char) :
    read (before [] records) ((Csv.record (fields.map field)).toList ++ rest) =
      read (before [] (records ++ [fields])) rest := by
  obtain ⟨ss, s, rfl⟩ := (List.eq_nil_or_concat' fields).resolve_left hne
  obtain ⟨hss, hs⟩ := List.forall_mem_append.1 hfields
  rw [h.fields hss, List.map_singleton, toList_record_singleton, List.append_assoc,
    List.singleton_append, h.newline (hs s (List.mem_singleton_self s)), List.nil_append]

/-- **A table is read back**, record by record. -/
theorem table {rows : List (List String)} (hne : ∀ fields ∈ rows, fields ≠ [])
    (hrows : ∀ fields ∈ rows, ∀ s ∈ fields, P s) (records : List (List String)) :
    read (before [] records) (Csv.table rows).toList = some (before [] (records ++ rows)) := by
  induction rows generalizing records with
  | nil => simpa [Csv.table] using h.nothing (before [] records)
  | cons fields rows ih =>
    obtain ⟨hfields, hrows⟩ := List.forall_mem_cons.1 hrows
    obtain ⟨hnil, hne⟩ := List.forall_mem_cons.1 hne
    rw [toList_table_cons, h.record hnil hfields, ih hne hrows, List.append_assoc,
      List.singleton_append]

end ReadsFields

/-! ### Fields -/

theorem needsQuotes_append (cs cs' : List Char) :
    needsQuotes (cs ++ cs') = (needsQuotes cs || needsQuotes cs') :=
  List.any_append

theorem field_of_needsQuotes {s : String} (h : needsQuotes s.toList = false) : field s = s := by
  simp [field, h]

namespace Reader

variable {r : Reader}

@[simp] theorem read_nil : r.read [] = some r := rfl

@[simp] theorem read_cons (c : Char) (cs : List Char) :
    r.read (c :: cs) = (r.step c).bind (·.read cs) := rfl

theorem read_append (cs cs' : List Char) :
    r.read (cs ++ cs') = (r.read cs).bind (·.read cs') :=
  List.foldlM_append

/-- Between quotes the doubled text is taken as it was. -/
theorem read_doubled (h : r.place = .quoted) (cs : List Char) :
    r.read (doubled cs) = some { r with chars := r.chars ++ cs } := by
  induction cs generalizing r with
  | nil => simp [doubled]
  | cons c cs ih =>
    have htake : (r.take .quoted c).read (doubled cs) =
        some { r with chars := r.chars ++ c :: cs } := by
      rw [ih rfl]
      simp [take, h]
    by_cases hc : c = '"'
    · -- the first of the two quotes takes the reader behind the field, the second one back into it
      subst hc
      have hdoubled : doubled ('"' :: cs) = '"' :: '"' :: doubled cs := by simp [doubled]
      rw [hdoubled]
      simpa [step, h, take] using htake
    · have hdoubled : doubled (c :: cs) = c :: doubled cs := by simp [doubled, hc]
      rw [hdoubled]
      simpa [step, h, hc] using htake

theorem step_of_plain {c : Char} (h : r.place = .start ∨ r.place = .plain)
    (hc : needsQuotes [c] = false) : r.step c = some (r.take .plain c) := by
  simp only [needsQuotes, List.any_cons, List.any_nil, Bool.or_false, Bool.or_eq_false_iff,
    beq_eq_false_iff_ne, ne_eq] at hc
  obtain ⟨⟨hcomma, hquote⟩, hnewline⟩ := hc
  rcases h with h | h <;> simp [step, h, unquoted, hcomma, hquote, hnewline]

/-- Without quotes a text that needs none is taken as it is. -/
theorem read_plain (h : r.place = .start ∨ r.place = .plain) (cs : List Char)
    (hcs : needsQuotes cs = false) :
    ∃ place, (place = .start ∨ place = .plain) ∧
      r.read cs = some { r with place, chars := r.chars ++ cs } := by
  induction cs generalizing r with
  | nil => exact ⟨r.place, h, by simp⟩
  | cons c cs ih =>
    have hsplit := needsQuotes_append [c] cs
    rw [List.singleton_append, hcs] at hsplit
    obtain ⟨hc, hcs⟩ := Bool.or_eq_false_iff.mp hsplit.symm
    obtain ⟨place, hplace, hread⟩ := ih (r := r.take .plain c) (.inr rfl) hcs
    refine ⟨place, hplace, ?_⟩
    rw [read_cons, step_of_plain h hc, Option.bind_some, hread]
    simp [take]

/-- **Reading a field that was written** takes its text, and leaves the reader where a comma or a
newline ends the field. -/
theorem read_field (fields : List String) (records : List (List String)) (s : String) :
    ∃ place, place ≠ .quoted ∧
      (before fields records).read (field s).toList = some ⟨place, s.toList, fields, records⟩ := by
  cases h : needsQuotes s.toList with
  | false =>
    obtain ⟨place, hplace, hread⟩ :=
      read_plain (r := before fields records) (.inl rfl) s.toList h
    refine ⟨place, ?_, ?_⟩
    · rintro rfl
      simp at hplace
    · rw [field_of_needsQuotes h, hread]
      rfl
  | true =>
    refine ⟨.behind, by simp, ?_⟩
    have hfield : (field s).toList = '"' :: (doubled s.toList ++ ['"']) := by simp [field, h]
    have hopen : (before fields records).step '"' = some ⟨.quoted, [], fields, records⟩ := rfl
    rw [hfield, read_cons, hopen, Option.bind_some, read_append, read_doubled rfl]
    rfl

theorem step_of_ends {c : Char} (hr : r.place ≠ .quoted) (hc : c = ',' ∨ c = '\n') :
    r.step c = some (r.unquoted c) := by
  obtain ⟨place, field, fields, records⟩ := r
  rcases hc with rfl | rfl <;> cases place <;> simp_all [step]

/-- A field and the character that ends it. -/
theorem read_field_ends {c : Char} (hc : c = ',' ∨ c = '\n') (fields : List String)
    (records : List (List String)) (s : String) (rest : List Char) :
    (before fields records).read ((field s).toList ++ c :: rest) =
      ((⟨.plain, s.toList, fields, records⟩ : Reader).unquoted c).read rest := by
  obtain ⟨place, hplace, hread⟩ := read_field fields records s
  rw [read_append, hread, Option.bind_some, read_cons, step_of_ends hplace hc, Option.bind_some]
  rcases hc with rfl | rfl <;> rfl

theorem readsFields : ReadsFields read before fun _ => True where
  nothing _ := rfl
  comma _ fields records rest := by
    rw [read_field_ends (.inl rfl)]
    simp [unquoted, endField]
  newline _ fields records rest := by
    rw [read_field_ends (.inr rfl)]
    simp [unquoted, endRecord]

end Reader

/-- Headings that need no quotes and records of fields make a table of what the fields hold. -/
theorem table_of_fields {α : Type} {hs : List String} (hhs : hs.map field = hs)
    {fields texts : α → List String} (h : ∀ x, fields x = (texts x).map field) (xs : List α) :
    record hs ++ String.join (xs.map fun x => record (fields x)) = table (hs :: xs.map texts) := by
  simp only [table, List.map_cons, List.map_map, String.join_cons, hhs, h, Function.comp_def]

/-- **A table is read back**: its records are the rows, in order, field by field. -/
theorem records?_table (rows : List (List String)) (h : ∀ fields ∈ rows, fields ≠ []) :
    records? (table rows) = some rows := by
  have hread := Reader.readsFields.table h (fun _ _ _ _ => trivial) []
  rw [records?, hread]
  simp [Reader.complete?, Reader.before]

example : table [["a,b", "say \"hi\""], ["", "two\nlines"]] =
    "\"a,b\",\"say \"\"hi\"\"\"\n,\"two\nlines\"\n" := by
  decide +kernel

/-! ### Fields that need no quotes -/

theorem needsQuotes_of_isNumeric {s : String} (h : Text.IsNumeric s) :
    needsQuotes s.toList = false := by
  rw [needsQuotes, List.any_eq_false]
  intro c hc
  have hnumeric := h c hc
  simp only [Bool.or_eq_true, beq_iff_eq]
  rintro ((rfl | rfl) | rfl) <;> exact absurd hnumeric (by decide)

theorem field_of_isNumeric {s : String} (h : Text.IsNumeric s) : field s = s :=
  field_of_needsQuotes (needsQuotes_of_isNumeric h)

theorem field_word (b : Boundary) : field b.word = b.word := by
  cases b <;> decide

/-! ### The texts of this library -/

/-- The texts of a row, before any of them is quoted. -/
def Row.texts (withSource : Bool) (r : Row) : List String :=
  let v := r.placed.visit
  [toString r.placed.width, toString v.depth, v.boundary.word, toString v.function,
      r.site.function, Decimal.fixed 6 v.sample.time.toFloat, toString v.sample.memory.toInt] ++
    if withSource then [r.site.file ++ ":" ++ toString r.site.line.toNat] else []

/-- The texts of the costs of a function, before any of them is quoted. -/
def costTexts (sites : Site.Table) (entry : Nat × Cost) : List String :=
  let (function, c) := entry
  [toString function, ((sites.site? function).toOption.map (·.function)).getD "",
    toString c.count, Decimal.fixed 6 c.time.toFloat, toString c.memory.toInt]

/-- The headings of the costs. -/
def costHeadings : List String :=
  ["function_id", "function", "calls", "total_time", "total_memory"]

theorem Row.fields_eq (withSource : Bool) (r : Row) :
    r.fields withSource = (r.texts withSource).map field := by
  cases withSource <;>
    simp only [Row.fields, Row.texts, List.map_append, List.map_cons, List.map_nil, field_word,
      field_of_isNumeric (Text.isNumeric_toString_nat _),
      field_of_isNumeric (Text.isNumeric_toString_int _),
      field_of_isNumeric (Text.isNumeric_fixed _ _), if_true, Bool.false_eq_true, if_false]

theorem costFields_eq (sites : Site.Table) (entry : Nat × Cost) :
    costFields sites entry = (costTexts sites entry).map field := by
  obtain ⟨function, c⟩ := entry
  simp only [costFields, costTexts, List.map_cons, List.map_nil,
    field_of_isNumeric (Text.isNumeric_toString_nat _),
    field_of_isNumeric (Text.isNumeric_toString_int _),
    field_of_isNumeric (Text.isNumeric_fixed _ _)]
  cases sites.site? function <;> rfl

theorem map_field_headings (withSource : Bool) :
    (headings withSource).map field = headings withSource := by
  cases withSource <;> decide

theorem map_field_costHeadings : costHeadings.map field = costHeadings := by
  decide

theorem text_eq_table (withSource : Bool) (rows : List Row) :
    text withSource rows = table (headings withSource :: rows.map (Row.texts withSource)) :=
  table_of_fields (map_field_headings withSource) (Row.fields_eq withSource) rows

theorem costs_eq_table (t : CostTable) (sites : Site.Table) :
    costs t sites = table (costHeadings :: t.sorted.map (costTexts sites)) :=
  table_of_fields map_field_costHeadings (costFields_eq sites) t.sorted

/-! ### Where a function is declared -/

/-- The file and the line of a text such as `a.py:3`; a file can have colons in its name. -/
def declared? (s : String) : Option (String × Nat) :=
  let back := s.toList.reverse
  match back.dropWhile (· ≠ ':') with
  | _ :: file =>
    (String.ofList (back.takeWhile (· ≠ ':')).reverse).toNat?.map (String.ofList file.reverse, ·)
  | [] => none

/-- Whatever the name of the file is, the last colon is that before the line. -/
theorem declared?_append (file : String) (line : Nat) :
    declared? (file ++ ":" ++ toString line) = some (file, line) := by
  have hline : ∀ c ∈ (toString line).toList.reverse, decide (c ≠ ':') = true := by
    intro c hc
    have hdigit := Text.isDigit_of_mem_toString (List.mem_reverse.mp hc)
    rw [decide_eq_true_eq]
    rintro rfl
    exact absurd hdigit (by decide)
  have hback : (file ++ ":" ++ toString line).toList.reverse =
      (toString line).toList.reverse ++ ':' :: file.toList.reverse := by simp
  rw [declared?, hback, List.dropWhile_append_of_pos hline, List.takeWhile_append_of_pos hline]
  simp [Nat.toNat?_repr, -Nat.toList_repr]

/-- **Rows and costs are read back** from their texts: the headings and one record for each row or
function, in order and with every field as it was, and the file and line of a function from the
last field of its row. -/
theorem records?_text (withSource : Bool) (rows : List Row) (t : CostTable) (sites : Site.Table) :
    records? (text withSource rows) =
        some (headings withSource :: rows.map (Row.texts withSource)) ∧
      (∀ fields ∈ headings withSource :: rows.map (Row.texts withSource),
        fields.length = if withSource then 8 else 7) ∧
      (∀ r : Row, (r.texts true)[7]?.bind declared? = some (r.site.file, r.site.line.toNat)) ∧
      records? (costs t sites) = some (costHeadings :: t.sorted.map (costTexts sites)) ∧
      ∀ fields ∈ costHeadings :: t.sorted.map (costTexts sites), fields.length = 5 := by
  have hrows : ∀ fields ∈ headings withSource :: rows.map (Row.texts withSource),
      fields.length = if withSource then 8 else 7 := by
    rw [List.forall_mem_cons, List.forall_mem_map]
    cases withSource <;> exact ⟨rfl, fun _ _ => rfl⟩
  have hcosts : ∀ fields ∈ costHeadings :: t.sorted.map (costTexts sites), fields.length = 5 := by
    rw [List.forall_mem_cons, List.forall_mem_map]
    exact ⟨rfl, fun _ _ => rfl⟩
  refine ⟨?_, hrows, fun r => declared?_append _ _, ?_, hcosts⟩
  · rw [text_eq_table, records?_table]
    intro fields hfields
    refine List.ne_nil_of_length_pos ?_
    rw [hrows fields hfields]
    cases withSource <;> decide
  · rw [costs_eq_table, records?_table]
    intro fields hfields
    refine List.ne_nil_of_length_pos ?_
    rw [hcosts fields hfields]
    decide

end Csv

end CallForest
