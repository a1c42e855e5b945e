import CallForest.Log.Reading
import CallForest.Proofs.Rows

/-!
# Logs read back

A log is written one line for each entry.  The characters of the entries that could end, hide or
shorten a line are escaped: no byte of an entry's text is that of a control character, its first
character is a brace, not a `#` or white space, and its last one is a brace too.  So the lines of
the log are the texts of the entries, and each gives its entry back.

* `Log.not_mem_octets`: a text on one line has no byte of a control character;
* `Log.lines_flatMap`: lines that hold no line end are told apart;
* `LogEntry.ofLine_compact`: the text of an entry is read as that entry;
* `Log.items_text`: a log of entries gives the entries.
-/

namespace CallForest

namespace Log

/-! ### Bytes -/

/-- The bytes of a text. -/
def octets (s : String) : List UInt8 := s.toUTF8.toList

theorem toList_loop (bytes : ByteArray) (before : List UInt8) (i : Nat) :
    ByteArray.toList.loop bytes i before = before.reverse ++ bytes.data.toList.drop i := by
  rw [ByteArray.toList.loop]
  split
  · rename_i hi
    have hdrop : bytes.data.toList.drop i = bytes.get! i :: bytes.data.toList.drop (i + 1) := by
      rw [← List.getElem_cons_drop (show i < bytes.data.toList.length from hi)]
      simp [ByteArray.get!, hi]
    rw [toList_loop bytes (bytes.get! i :: before) (i + 1), hdrop]
    simp
  · rename_i hi
    rw [List.drop_eq_nil_of_le (show bytes.data.toList.length ≤ i from Nat.le_of_not_lt hi),
      List.append_nil]
termination_by bytes.size - i

theorem octets_eq (s : String) : octets s = s.toList.flatMap String.utf8EncodeChar := by
  have hdata : s.toUTF8.toList = s.toUTF8.data.toList := by
    simp [ByteArray.toList, toList_loop]
  rw [octets, hdata, String.toUTF8_eq_toByteArray, ← String.utf8Encode_toList, List.utf8Encode,
    List.data_toByteArray]

theorem octets_append (s t : String) : octets (s ++ t) = octets s ++ octets t := by
  simp [octets_eq]

theorem octets_newline : octets "\n" = [newline] := by
  rw [octets_eq]
  rfl

/-- A text is decoded from its bytes. -/
theorem decode?_octets (s : String) : decode? (octets s) = some s.toList := by
  have hbytes : (⟨(octets s).toArray⟩ : ByteArray) = s.toByteArray := by
    rw [octets_eq, ← String.utf8Encode_toList, List.utf8Encode]
    exact ByteArray.ext (by simp [List.data_toByteArray])
  have hdecoded : String.fromUTF8? s.toByteArray = some s := dif_pos s.isValidUTF8
  rw [decode?, hbytes, hdecoded, Option.map_some]

/-- A byte of the first half stands for the character with its number only. -/
theorem toNat_of_mem_utf8EncodeChar {c : Char} {b : UInt8} (h : b ∈ String.utf8EncodeChar c)
    (hb : b < 128) : c.toNat = b.toNat := by
  have hsmall : b.toNat < 128 := hb
  suffices heq : c.val.toNat = b.toNat from heq
  unfold String.utf8EncodeChar at h
  dsimp only at h
  -- only the first of the four forms has a byte below 128
  repeat' split at h
  all_goals
    simp only [List.mem_cons, List.not_mem_nil, or_false] at h
    rcases h with rfl | rfl | rfl | rfl
    all_goals
      rw [UInt8.toNat_ofNat'] at hsmall ⊢
      omega

theorem not_mem_octets {s : String} (h : Json.OnOneLine s) {b : UInt8} (hb : b < 32) :
    b ∉ octets s := by
  rw [octets_eq, List.mem_flatMap]
  rintro ⟨c, hc, hmem⟩
  have hcontrol : c.toNat < 32 :=
    toNat_of_mem_utf8EncodeChar hmem (UInt8.lt_trans hb (by decide)) ▸ hb
  exact Char.not_lt.mpr (h c hc) hcontrol

/-! ### Lines -/

theorem linesFrom_append {line : List UInt8} (h : newline ∉ line) (done : List (List UInt8))
    (current rest : List UInt8) :
    linesFrom done current (line ++ newline :: rest) =
      linesFrom ((dropReturn (line.reverse ++ current)).reverse :: done) [] rest := by
  induction line generalizing current with
  | nil => simp [linesFrom]
  | cons b line ih =>
    obtain ⟨hb, hline⟩ : newline ≠ b ∧ newline ∉ line := by simpa using h
    rw [List.cons_append, linesFrom, if_neg (Ne.symm hb), ih hline]
    simp

theorem dropReturn_of_not_mem {line : List UInt8} (h : carriageReturn ∉ line) :
    dropReturn line = line := by
  cases line with
  | nil => rfl
  | cons b line =>
    rw [dropReturn, if_neg]
    rintro rfl
    exact h List.mem_cons_self

theorem linesFrom_flatMap (done : List (List UInt8)) {ls : List (List UInt8)}
    (h : ∀ line ∈ ls, newline ∉ line ∧ carriageReturn ∉ line) :
    linesFrom done [] (ls.flatMap (· ++ [newline])) = done.reverse ++ ls := by
  induction ls generalizing done with
  | nil => simp [linesFrom]
  | cons line ls ih =>
    obtain ⟨⟨hnewline, hreturn⟩, hls⟩ := List.forall_mem_cons.mp h
    rw [List.flatMap_cons, List.append_assoc, List.singleton_append, linesFrom_append hnewline,
      List.append_nil, dropReturn_of_not_mem (by simpa using hreturn), List.reverse_reverse,
      ih _ hls]
    simp

/-- Lines without an end in them are told apart. -/
theorem lines_flatMap {ls : List (List UInt8)}
    (h : ∀ line ∈ ls, newline ∉ line ∧ carriageReturn ∉ line) :
    lines (ls.flatMap (· ++ [newline])) = ls :=
  linesFrom_flatMap [] h

theorem count_flatMap {ls : List (List UInt8)} (h : ∀ line ∈ ls, newline ∉ line) :
    (ls.flatMap (· ++ [newline])).count newline = ls.length := by
  induction ls with
  | nil => rfl
  | cons line ls ih =>
    obtain ⟨hline, hls⟩ := List.forall_mem_cons.mp h
    rw [List.flatMap_cons, List.count_append, List.count_append, ih hls,
      List.count_eq_zero_of_not_mem hline, List.count_singleton_self, List.length_cons]
    omega

end Log

/-! ### Entries -/

namespace LogEntry

/-- The text of an entry, without the end of its line. -/
def compact (e : LogEntry) : String := e.toValue.compact

theorem parse_compact {e : LogEntry} (h : Json.ReadsBack e.sample.time) :
    parse e.compact.toList = .ok e := by
  have hrow : Json.Row.ReadsBack schema.fields e.toRow :=
    ⟨trivial, trivial, trivial, trivial, h, trivial, trivial⟩
  rw [parse, compact, toValue, schema.parse_compact (by decide) hrow]
  rfl

theorem exists_toList_compact (e : LogEntry) :
    ∃ cs, e.compact.toList = '\x7b' :: (cs ++ ['\x7d']) := by
  rw [compact, toValue, Json.Schema.toValue, Json.Value.compact]
  exact ⟨_, by simp; rfl⟩

theorem trim_compact (e : LogEntry) : Text.trim e.compact.toList = e.compact.toList := by
  obtain ⟨cs, hcs⟩ := exists_toList_compact e
  rw [hcs, Text.trim, List.dropWhile_cons_of_neg (by decide), List.reverse_cons,
    List.reverse_append, List.reverse_singleton, List.singleton_append, List.cons_append,
    List.dropWhile_cons_of_neg (by decide)]
  simp

/-- **The text of an entry** is read as that entry, whatever strings it has. -/
theorem ofLine_compact {e : LogEntry} (h : Json.ReadsBack e.sample.time) (number : Nat) :
    ofLine number e.compact.toList = .ok (some e) := by
  have hparse := parse_compact h
  obtain ⟨cs, hcs⟩ := exists_toList_compact e
  rw [ofLine, Log.Reader.ofLine, trim_compact]
  rw [hcs] at hparse ⊢
  simp [Log.json, hparse]

end LogEntry

namespace Log

theorem octets_text (entries : List LogEntry) :
    octets (text entries) =
      (entries.map fun e => octets e.compact).flatMap (· ++ [newline]) := by
  induction entries with
  | nil => simp [text, octets_eq]
  | cons e entries ih =>
    have hline : octets e.line = octets e.compact ++ [newline] := by
      rw [← octets_newline, ← octets_append]
      rfl
    rw [text, List.map_cons, String.join_cons, octets_append, hline, ← text, ih]
    rfl

theorem itemsFrom_octets {entries : List LogEntry}
    (h : ∀ e ∈ entries, Json.ReadsBack e.sample.time) (number : Nat) :
    json.itemsFrom number (entries.map fun e => octets e.compact) = entries.map .ok := by
  induction entries generalizing number with
  | nil => rfl
  | cons e entries ih =>
    obtain ⟨he, hentries⟩ := List.forall_mem_cons.mp h
    have hline : json.ofLine (number + 1) e.compact.toList = .ok (some e) :=
      LogEntry.ofLine_compact he (number + 1)
    simp only [List.map_cons, Reader.itemsFrom, decode?_octets, hline, ih hentries]

/-- **A log of entries gives the entries**, in order and without a fault, and has as many lines as
there are entries, if their times are finite and read back. -/
theorem items_text {entries : List LogEntry}
    (hfinite : ∀ e ∈ entries, e.sample.time.isFinite = true)
    (hreads : ∀ e ∈ entries, e.sample.time.isFinite = true → Json.ReadsBack e.sample.time) :
    (octets (text entries)).count newline = entries.length ∧
      lines (octets (text entries)) = entries.map (fun e => octets e.compact) ∧
      items (text entries).toUTF8 = entries.map .ok := by
  have hclean : ∀ line ∈ entries.map (fun e => octets e.compact),
      newline ∉ line ∧ carriageReturn ∉ line :=
    List.forall_mem_map.mpr fun e _ =>
      ⟨not_mem_octets (Json.Value.onOneLine_compact _) (by decide),
        not_mem_octets (Json.Value.onOneLine_compact _) (by decide)⟩
  have hlines : lines (octets (text entries)) = entries.map fun e => octets e.compact := by
    rw [octets_text]
    exact lines_flatMap hclean
  refine ⟨?_, hlines, ?_⟩
  · rw [octets_text, count_flatMap fun line hline => (hclean line hline).1, List.length_map]
  · rw [items, Reader.items]
    exact hlines ▸ itemsFrom_octets (fun e he => hreads e he (hfinite e he)) 0

/-- Entries whose strings look like ends of lines, comments, blanks and ends of strings. -/
def awkward : List LogEntry :=
  [⟨" # call\n", ⟨"\r\n\u3000\t", "say \"hi\" \\n\x00", 4294967295⟩,
      ⟨⟨0x3fb999999999999a⟩, Int64.minValue⟩⟩,
    ⟨"#", ⟨"", "\u2028α\x7f", 0⟩, ⟨⟨0x8000000000000000⟩, 7⟩⟩]

theorem items_awkward :
    (∀ e ∈ awkward, e.sample.time.isFinite = true) ∧
      (∀ e ∈ awkward, e.sample.time.isFinite = true → Json.ReadsBack e.sample.time) ∧
      (octets (text awkward)).count newline = 2 ∧
      lines (octets (text awkward)) = awkward.map (fun e => octets e.compact) ∧
      items (text awkward).toUTF8 = awkward.map .ok := by
  have hfinite : ∀ e ∈ awkward, e.sample.time.isFinite = true := by decide
  have hreads : ∀ e ∈ awkward, e.sample.time.isFinite = true → Json.ReadsBack e.sample.time := by
    rintro e he -
    simp only [awkward, List.mem_cons, List.not_mem_nil, or_false] at he
    rcases he with rfl | rfl <;> unfold Json.ReadsBack <;> decide +kernel
  exact ⟨hfinite, hreads, items_text hfinite hreads⟩

end Log

end CallForest
