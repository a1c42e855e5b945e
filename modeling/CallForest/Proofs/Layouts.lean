import CallForest.Proofs.Entries
import CallForest.Proofs.LineNumbers
import Mathlib.Algebra.GroupWithZero.Nat

/-!
# Layouts of a log

The same entries can be laid out in many ways: with blank lines and comments between them, with
white space around them, with one end of line or the other, and with or without an end of the last
line.  What is read is the same, and only the numbers of malformed lines are moved.

* `Log.Spelled`, `Log.exists_spelled`: a text and its lines, whatever ends them;
* `Log.Reader.itemsFrom_spelled`: a text gives the items of its lines;
* `Log.Reader.itemsFrom_relaid`: lines without entries and white space around lines give no items;
* `Log.items_relaid`: two layouts of the same lines, and one log after another.
-/

namespace CallForest

/-! ### White space -/

namespace Text

theorem trim_blank_append {bs : List Char} (h : ∀ c ∈ bs, isBlank c = true) (cs : List Char) :
    trim (bs ++ cs) = trim cs := by
  rw [trim, List.dropWhile_append_of_pos h, trim]

theorem trim_append_blank {bs : List Char} (h : ∀ c ∈ bs, isBlank c = true) (cs : List Char) :
    trim (cs ++ bs) = trim cs := by
  rw [trim, trim, List.dropWhile_append]
  by_cases hcs : (cs.dropWhile isBlank).isEmpty = true
  · rw [if_pos hcs, List.isEmpty_iff.1 hcs, List.dropWhile_eq_nil_iff.2 h]
  · rw [if_neg hcs, List.reverse_append,
      List.dropWhile_append_of_pos fun c hc => h c (List.mem_reverse.1 hc)]

theorem exists_trim_cons {c : Char} (h : isBlank c = false) (cs : List Char) :
    ∃ cs', trim (c :: cs) = c :: cs' := by
  have hc : ¬ isBlank c = true := by simp [h]
  rw [trim, List.dropWhile_cons_of_neg hc, List.reverse_cons, List.dropWhile_append,
    List.dropWhile_cons_of_neg hc]
  split
  · exact ⟨[], rfl⟩
  · exact ⟨_, List.reverse_concat⟩

end Text

namespace Log

/-- White space only. -/
def White (s : String) : Prop := ∀ c ∈ s.toList, Text.isBlank c = true

instance (s : String) : Decidable (White s) := List.decidableBAll _ s.toList

/-- A line without an entry: white space, and then nothing or a comment, which starts with `#`. -/
def Vacant (line : String) : Prop :=
  ∃ blanks rest, line.toList = blanks ++ rest ∧ (∀ c ∈ blanks, Text.isBlank c = true) ∧
    (rest = [] ∨ rest.head? = some '#')

theorem White.vacant {line : String} (h : White line) : Vacant line :=
  ⟨line.toList, [], (List.append_nil _).symm, h, .inl rfl⟩

theorem Vacant.blank_or_comment {line : String} (h : Vacant line) :
    Blank line.toList ∨ Comment line.toList := by
  obtain ⟨blanks, rest, hline, hblanks, hrest⟩ := h
  rw [Blank, Comment, hline, Text.trim_blank_append hblanks]
  rcases hrest with rfl | hrest
  · exact .inl rfl
  · obtain ⟨cs, rfl⟩ := List.head?_eq_some_iff.1 hrest
    obtain ⟨cs', hcs⟩ := Text.exists_trim_cons (c := '#') (by decide) cs
    exact .inr (by rw [hcs]; rfl)

/-! ### The item of a line -/

section

variable (r : Reader)

theorem Reader.ofLine_congr {cs cs' : List Char} (h : Text.trim cs = Text.trim cs')
    (number : Nat) : r.ofLine number cs = r.ofLine number cs' := by
  rw [ofLine, ofLine, h]

theorem Reader.item?_congr {s t : String} (h : Text.trim s.toList = Text.trim t.toList)
    (number : Nat) : r.item? number (octets s) = r.item? number (octets t) := by
  rw [item?, item?, decode?_octets, decode?_octets]
  dsimp only
  rw [r.ofLine_congr h]

theorem Reader.item?_vacant {line : String} (h : Vacant line) (number : Nat) :
    r.item? number (octets line) = none := by
  rw [item?, decode?_octets]
  dsimp only
  rw [Reader.ofLine_of_empty h.blank_or_comment]

/-- The item, if its line stood `k` lines further down. -/
def moved (k : Nat) : Item → Item
  | .error (.malformedLine number reason) => .error (.malformedLine (number + k) reason)
  | item => item

theorem Reader.item?_add (number k : Nat) (line : List UInt8) :
    r.item? (number + k) line = (r.item? number line).map (moved k) := by
  rw [item?, item?]
  cases decode? line with
  | none => rfl
  | some text =>
    dsimp only
    rw [ofLine, ofLine]
    cases Text.trim text with
    | nil => rfl
    | cons c cs =>
      dsimp only
      by_cases hc : c = '#'
      · rw [if_pos hc, if_pos hc]
        rfl
      · rw [if_neg hc, if_neg hc]
        cases r.read (c :: cs) <;> rfl

theorem Reader.itemsFrom_add (number k : Nat) (ls : List (List UInt8)) :
    r.itemsFrom (number + k) ls = (r.itemsFrom number ls).map (moved k) := by
  induction ls generalizing number with
  | nil => rfl
  | cons line ls ih =>
    rw [itemsFrom_cons, itemsFrom_cons, Nat.add_right_comm, item?_add, Nat.add_right_comm, ih,
      List.map_append]
    cases r.item? (number + 1) line <;> rfl

end

theorem counted_octets (ls : List String) : counted (ls.map octets) = ls.length := by
  rw [counted, List.countP_map, List.countP_eq_length.2]
  intro line _
  rw [Function.comp, decode?_octets]
  rfl

/-! ### Texts and their lines -/

/-- The text is made of these lines.  Each is ended by a newline, with or without a carriage return
before it; the last one need not be ended. -/
inductive Spelled : List String → String → Prop
  | nil : Spelled [] ""
  | last {line : String} (oneLine : '\n' ∉ line.toList) : Spelled [line] line
  | cons {line lineEnd : String} {ls : List String} {s : String} (oneLine : '\n' ∉ line.toList)
      (ended : lineEnd = "\n" ∨ lineEnd = "\r\n") (rest : Spelled ls s) :
      Spelled (line :: ls) (line ++ lineEnd ++ s)

theorem newline_not_mem_octets {s : String} (h : '\n' ∉ s.toList) : newline ∉ octets s := by
  rw [octets_eq, List.mem_flatMap]
  rintro ⟨c, hc, hmem⟩
  have hnumber : c.toNat = '\n'.toNat := toNat_of_mem_utf8EncodeChar hmem (by decide)
  exact h (Char.toNat_inj.1 hnumber ▸ hc)

theorem white_of_octets {line : String} (h : octets line = []) : White line := by
  have hline : some line.toList = some [] := by
    rw [← decode?_octets, h]
    rfl
  intro c hc
  rw [Option.some.inj hline] at hc
  cases hc

theorem lines_of_not_mem {line : List UInt8} (h : newline ∉ line) :
    lines line = if line.isEmpty then [] else [line] := by
  -- for any beginning of the line, since that is what grows while the line is read
  have hfrom : ∀ current, linesFrom [] current line =
      if (line.reverse ++ current).isEmpty then [] else [(line.reverse ++ current).reverse] := by
    induction line with
    | nil => intro current; simp [linesFrom]
    | cons b line ih =>
      obtain ⟨hb, hline⟩ : newline ≠ b ∧ newline ∉ line := by simpa using h
      intro current
      rw [linesFrom, if_neg (Ne.symm hb), ih hline]
      simp
  rw [lines, hfrom]
  simp

theorem dropReturn_append {bs : List UInt8} (hne : bs ≠ []) (h : carriageReturn ∉ bs)
    (rest : List UInt8) : dropReturn (bs ++ rest) = bs ++ rest := by
  obtain ⟨b, bs, rfl⟩ := List.exists_cons_of_ne_nil hne
  rw [List.cons_append, dropReturn, if_neg]
  rintro rfl
  exact h List.mem_cons_self

/-- Without a carriage return at its end a line is still a text, and one that differs in white space
only. -/
theorem exists_octets_dropReturn (s : String) :
    ∃ t : String, (dropReturn (octets s).reverse).reverse = octets t ∧
      Text.trim t.toList = Text.trim s.toList := by
  rcases List.eq_nil_or_concat' s.toList with h | ⟨cs, c, h⟩
  · refine ⟨s, ?_, rfl⟩
    rw [octets_eq, h]
    rfl
  · have hoctets : octets s = octets (String.ofList cs) ++ String.utf8EncodeChar c := by
      rw [octets_eq, octets_eq, h, String.toList_ofList, List.flatMap_append,
        List.flatMap_singleton]
    by_cases hc : c = '\r'
    · refine ⟨String.ofList cs, ?_, ?_⟩
      · rw [hoctets, hc, List.reverse_append]
        exact List.reverse_reverse _
      · have hblank : ∀ c ∈ ['\r'], Text.isBlank c = true := List.forall_mem_singleton.2 (by decide)
        rw [h, hc, String.toList_ofList, Text.trim_append_blank hblank]
    · -- no other character has the byte of a carriage return, so nothing is dropped
      refine ⟨s, ?_, rfl⟩
      have hreturn : carriageReturn ∉ String.utf8EncodeChar c := by
        intro hmem
        have hnumber : c.toNat = '\r'.toNat := toNat_of_mem_utf8EncodeChar hmem (by decide)
        exact hc (Char.toNat_inj.1 hnumber)
      rw [hoctets, List.reverse_append, dropReturn_append, List.reverse_append,
        List.reverse_reverse, List.reverse_reverse]
      · exact List.reverse_ne_nil_iff.2 String.utf8EncodeChar_ne_nil
      · exact fun hmem => hreturn (List.mem_reverse.1 hmem)

theorem exists_lines_ended {line lineEnd : String} (oneLine : '\n' ∉ line.toList)
    (ended : lineEnd = "\n" ∨ lineEnd = "\r\n") (s : String) :
    ∃ t : String, Text.trim t.toList = Text.trim line.toList ∧
      lines (octets (line ++ lineEnd ++ s)) = octets t :: lines (octets s) := by
  obtain ⟨u, hu, hwhite, hnewline⟩ :
      ∃ u : String, lineEnd = u ++ "\n" ∧ White u ∧ '\n' ∉ u.toList := by
    rcases ended with rfl | rfl
    · exact ⟨"", rfl, by decide, by decide⟩
    · exact ⟨"\r", rfl, by decide, by decide⟩
  obtain ⟨t, hoctets, htrim⟩ := exists_octets_dropReturn (line ++ u)
  refine ⟨t, ?_, ?_⟩
  · rw [htrim, String.toList_append, Text.trim_append_blank hwhite]
  · have hbytes : octets (line ++ lineEnd ++ s) = octets (line ++ u) ++ newline :: octets s := by
      rw [hu, ← String.append_assoc, octets_append, octets_append _ "\n", octets_newline,
        List.append_assoc]
      rfl
    have hline : newline ∉ octets (line ++ u) := by
      apply newline_not_mem_octets
      rw [String.toList_append, List.mem_append]
      exact not_or.2 ⟨oneLine, hnewline⟩
    rw [hbytes, lines, linesFrom_append hline, List.append_nil, hoctets, linesFrom_done]
    rfl

/-- **A text gives the items of its lines**, whatever ends them. -/
theorem Reader.itemsFrom_spelled (r : Reader) {ls : List String} {s : String} (h : Spelled ls s)
    (number : Nat) : r.itemsFrom number (lines (octets s)) = r.itemsFrom number (ls.map octets) := by
  induction h generalizing number with
  | nil => rw [octets_eq]; rfl
  | @last line oneLine =>
    rw [lines_of_not_mem (newline_not_mem_octets oneLine), List.map_singleton]
    -- an empty last line is no line for the reader, and one without an item here
    by_cases hempty : (octets line).isEmpty = true
    · have hwhite : White line := white_of_octets (List.isEmpty_iff.1 hempty)
      rw [if_pos hempty, itemsFrom_cons, r.item?_vacant hwhite.vacant]
      rfl
    · rw [if_neg hempty]
  | @cons line lineEnd ls s oneLine ended rest ih =>
    obtain ⟨t, htrim, hlines⟩ := exists_lines_ended oneLine ended s
    have hcounted : counted [octets t] = counted [octets line] :=
      (counted_octets [t]).trans (counted_octets [line]).symm
    rw [hlines, List.map_cons, itemsFrom_cons, itemsFrom_cons, r.item?_congr htrim, hcounted, ih]

theorem Spelled.push {c : Char} (hc : c ≠ '\n') {line : String} {ls : List String} {s : String}
    (h : Spelled (line :: ls) s) :
    Spelled ((String.singleton c ++ line) :: ls) (String.singleton c ++ s) := by
  have hline : ∀ {line : String}, '\n' ∉ line.toList →
      '\n' ∉ (String.singleton c ++ line).toList := by
    intro line oneLine
    rw [String.toList_append, String.toList_singleton, List.mem_append, List.mem_singleton]
    exact not_or.2 ⟨Ne.symm hc, oneLine⟩
  cases h with
  | last oneLine => exact .last (hline oneLine)
  | cons oneLine ended rest =>
    rw [← String.append_assoc, ← String.append_assoc]
    exact .cons (hline oneLine) ended rest

/-- A text in front of another one has one line more than newlines, the last of which goes on in
the other text. -/
theorem exists_spelled_append (front : String) :
    ∃ line ls, ls.length = front.toList.count '\n' ∧
      ∀ {ls' s}, Spelled ("" :: ls') s → Spelled (line :: ls ++ ls') (front ++ s) := by
  rw [← String.ofList_toList (s := front), String.toList_ofList]
  induction front.toList with
  | nil =>
    refine ⟨"", [], rfl, ?_⟩
    intro ls' s h
    simpa using h
  | cons c cs ih =>
    obtain ⟨line, ls, hlength, hspelled⟩ := ih
    rw [String.ofList_cons]
    by_cases hc : c = '\n'
    · refine ⟨"", line :: ls, ?_, ?_⟩
      · rw [List.length_cons, hlength, hc, List.count_cons_self]
      · intro ls' s h
        have hfront : Spelled ("" :: (line :: ls ++ ls')) ("" ++ "\n" ++ (String.ofList cs ++ s)) :=
          .cons (by decide) (.inl rfl) (hspelled h)
        simpa [hc, String.append_assoc] using hfront
    · refine ⟨String.singleton c ++ line, ls, ?_, ?_⟩
      · rw [hlength, List.count_cons_of_ne hc]
      · intro ls' s h
        rw [String.append_assoc]
        exact (hspelled h).push hc

theorem exists_spelled (s : String) : ∃ ls, Spelled ls s := by
  obtain ⟨line, ls, -, hspelled⟩ := exists_spelled_append s
  have hlast : Spelled [""] "" := .last (by decide)
  have h := hspelled hlast
  rw [String.append_empty] at h
  exact ⟨_, h⟩

/-- What is behind a newline begins a line. -/
theorem exists_spelled_newline (front : String) :
    ∃ ls : List String, ls.length = (front ++ "\n").toList.count '\n' ∧
      ∀ {ls' s}, Spelled ls' s → Spelled (ls ++ ls') (front ++ "\n" ++ s) := by
  obtain ⟨line, ls, hlength, hspelled⟩ := exists_spelled_append front
  refine ⟨line :: ls, ?_, ?_⟩
  · rw [List.length_cons, hlength, String.toList_append, List.count_append]
    rfl
  · intro ls' s h
    rw [String.append_assoc]
    apply hspelled
    have hnewline : Spelled ("" :: ls') ("" ++ "\n" ++ s) := .cons (by decide) (.inl rfl) h
    rwa [String.empty_append] at hnewline

/-! ### Other layouts -/

/-- A line in another layout: lines without an entry stand before it and white space around it. -/
structure Relaid where
  line : String
  /-- The lines put before the line. -/
  before : List String
  /-- The white space on the left of the line. -/
  left : String
  /-- The white space on the right of the line. -/
  right : String
  vacant_before : ∀ l ∈ before, Vacant l
  white_left : White left
  white_right : White right

/-- The lines in place of the line. -/
def Relaid.lines (r : Relaid) : List String := r.before ++ [r.left ++ r.line ++ r.right]

/-- The number of lines put before line `place`, which counts from `1`. -/
def inserted (ls : List Relaid) (place : Nat) : Nat :=
  ((ls.take place).map fun r => r.before.length).sum

theorem Reader.itemsFrom_vacant (r : Reader) {ls : List String} (h : ∀ l ∈ ls, Vacant l)
    (number : Nat) : r.itemsFrom number (ls.map octets) = [] := by
  induction ls generalizing number with
  | nil => rfl
  | cons line ls ih =>
    obtain ⟨hline, hls⟩ := List.forall_mem_cons.1 h
    rw [List.map_cons, itemsFrom_cons, r.item?_vacant hline, ih hls]
    rfl

theorem Reader.itemsFrom_relaid_line (r : Reader) (relaid : Relaid) (number : Nat) :
    r.itemsFrom number (relaid.lines.map octets) =
      (r.item? (number + relaid.before.length + 1) (octets relaid.line)).toList := by
  have htrim : Text.trim (relaid.left ++ relaid.line ++ relaid.right).toList =
      Text.trim relaid.line.toList := by
    rw [String.toList_append, Text.trim_append_blank relaid.white_right, String.toList_append,
      Text.trim_blank_append relaid.white_left]
  rw [Relaid.lines, List.map_append, itemsFrom_append, r.itemsFrom_vacant relaid.vacant_before,
    counted_octets, List.nil_append, List.map_singleton, itemsFrom_cons, r.item?_congr htrim,
    itemsFrom, List.append_nil]

theorem length_flatMap_lines (ls : List Relaid) :
    (ls.flatMap Relaid.lines).length = ls.length + inserted ls ls.length := by
  rw [inserted, List.take_length, List.length_flatMap]
  induction ls with
  | nil => rfl
  | cons r ls ih =>
    simp only [List.map_cons, List.sum_cons, List.length_cons, Relaid.lines, List.length_append,
      List.length_nil] at ih ⊢
    omega

theorem inserted_before (ls : List Relaid) (r : Relaid) (after : List Relaid) :
    inserted (ls ++ r :: after) (ls.length + 1) = inserted ls ls.length + r.before.length := by
  have htake : (ls ++ r :: after).take (ls.length + 1) = ls ++ [r] := by
    rw [List.take_append, List.take_of_length_le (Nat.le_succ _), Nat.add_sub_cancel_left]
    rfl
  rw [inserted, inserted, htake, List.take_length, List.map_append, List.sum_append]
  rfl

/-- **Lines in another layout give the same items**, the numbers of malformed lines moved by the
lines put before them. -/
theorem Reader.itemsFrom_relaid (r : Reader) (ls after : List Relaid) :
    r.itemsFrom 0 ((ls.flatMap Relaid.lines).map octets) =
      (r.located ((ls.map Relaid.line).map octets)).map fun p =>
        moved (inserted (ls ++ after) p.1) p.2 := by
  -- the lines that follow are kept, so that the moves of the lines so far stay the same
  induction ls using List.reverseRecOn generalizing after with
  | nil => rfl
  | append_singleton ls l ih =>
    have hnumber : 0 + (ls.flatMap Relaid.lines).length + l.before.length + 1 =
        ls.length + 1 + inserted (ls ++ l :: after) (ls.length + 1) := by
      -- the place of `l` in the new layout is its old one, moved by all lines put before it
      rw [length_flatMap_lines, inserted_before]
      omega
    rw [List.flatMap_append, List.flatMap_singleton, List.map_append, itemsFrom_append,
      ih (l :: after), counted_octets, itemsFrom_relaid_line, hnumber, item?_add, List.map_append,
      List.map_append, List.map_singleton, List.map_singleton, located_concat, counted_octets,
      List.map_append, List.append_assoc, List.length_map, List.length_map]
    cases r.item? (ls.length + 1) (octets l.line) <;> rfl

/-- **The layout of a log does not matter**, whatever reads the text of a record.  Every text is
made of some lines.  Any text of these lines in another layout gives the same items, in which the
number of a malformed line is moved by the lines put before that line, and nothing else is changed.
A text in front, up to a newline, gives its items first and moves the others by its newlines. -/
theorem items_relaid (r : Reader) :
    (∀ s, ∃ ls, Spelled ls s) ∧
    (∀ (ls : List Relaid) (after : List String) (s s' : String),
      (∀ l ∈ after, Vacant l) →
      Spelled (ls.map Relaid.line) s → Spelled (ls.flatMap Relaid.lines ++ after) s' →
      let found := r.located ((ls.map Relaid.line).map octets)
      r.items s.toUTF8 = found.map Prod.snd ∧
        r.items s'.toUTF8 = found.map fun p => moved (inserted ls p.1) p.2) ∧
    ∀ front back : String, r.items (front ++ "\n" ++ back).toUTF8 =
      r.items (front ++ "\n").toUTF8 ++
        (r.items back.toUTF8).map (moved ((front ++ "\n").toList.count '\n')) := by
  refine ⟨exists_spelled, ?_, ?_⟩
  · intro ls after s s' hafter hs hs' found
    refine ⟨?_, ?_⟩
    · rw [Reader.map_snd_located]
      exact r.itemsFrom_spelled hs 0
    · have hitems : r.items s'.toUTF8 =
          r.itemsFrom 0 ((ls.flatMap Relaid.lines ++ after).map octets) :=
        r.itemsFrom_spelled hs' 0
      rw [hitems, List.map_append, Reader.itemsFrom_append, r.itemsFrom_vacant hafter,
        List.append_nil, r.itemsFrom_relaid ls [], List.append_nil]
  · intro front back
    obtain ⟨ls, hlength, hspelled⟩ := exists_spelled_newline front
    obtain ⟨ls', hback⟩ := exists_spelled back
    have hfront := hspelled .nil
    rw [String.append_empty, List.append_nil] at hfront
    calc r.items (front ++ "\n" ++ back).toUTF8
        = r.itemsFrom 0 ((ls ++ ls').map octets) := r.itemsFrom_spelled (hspelled hback) 0
      _ = r.itemsFrom 0 (ls.map octets) ++ r.itemsFrom (0 + ls.length) (ls'.map octets) := by
          rw [List.map_append, Reader.itemsFrom_append, counted_octets]
      _ = r.items (front ++ "\n").toUTF8 ++ (r.items back.toUTF8).map (moved ls.length) := by
          rw [Reader.itemsFrom_add, ← r.itemsFrom_spelled hfront, ← r.itemsFrom_spelled hback]
          rfl
      _ = _ := by rw [hlength]

/-- The line of a call. -/
def callLine : String :=
  "\x7b\"event\":\"call\",\"file\":\"f\",\"function\":\"g\",\"line\":1,\"time\":0,\"memory\":0\x7d"

/-- The call and a line that is no record, the second one behind an empty line and a comment. -/
def spread : List Relaid :=
  [⟨callLine, [], "\t", "", fun _ hl => absurd hl List.not_mem_nil, by decide, by decide⟩,
    ⟨"x", ["", "\u2003# note"], "\u3000", " ",
      List.forall_mem_cons.2 ⟨White.vacant (by decide), List.forall_mem_singleton.2
        ⟨['\u2003'], "# note".toList, rfl, List.forall_mem_singleton.2 (by decide), .inr rfl⟩⟩,
      by decide, by decide⟩]

theorem items_relaid_spread :
    (∀ l ∈ ["\u2028"], Vacant l) ∧
      Spelled (spread.map Relaid.line) (callLine ++ "\nx\n") ∧
      Spelled (spread.flatMap Relaid.lines ++ ["\u2028"])
        ("\t" ++ callLine ++ "\r\n\r\n\u2003# note\n\u3000x \r\n\u2028") ∧
      items (callLine ++ "\nx\n").toUTF8 =
        [.ok ⟨"call", ⟨"f", "g", 1⟩, ⟨⟨0⟩, 0⟩⟩,
          .error (.malformedLine 2 "expected value at line 1 column 1")] ∧
      items ("\t" ++ callLine ++ "\r\n\r\n\u2003# note\n\u3000x \r\n\u2028").toUTF8 =
        [.ok ⟨"call", ⟨"f", "g", 1⟩, ⟨⟨0⟩, 0⟩⟩,
          .error (.malformedLine 4 "expected value at line 1 column 1")] := by
  have hafter : ∀ l ∈ ["\u2028"], Vacant l :=
    List.forall_mem_singleton.2 (White.vacant (by decide))
  have hplain : Spelled (spread.map Relaid.line) (callLine ++ "\nx\n") :=
    .cons (by decide) (.inl rfl) (.cons (by decide) (.inl rfl) .nil)
  have hspread : Spelled (spread.flatMap Relaid.lines ++ ["\u2028"])
      ("\t" ++ callLine ++ "\r\n\r\n\u2003# note\n\u3000x \r\n\u2028") :=
    .cons (by decide) (.inr rfl) (.cons (by decide) (.inr rfl) (.cons (by decide) (.inl rfl)
      (.cons (by decide) (.inr rfl) (.last (by decide)))))
  have hfound : json.located ((spread.map Relaid.line).map octets) =
      [(1, .ok ⟨"call", ⟨"f", "g", 1⟩, ⟨⟨0⟩, 0⟩⟩),
        (2, .error (.malformedLine 2 "expected value at line 1 column 1"))] := by
    decide +kernel
  obtain ⟨hitems, hitems'⟩ := (items_relaid json).2.1 spread ["\u2028"] _ _ hafter hplain hspread
  rw [hfound] at hitems hitems'
  exact ⟨hafter, hplain, hspread, hitems, hitems'⟩

end Log

end CallForest
