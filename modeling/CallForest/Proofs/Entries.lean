import CallForest.Log.Reading
import CallForest.Proofs.Recording
import Mathlib.Data.List.Basic

/-!
# The entries of a log

A line of a log is legible if it is text and blank, a comment or a record.  A log of legible lines
gives its entries and nothing else, and replaying it is recording the events of the entries.

* `Log.Reader.Legible`, `Log.Reader.entries`: which lines can be read, and what a log holds, for any
  way to read the text of a record;
* `Log.Reader.items_eq_iff`: a reader meets nothing but entries just if all lines are legible;
* `Log.replayFrom_map_ok`: replaying entries is recording their events.
-/

namespace CallForest

/-- The event of an entry, if its word is that of a boundary. -/
def LogEntry.event? (e : LogEntry) : Option Event := e.event.toOption

namespace Log

variable {text : List Char} {number : Nat}

/-- Nothing but white space. -/
def Blank (text : List Char) : Prop := Text.trim text = []

/-- The first character that is not white space is `#`. -/
def Comment (text : List Char) : Prop := (Text.trim text).head? = some '#'

instance : DecidablePred Blank := fun text => inferInstanceAs (Decidable (Text.trim text = []))

instance : DecidablePred Comment := fun text =>
  inferInstanceAs (Decidable ((Text.trim text).head? = some '#'))

namespace Reader

variable (r : Reader)

/-- A line that is text, and blank, a comment or a record. -/
def Legible (line : List UInt8) : Prop :=
  ∃ text, decode? line = some text ∧
    (Blank text ∨ Comment text ∨ ∃ e, r.read (Text.trim text) = .ok e)

/-- The entry of a line, if there is one. -/
def entryOf (line : List UInt8) : Option LogEntry :=
  (decode? line).bind fun text =>
    if Blank text ∨ Comment text then none else (r.read (Text.trim text)).toOption

/-- The entries of a log. -/
def entries (bytes : ByteArray) : List LogEntry := (lines bytes.toList).filterMap r.entryOf

variable {r}

theorem ofLine_of_empty (h : Blank text ∨ Comment text) : r.ofLine number text = .ok none := by
  rw [ofLine]
  cases htrim : Text.trim text with
  | nil => rfl
  | cons c cs =>
    have hc : c = '#' := by simpa [Blank, Comment, htrim] using h
    exact if_pos hc

theorem ofLine_of_record (h : ¬(Blank text ∨ Comment text)) :
    r.ofLine number text =
      match r.read (Text.trim text) with
      | .ok e => .ok (some e)
      | .error reason => .error (.malformedLine number reason) := by
  rw [ofLine]
  cases htrim : Text.trim text with
  | nil => exact absurd (.inl htrim) h
  | cons c cs =>
    have hc : c ≠ '#' := by
      rintro rfl
      exact h (.inr (by rw [Comment, htrim]; rfl))
    exact if_neg hc

variable (r) in
/-- All that reading a line can give. -/
inductive Reads (number : Nat) (line : List UInt8) (rest : List (List UInt8)) : Prop where
  | nothing (legible : r.Legible line) (entry : r.entryOf line = none)
      (items : r.itemsFrom number (line :: rest) = r.itemsFrom (number + 1) rest)
  | entry {e : LogEntry} (legible : r.Legible line) (entry : r.entryOf line = some e)
      (items : r.itemsFrom number (line :: rest) = .ok e :: r.itemsFrom (number + 1) rest)
  | fault {fault : Fault} {next : Nat} (illegible : ¬r.Legible line)
      (sort : fault.sort ≠ .overflow)
      (items : r.itemsFrom number (line :: rest) = .error fault :: r.itemsFrom next rest)

theorem reads (number : Nat) (line : List UInt8) (rest : List (List UInt8)) :
    r.Reads number line rest := by
  cases hdecode : decode? line with
  | none =>
    refine @Reads.fault r number line rest .notUtf8 number ?_ nofun (by rw [itemsFrom, hdecode])
    rintro ⟨text, htext, -⟩
    rw [hdecode] at htext
    cases htext
  | some text =>
    by_cases hempty : Blank text ∨ Comment text
    · refine .nothing ⟨text, hdecode, ?_⟩ ?_ ?_
      · exact hempty.elim .inl fun h => .inr (.inl h)
      · rw [entryOf, hdecode, Option.bind_some, if_pos hempty]
      · rw [itemsFrom, hdecode]
        simp only [ofLine_of_empty hempty]
    · cases hread : r.read (Text.trim text) with
      | ok e =>
        refine .entry (e := e) ⟨text, hdecode, .inr (.inr ⟨e, hread⟩)⟩ ?_ ?_
        · rw [entryOf, hdecode, Option.bind_some, if_neg hempty, hread]
          rfl
        · rw [itemsFrom, hdecode]
          simp only [ofLine_of_record hempty, hread]
      | error reason =>
        refine @Reads.fault r number line rest (.malformedLine (number + 1) reason) (number + 1) ?_
          nofun ?_
        · rintro ⟨text', htext, hlegible⟩
          rw [hdecode] at htext
          cases htext
          obtain h | h | ⟨e, he⟩ := hlegible
          · exact hempty (.inl h)
          · exact hempty (.inr h)
          · rw [hread] at he
            cases he
        · rw [itemsFrom, hdecode]
          simp only [ofLine_of_record hempty, hread]

/-- Legible lines give their entries, whatever number the first of them has. -/
theorem itemsFrom_of_legible {ls : List (List UInt8)} (h : ∀ line ∈ ls, r.Legible line)
    (number : Nat) : r.itemsFrom number ls = (ls.filterMap r.entryOf).map .ok := by
  induction ls generalizing number with
  | nil => rfl
  | cons line ls ih =>
    obtain ⟨hline, hls⟩ := List.forall_mem_cons.1 h
    cases r.reads number line ls with
    | nothing _ entry items => rw [items, ih hls, List.filterMap_cons_none entry]
    | entry _ entry items => rw [items, ih hls, List.filterMap_cons_some entry, List.map_cons]
    | fault illegible _ _ => exact absurd hline illegible

theorem legible_of_itemsFrom {ls : List (List UInt8)} {es : List LogEntry} {number : Nat}
    (h : r.itemsFrom number ls = es.map .ok) : ∀ line ∈ ls, r.Legible line := by
  induction ls generalizing number es with
  | nil => simp
  | cons line ls ih =>
    cases r.reads number line ls with
    | nothing legible _ items => exact List.forall_mem_cons.2 ⟨legible, ih (items.symm.trans h)⟩
    | entry legible _ items =>
      rw [items] at h
      obtain ⟨_, es', rfl, -, hes'⟩ := List.map_eq_cons_iff.1 h.symm
      exact List.forall_mem_cons.2 ⟨legible, ih hes'.symm⟩
    | fault illegible _ items =>
      rw [items] at h
      obtain ⟨_, _, _, h, -⟩ := List.map_eq_cons_iff.1 h.symm
      cases h

/-- Reading does no arithmetic. -/
theorem sort_of_mem_itemsFrom {ls : List (List UInt8)} {number : Nat} {fault : Fault}
    (h : .error fault ∈ r.itemsFrom number ls) : fault.sort ≠ .overflow := by
  induction ls generalizing number with
  | nil => cases h
  | cons line ls ih =>
    cases r.reads number line ls with
    | nothing _ _ items => exact ih (items ▸ h)
    | entry _ _ items =>
      rw [items] at h
      obtain h | h := List.mem_cons.1 h
      · cases h
      · exact ih h
    | fault _ sort items =>
      rw [items] at h
      obtain h | h := List.mem_cons.1 h
      · cases h
        exact sort
      · exact ih h

/-- **A reader meets nothing but entries just if all lines are legible**, and these are the entries
of the log. -/
theorem items_eq_iff {bytes : ByteArray} {es : List LogEntry} :
    r.items bytes = es.map .ok ↔
      (∀ line ∈ lines bytes.toList, r.Legible line) ∧ es = r.entries bytes := by
  constructor
  · intro h
    have hlegible := legible_of_itemsFrom h
    refine ⟨hlegible, ?_⟩
    rw [items, itemsFrom_of_legible hlegible] at h
    exact ((List.map_injective_iff.2 fun _ _ => Except.ok.inj) h).symm
  · rintro ⟨hlegible, rfl⟩
    exact itemsFrom_of_legible hlegible 0

end Reader

/-! ### Events of entries -/

theorem event_eq_ok_iff {e : LogEntry} {event : Event} :
    e.event = .ok event ↔ ∃ b : Boundary, e.word = b.word ∧ event = ⟨b, e.site, e.sample⟩ := by
  rw [LogEntry.event]
  constructor
  · intro h
    cases hb : Boundary.ofWord e.word with
    | error fault =>
      rw [hb] at h
      cases h
    | ok b =>
      rw [hb] at h
      cases h
      exact ⟨b, Boundary.ofWord_eq_ok_iff.1 hb, rfl⟩
  · rintro ⟨b, hword, rfl⟩
    rw [Boundary.ofWord_eq_ok_iff.2 hword]
    rfl

theorem exists_event_iff {e : LogEntry} :
    (∃ event, e.event = .ok event) ↔ ∃ b : Boundary, e.word = b.word := by
  constructor
  · rintro ⟨event, h⟩
    obtain ⟨b, hword, -⟩ := event_eq_ok_iff.1 h
    exact ⟨b, hword⟩
  · rintro ⟨b, hword⟩
    exact ⟨_, event_eq_ok_iff.2 ⟨b, hword, rfl⟩⟩

theorem sort_of_event {e : LogEntry} {fault : Fault} (h : e.event = .error fault) :
    fault.sort ≠ .overflow := by
  rw [LogEntry.event, Boundary.ofWord] at h
  split at h
  · cases h
  · split at h <;> cases h
    exact nofun

/-- All entries have events just if their words are those of boundaries. -/
theorem mapM_event_eq_ok_iff {es : List LogEntry} {events : List Event} :
    es.mapM LogEntry.event = .ok events ↔
      (∀ e ∈ es, ∃ b : Boundary, e.word = b.word) ∧ events = es.filterMap LogEntry.event? := by
  simp only [History.mapM_eq_ok_iff, exists_event_iff]
  rfl

/-- Replaying entries is recording their events. -/
theorem replayFrom_map_ok {es : List LogEntry} {events : List Event}
    (h : es.mapM LogEntry.event = .ok events) (count : Nat) (s : Session) :
    replayFrom count s (es.map .ok) =
      match s.recordAll events with
      | .error fault s' => .error fault s'
      | .ok _ s' => .ok (count + events.length) s' := by
  induction es generalizing events count s with
  | nil =>
    cases h
    rfl
  | cons e es ih =>
    obtain ⟨event, events', hevent, hevents, rfl⟩ := History.exists_of_mapM_cons h
    have hbind : (Except.ok e : Item).bind LogEntry.event = .ok event := hevent
    have hitem : recordItem s (.ok e) = s.record event := by rw [recordItem, hbind]
    rw [List.map_cons, replayFrom, hitem, Session.recordAll]
    cases s.record event with
    | error fault s' => rfl
    | ok _ s' =>
      dsimp only
      rw [ih hevents, List.length_cons, Nat.add_assoc, Nat.add_comm 1]

/-- A replay without a fault met nothing but entries, and all of them have events. -/
theorem exists_of_replayFrom {items : List Item} {count n : Nat} {s s' : Session}
    (h : replayFrom count s items = .ok n s') :
    ∃ (es : List LogEntry) (events : List Event),
      items = es.map .ok ∧ es.mapM LogEntry.event = .ok events := by
  induction items generalizing count s with
  | nil => exact ⟨[], [], rfl, rfl⟩
  | cons item items ih =>
    rw [replayFrom] at h
    cases hitem : item.bind LogEntry.event with
    | error fault =>
      rw [recordItem, hitem] at h
      cases h
    | ok event =>
      cases item with
      | error fault => cases hitem
      | ok e =>
        have hevent : e.event = .ok event := hitem
        cases hrecord : recordItem s (.ok e) with
        | error fault s₁ =>
          rw [hrecord] at h
          cases h
        | ok _ s₁ =>
          rw [hrecord] at h
          obtain ⟨es, events, rfl, hevents⟩ := ih h
          refine ⟨e :: es, event :: events, rfl, ?_⟩
          rw [List.mapM_cons, hevent, hevents]
          rfl

end Log

end CallForest
