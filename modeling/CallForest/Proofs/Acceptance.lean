import CallForest.CommandLine.Run
import CallForest.Proofs.Overflows

/-!
# Which logs are accepted

From a log the program makes a finished session, or it reports a fault.  Faults come from the
thresholds, from opening and reading the log, from the words and lines of its entries, from the
forest and from the end of the session.

* `r.Acceptable`: a legible log whose events are balanced;
* `CommandLine.exists_verdict_of_session`: an overflow means that the rule has no answer;
* `CommandLine.exists_session_iff`: the program makes a session of a log just if the log is
  acceptable and the memory threshold is not negative, overflows apart.
-/

namespace CallForest

namespace Retention

/-- There is a rule for two thresholds just if the one for memory is not negative. -/
theorem exists_ofThresholds_iff {ms kb : Int64} :
    (∃ rule, ofThresholds ms kb = .ok rule) ↔ 0 ≤ kb := by
  rw [ofThresholds]
  by_cases hkb : kb < 0
  · rw [if_pos hkb]
    simpa using hkb
  · rw [if_neg hkb]
    have hle : 0 ≤ kb := Int64.not_lt.1 hkb
    split <;> simp [hle]

theorem sort_of_ofThresholds {ms kb : Int64} {fault : Fault}
    (h : ofThresholds ms kb = .error fault) : fault.sort ≠ .overflow := by
  rw [ofThresholds] at h
  split at h
  · cases h
    exact nofun
  · split at h <;> cases h

end Retention

namespace Log

namespace Reader

variable (r : Reader)

/-- The events of a log, in the order of its entries. -/
def events (bytes : ByteArray) : List Event := (r.entries bytes).filterMap LogEntry.event?

/-- A log that can be read, whose entries are calls and returns, and whose events are balanced but
for those that are passed over. -/
structure Acceptable (skipsSynthetic : Bool) (bytes : ByteArray) : Prop where
  legible : ∀ line ∈ lines bytes.toList, r.Legible line
  words : ∀ e ∈ r.entries bytes, ∃ b : Boundary, e.word = b.word
  lines : ∀ e ∈ Session.taken skipsSynthetic (r.events bytes), e.site.line ≠ 0
  balanced : Balanced (Session.taken skipsSynthetic (r.events bytes))

end Reader

end Log

namespace CommandLine

variable {r : Log.Reader} {o : Options} {log : Source} {s : Session}

/-- The sample of an entry, zero if there is none. -/
def sampleOf (e : Option LogEntry) : Sample := (e.map LogEntry.sample).getD .zero

theorem firstSample_map_ok (es : List LogEntry) : firstSample (es.map .ok) = sampleOf es.head? := by
  cases es <;> rfl

theorem lastSample_map_ok (sample : Sample) (es : List LogEntry) :
    lastSample sample (es.map .ok) = (es.getLast?.map LogEntry.sample).getD sample := by
  induction es generalizing sample with
  | nil => rfl
  | cons e es ih =>
    have hcons : lastSample sample ((e :: es).map .ok) = lastSample e.sample (es.map .ok) := rfl
    rw [hcons, ih, List.getLast?_cons]
    cases es.getLast? <;> rfl

/-- The sample of the last entry does not depend on what stands for it if there is none. -/
theorem lastSample_firstSample (es : List LogEntry) :
    lastSample (firstSample (es.map .ok)) (es.map .ok) = sampleOf es.getLast? := by
  rw [lastSample_map_ok]
  cases es with
  | nil => rfl
  | cons e es =>
    rw [List.getLast?_cons]
    rfl

/-- All that it takes to make a session of a log. -/
theorem session_eq_ok_iff :
    session r o log = .ok s ↔
      ∃ rule items n s₁, Retention.ofThresholds o.minTime o.minMemory = .ok rule ∧
        log.items r = .ok items ∧
        Log.replay (.start rule (!o.keepSynthetic) (firstSample items)) items = .ok n s₁ ∧
        s₁.finish (lastSample (firstSample items) items) = .ok () s := by
  rw [session]
  cases hrule : Retention.ofThresholds o.minTime o.minMemory with
  | error fault => simp [bind, Except.bind]
  | ok rule =>
    cases hitems : log.items r with
    | error fault => simp [bind, Except.bind, within]
    | ok items =>
      cases hreplay : Log.replay (.start rule (!o.keepSynthetic) (firstSample items)) items with
      | error fault s₁ => simp [bind, Except.bind, within, settled, hreplay]
      | ok n s₁ =>
        cases hfinish : s₁.finish (lastSample (firstSample items) items) with
        | error fault s₂ => simp [bind, Except.bind, within, settled, hreplay, hfinish]
        | ok _ s₂ => simp [bind, Except.bind, within, settled, hreplay, hfinish, pure, Except.pure]

/-- A fault of the replay is reported as it is. -/
theorem session_of_replay {rule : Option Retention} {items : List Log.Item} {fault : Fault}
    {s₁ : Session} (hrule : Retention.ofThresholds o.minTime o.minMemory = .ok rule)
    (hitems : log.items r = .ok items)
    (hreplay : Log.replay (.start rule (!o.keepSynthetic) (firstSample items)) items =
      .error fault s₁) :
    session r o log = .error ⟨some ("Failed to replay " ++ o.log), fault⟩ := by
  rw [session, hrule, hitems]
  simp [bind, Except.bind, within, settled, hreplay]

/-- What is finished has nothing running. -/
theorem finish_eq_ok_iff {s s' : Session} {sample : Sample} :
    s.finish sample = .ok () s' ↔
      s.forest.isOpen = false ∧ s' = { s with final := some sample } := by
  rw [Session.finish]
  cases s.forest.isOpen <;> simp [eq_comm]

/-- What a session was made of. -/
theorem acceptable_of_session (h : session r o log = .ok s) :
    0 ≤ o.minMemory ∧
      ∃ bytes, log = .content bytes ∧ r.Acceptable (!o.keepSynthetic) bytes ∧
        s.isFinished = true ∧ s.forest.isOpen = false ∧
        s.initial = sampleOf (r.entries bytes).head? ∧
        s.final = some (sampleOf (r.entries bytes).getLast?) := by
  obtain ⟨rule, items, n, s₁, hrule, hitems, hreplay, hfinish⟩ := session_eq_ok_iff.1 h
  refine ⟨Retention.exists_ofThresholds_iff.1 ⟨rule, hrule⟩, ?_⟩
  obtain ⟨es, events, rfl, hevents⟩ := Log.exists_of_replayFrom hreplay
  obtain ⟨hopen, rfl⟩ := finish_eq_ok_iff.1 hfinish
  cases log with
  | closed reason => cases hitems
  | unread reason =>
    cases es with
    | nil => cases hitems
    | cons e es => cases hitems
  | content bytes =>
    obtain ⟨hlegible, rfl⟩ := Log.Reader.items_eq_iff.1 (Except.ok.inj hitems)
    obtain ⟨hwords, rfl⟩ : _ ∧ events = r.events bytes := Log.mapM_event_eq_ok_iff.1 hevents
    -- With nothing but entries to read, the replay is a recording.
    let s₀ := Session.start rule (!o.keepSynthetic) (firstSample ((r.entries bytes).map .ok))
    have hreplay : Log.replayFrom 0 s₀ ((r.entries bytes).map .ok) = .ok n s₁ := hreplay
    rw [Log.replayFrom_map_ok hevents] at hreplay
    have hrecord := Session.recordAll_cases (s := s₀) (Chronicle.Tells.empty rule) rfl
      (r.events bytes)
    cases hs₁ : s₀.recordAll (r.events bytes) with
    | error fault s₂ =>
      rw [hs₁] at hreplay
      cases hreplay
    | ok _ s₂ =>
      rw [hs₁] at hreplay hrecord
      cases hreplay
      obtain ⟨hlines, -, hinitial, c, hc, htells⟩ := hrecord
      have hrunning : c.running = [] := by
        by_contra hrunning
        rw [htells.isOpen_iff.2 hrunning] at hopen
        cases hopen
      refine ⟨bytes, rfl, ⟨hlegible, hwords, hlines, Chronicle.balanced_of_foldlM hc hrunning⟩, rfl,
        hopen, hinitial.trans (firstSample_map_ok _), ?_⟩
      exact congrArg some (lastSample_firstSample _)

/-- An acceptable log makes a session, or its events ask the rule for an answer that it has not. -/
theorem session_of_acceptable {bytes : ByteArray} {rule : Option Retention}
    (hrule : Retention.ofThresholds o.minTime o.minMemory = .ok rule)
    (h : r.Acceptable (!o.keepSynthetic) bytes) :
    match (Session.taken (!o.keepSynthetic) (r.events bytes)).foldlM (Chronicle.observe rule)
      .empty with
    | .ok _ => ∃ s, session r o (.content bytes) = .ok s
    | .error _ =>
      ∃ context cause, session r o (.content bytes) = .error ⟨context, .overflow cause⟩ := by
  have hitems : r.items bytes = (r.entries bytes).map .ok :=
    Log.Reader.items_eq_iff.2 ⟨h.legible, rfl⟩
  have hevents : (r.entries bytes).mapM LogEntry.event = .ok (r.events bytes) :=
    Log.mapM_event_eq_ok_iff.2 ⟨h.words, rfl⟩
  let s₀ := Session.start rule (!o.keepSynthetic) (firstSample ((r.entries bytes).map .ok))
  have hreplay := Log.replayFrom_map_ok hevents 0 s₀
  have hrecord := Session.recordAll_cases (s := s₀) (Chronicle.Tells.empty rule) rfl
    (r.events bytes)
  have hbalanced := Chronicle.foldlM_of_balanced h.balanced rule .empty
  have hskips : s₀.skipsSynthetic = !o.keepSynthetic := rfl
  have hrule₀ : s₀.forest.rule = rule := rfl
  rw [hskips, hrule₀] at hrecord
  -- The session stops at the event at which the chronicle does, if either of them stops.
  cases hs₁ : s₀.recordAll (r.events bytes) with
  | error fault s₁ =>
    rw [hs₁] at hreplay hrecord
    obtain ⟨e, he, hline⟩ | ⟨refusal, t, hrefusal, rfl⟩ := hrecord
    · exact absurd hline (h.lines e he)
    · rw [hrefusal] at hbalanced ⊢
      obtain ⟨cause, rfl⟩ := hbalanced
      exact ⟨_, cause, session_of_replay hrule (congrArg Except.ok hitems) hreplay⟩
  | ok _ s₁ =>
    rw [hs₁] at hreplay hrecord
    obtain ⟨-, -, -, c, hc, htells⟩ := hrecord
    rw [hc] at hbalanced ⊢
    have hopen : s₁.forest.isOpen = false := by
      rw [← Bool.not_eq_true, htells.isOpen_iff, not_not]
      exact List.map_eq_nil_iff.1 hbalanced
    exact ⟨_, session_eq_ok_iff.2 ⟨rule, _, _, s₁, hrule, congrArg Except.ok hitems, hreplay,
      finish_eq_ok_iff.2 ⟨hopen, rfl⟩⟩⟩

/-! ### Overflows -/

theorem sort_of_items {items : List Log.Item} {fault : Fault} (hitems : log.items r = .ok items)
    (h : .error fault ∈ items) : fault.sort ≠ .overflow := by
  cases log with
  | closed reason => cases hitems
  | unread reason =>
    cases hitems
    cases List.mem_singleton.1 h
    exact nofun
  | content bytes =>
    cases hitems
    exact Log.Reader.sort_of_mem_itemsFrom h

/-- **An overflow comes from the rule alone**: it has no answer for two samples.  Without a rule
there is no overflow. -/
theorem exists_verdict_of_session {context : Option String} {cause : Overflow}
    (h : session r o log = .error ⟨context, .overflow cause⟩) :
    ∃ rule entered left, Retention.ofThresholds o.minTime o.minMemory = .ok rule ∧
      Retention.verdict rule entered left = .error cause := by
  cases hrule : Retention.ofThresholds o.minTime o.minMemory with
  | error fault =>
    rw [session, hrule] at h
    cases h
    exact absurd rfl (Retention.sort_of_ofThresholds hrule)
  | ok rule =>
    cases hitems : log.items r with
    | error fault =>
      rw [session, hrule, hitems] at h
      cases h
      cases log <;> cases hitems
    | ok items =>
      cases hreplay : Log.replay (.start rule (!o.keepSynthetic) (firstSample items)) items with
      | error fault s₁ =>
        rw [session_of_replay hrule hitems hreplay] at h
        cases h
        obtain ⟨-, e, -, -, -, call, -, -, -, -, -, -, -, -, hverdict⟩ :=
          Log.exists_verdict_of_replay (fun _ => sort_of_items hitems) hreplay
        exact ⟨rule, call.sample, e.sample, rfl, hverdict⟩
      | ok n s₁ =>
        -- All that is left is to finish the session, and that does no arithmetic.
        rw [session, hrule, hitems] at h
        cases hopen : s₁.forest.isOpen <;>
          simp [bind, Except.bind, within, settled, hreplay, Session.finish, hopen, pure,
            Except.pure] at h

/-- **Which logs are accepted.**  If the rule has an answer wherever it is asked, the program makes
a session just if the memory threshold is not negative, the log can be opened, every line of it is
text and blank, a comment or a record, every record is a call or a return, and those that are not
passed over have a line and are balanced.  The session is finished and not open, it starts with the
sample of the first record and ends with that of the last one.  All this holds whatever reads the
text of a record. -/
theorem exists_session_iff (r : Log.Reader) (o : Options) (log : Source)
    (hanswers : ∀ context cause, session r o log ≠ .error ⟨context, .overflow cause⟩) :
    ((∃ s, session r o log = .ok s) ↔
      0 ≤ o.minMemory ∧
        ∃ bytes, log = .content bytes ∧ r.Acceptable (!o.keepSynthetic) bytes) ∧
    ∀ s, session r o log = .ok s →
      s.isFinished = true ∧ s.forest.isOpen = false ∧
        ∃ bytes, log = .content bytes ∧ s.initial = sampleOf (r.entries bytes).head? ∧
          s.final = some (sampleOf (r.entries bytes).getLast?) := by
  refine ⟨⟨?_, ?_⟩, fun s h => ?_⟩
  · rintro ⟨s, h⟩
    obtain ⟨hmemory, bytes, hlog, hacceptable, -⟩ := acceptable_of_session h
    exact ⟨hmemory, bytes, hlog, hacceptable⟩
  · rintro ⟨hmemory, bytes, rfl, hacceptable⟩
    obtain ⟨rule, hrule⟩ := Retention.exists_ofThresholds_iff.2 hmemory
    have hsession := session_of_acceptable hrule hacceptable
    cases hc : (Session.taken (!o.keepSynthetic) (r.events bytes)).foldlM
      (Chronicle.observe rule) .empty with
    | ok c => rwa [hc] at hsession
    | error refusal =>
      rw [hc] at hsession
      obtain ⟨context, cause, h⟩ := hsession
      exact absurd h (hanswers context cause)
  · obtain ⟨-, bytes, hlog, -, hfinished, hopen, hinitial, hfinal⟩ := acceptable_of_session h
    exact ⟨hfinished, hopen, bytes, hlog, hinitial, hfinal⟩

/-- The log of one call, with a comment before it. -/
theorem exists_session_of_one_call :
    let o : Options := ⟨"app.log", -1, 0, false, .text, .depth, false, false, false, false⟩
    let call := "\x7b\"event\": \"call\", \"file\": \"a.py\", \"function\": \"main\", " ++
      "\"line\": 3, \"time\": 0, \"memory\": 5\x7d\n"
    let ret := "\x7b\"event\": \"return\", \"file\": \"a.py\", \"function\": \"main\", " ++
      "\"line\": 3, \"time\": 0, \"memory\": 7\x7d\n"
    let bytes := ("# one call\n" ++ call ++ ret).toUTF8
    ∃ s, session Log.json o (.content bytes) = .ok s ∧ s.isFinished = true ∧ s.forest.isOpen = false ∧
      s.initial = ⟨.zero, 5⟩ ∧ s.final = some ⟨.zero, 7⟩ := by
  intro o call ret bytes
  let main : Site := ⟨"a.py", "main", 3⟩
  let es : List LogEntry := [⟨"call", main, ⟨.zero, 5⟩⟩, ⟨"return", main, ⟨.zero, 7⟩⟩]
  have hitems : Log.json.items bytes = es.map .ok := by decide +kernel
  obtain ⟨hlegible, hes⟩ := Log.Reader.items_eq_iff.1 hitems
  have htaken : Session.taken (!o.keepSynthetic) (Log.json.events bytes) =
      [⟨.enter, main, ⟨.zero, 5⟩⟩, ⟨.leave, main, ⟨.zero, 7⟩⟩] := by
    rw [Log.Reader.events, ← hes]
    decide
  have hacceptable : Log.json.Acceptable (!o.keepSynthetic) bytes := by
    refine ⟨hlegible, ?_, ?_, ?_⟩
    · rw [← hes]
      exact List.forall_mem_cons.2 ⟨⟨.enter, rfl⟩, List.forall_mem_singleton.2 ⟨.leave, rfl⟩⟩
    · rw [htaken]
      decide
    · rw [htaken]
      change Balanced (_ :: ([] ++ _ :: []))
      exact .nest rfl rfl rfl .nil .nil
  have hanswers : ∀ context cause, session Log.json o (.content bytes) ≠
      .error ⟨context, .overflow cause⟩ := by
    intro context cause h
    obtain ⟨rule, entered, left, hrule, hverdict⟩ := exists_verdict_of_session h
    cases hrule
    cases hverdict
  obtain ⟨haccepted, hends⟩ := exists_session_iff Log.json o (.content bytes) hanswers
  obtain ⟨s, hs⟩ := haccepted.2 ⟨by decide, bytes, rfl, hacceptable⟩
  obtain ⟨hfinished, hopen, _, hlog, hinitial, hfinal⟩ := hends s hs
  cases hlog
  rw [← hes] at hinitial hfinal
  exact ⟨s, hs, hfinished, hopen, hinitial, hfinal⟩

end CommandLine

end CallForest
