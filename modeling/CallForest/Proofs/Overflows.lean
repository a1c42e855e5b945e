import CallForest.Proofs.Balance
import CallForest.Proofs.Replaying

/-!
# When a replay overflows

Every rule with a threshold, be it one for the time alone, takes the difference of the memories at
the return and at the call.  A log may hold any two memories, so that the difference need not be in
range, and then the replay overflows.  Nothing else in a replay does.

* `Retention.verdict_eq_error_iff`: when a rule with thresholds has no answer;
* `Event.waiting`: the calls that wait for their return after some events;
* `Session.record_overflow_after_iff`: when one more event overflows;
* `Log.replay_overflow_iff`: which logs overflow, and `Log.replay_overflows`: one that does.
-/

namespace CallForest

namespace Retention

variable {ms kb : Int64} {entered left : Sample} {cause : Overflow}

theorem sub_eq_error_iff :
    left.sub entered = .error cause ↔
      cause = .subtract ∧ ¬Checked.InRange (left.memory.toInt - entered.memory.toInt) := by
  rw [Sample.sub, ← Checked.ofInt_eq_error_iff, Checked.sub]
  cases Checked.ofInt .subtract (left.memory.toInt - entered.memory.toInt) <;> simp [Except.map]

/-- A rule with a threshold fails just where the difference of the samples does. -/
theorem keeps_eq_error_iff {r : Retention} (h : ofThresholds ms kb = .ok (some r)) :
    r.keeps entered left = .error cause ↔ left.sub entered = .error cause := by
  rcases rule_of_ofThresholds h with rfl | rfl | rfl
  · simp only [minMemory, memoryReached]
    cases left.sub entered <;> simp [Except.map]
  · simp only [minTime, timeReached]
    cases left.sub entered <;> simp [Except.map]
  · simp only [either, memoryReached, timeReached]
    cases left.sub entered with
    | error o => simp [Except.map, bind, Except.bind]
    | ok cost =>
      simp only [Except.map, bind, Except.bind]
      split <;> simp [pure, Except.pure]

/-- **A rule has no answer just if it has a threshold and the memories are too far apart.** -/
theorem verdict_eq_error_iff {rule : Option Retention} (h : ofThresholds ms kb = .ok rule) :
    verdict rule entered left = .error cause ↔
      cause = .subtract ∧ rule ≠ none ∧
        ¬Checked.InRange (left.memory.toInt - entered.memory.toInt) := by
  cases rule with
  | none => simp [verdict]
  | some r =>
    have hkeeps : verdict (some r) entered left = .error cause ↔
        r.keeps entered left = .error cause := by
      rw [verdict]
      cases r.keeps entered left <;> simp [Except.map]
    rw [hkeeps, keeps_eq_error_iff h, sub_eq_error_iff]
    simp

end Retention

/-! ### Calls that wait -/

namespace Event

/-- The calls that wait for their return after one more event. -/
def next (calls : List Event) (e : Event) : List Event :=
  match e.boundary with
  | .enter => e :: calls
  | .leave => calls.tail

/-- The calls that wait for their return after some events, the innermost first. -/
def waiting (es : List Event) : List Event := es.foldl next []

theorem mem_of_mem_foldl_next {es calls : List Event} {e : Event} (h : e ∈ es.foldl next calls) :
    e ∈ calls ∨ e ∈ es := by
  induction es generalizing calls with
  | nil => exact .inl h
  | cons e' es ih =>
    obtain h | h := ih h
    · rw [next] at h
      cases hb : e'.boundary with
      | enter =>
        rw [hb] at h
        obtain rfl | h := List.mem_cons.1 h
        · exact .inr List.mem_cons_self
        · exact .inl h
      | leave =>
        rw [hb] at h
        exact .inl (List.mem_of_mem_tail h)
    · exact .inr (List.mem_cons_of_mem e' h)

/-- What waits is one of the events. -/
theorem mem_of_mem_waiting {es : List Event} {e : Event} (h : e ∈ waiting es) : e ∈ es :=
  (mem_of_mem_foldl_next h).resolve_left List.not_mem_nil

end Event

namespace Chronicle

variable {rule : Option Retention} {c c' : Chronicle}

theorem calls_observe {e : Event} (h : c.observe rule e = .ok c') :
    c'.calls = Event.next c.calls e := by
  rw [Event.next]
  obtain ⟨hb, rfl⟩ | ⟨o, outer, v, hrunning, hb, -, -, rfl⟩ := observe_cases h
  · rw [hb]
    rfl
  · rw [hb, calls_leave, calls, hrunning]
    rfl

/-- The calls running in a chronicle are those that wait. -/
theorem calls_foldlM {es : List Event} (h : es.foldlM (observe rule) c = .ok c') :
    c'.calls = es.foldl Event.next c.calls := by
  induction es generalizing c with
  | nil =>
    cases h
    rfl
  | cons e es ih =>
    obtain ⟨c₁, hc₁, h⟩ := History.exists_of_foldlM_cons h
    rw [ih h, calls_observe hc₁]
    rfl

/-- An event is refused for want of an answer just if it is a return to the innermost call and the
rule has no answer for the two of them. -/
theorem observe_eq_unanswered_iff {e : Event} {cause : Overflow} :
    c.observe rule e = .error (.unanswered cause) ↔
      e.boundary = .leave ∧ ∃ call outer, c.calls = call :: outer ∧ call.site = e.site ∧
        Retention.verdict rule call.sample e.sample = .error cause := by
  rw [observe]
  cases e.boundary with
  | enter => simp
  | leave =>
    cases hrunning : c.running with
    | nil => simp [calls, hrunning]
    | cons o outer =>
      by_cases hsite : o.call.site = e.site
      · cases hv : Retention.verdict rule o.call.sample e.sample <;>
          simp [calls, hrunning, hsite, hv]
      · simp [calls, hrunning, hsite]

end Chronicle

theorem Forest.rule_of_observe {f f' : Forest} {boundary : Boundary} {n : Nat} {sample : Sample}
    (h : f.observe boundary n sample = .ok f') : f'.rule = f.rule := by
  rw [observe] at h
  split at h <;> cases h
  rename_i htake
  cases boundary with
  | enter =>
    rw [take, takeCall] at htake
    split at htake
    · cases htake
      rfl
    · split at htake <;> cases htake
      rfl
  | leave =>
    rw [take, takeRet] at htake
    split at htake
    · cases htake
    · split at htake <;> cases htake
      · rfl
      · split <;> rfl

namespace Session

variable {s s' : Session} {c : Chronicle} {e : Event} {cause : Overflow}

/-! ### One event -/

/-- **Recording an event overflows just at a return to the innermost call** for which the rule has
no answer. -/
theorem record_overflow_iff (h : c.Tells s.sites s.forest) (hfinal : s.final = none) :
    (∃ s', s.record e = .error (.overflow cause) s') ↔
      (s.skipsSynthetic && e.site.isSynthetic) = false ∧ e.site.line ≠ 0 ∧
        c.observe s.forest.rule e = .error (.unanswered cause) := by
  cases hpass : s.skipsSynthetic && e.site.isSynthetic with
  | true => simp [record_of_passed hfinal hpass]
  | false =>
    rw [record_eq_add hfinal hpass]
    cases add_cases h e with
    | noLine line eq => simp [eq, line]
    | @refused n t r number observe eq =>
      have hline : e.site.line ≠ 0 := (s.sites.exists_number_iff e.site).1 ⟨_, number⟩
      cases r <;> simp [eq, hline, observe, Refusal.fault]
    | taken _ observe _ _ eq => simp [eq, observe]

/-! ### Several events -/

/-- Recording an event changes neither which events are passed over nor the rule. -/
theorem settings_of_record (h : s.record e = .ok () s') :
    s'.skipsSynthetic = s.skipsSynthetic ∧ s'.forest.rule = s.forest.rule := by
  rw [record] at h
  split at h
  · cases h
  · split at h
    · cases h
      exact ⟨rfl, rfl⟩
    · rw [add_eq] at h
      cases hnumber : s.sites.number e.site with
      | error fault => simp [hnumber] at h
      | ok r =>
        obtain ⟨n, t⟩ := r
        cases hobserve : s.forest.observe e.boundary n e.sample with
        | error fault => simp [hnumber, hobserve] at h
        | ok f =>
          simp only [hnumber, hobserve] at h
          cases h
          exact ⟨rfl, Forest.rule_of_observe hobserve⟩

theorem settings_of_recordAll {es : List Event} (h : s.recordAll es = .ok () s') :
    s'.skipsSynthetic = s.skipsSynthetic ∧ s'.forest.rule = s.forest.rule := by
  induction es generalizing s with
  | nil =>
    cases h
    exact ⟨rfl, rfl⟩
  | cons e es ih =>
    rw [recordAll] at h
    cases hs₁ : s.record e with
    | error fault s₁ => simp [hs₁] at h
    | ok _ s₁ =>
      simp only [hs₁] at h
      obtain ⟨hskips, hrule⟩ := settings_of_record hs₁
      obtain ⟨hskips', hrule'⟩ := ih h
      exact ⟨hskips'.trans hskips, hrule'.trans hrule⟩

/-- **After some events were recorded, one more overflows just if it ends the innermost call that
waits** and the rule has no answer for the two of them. -/
theorem record_overflow_after_iff {rule : Option Retention} {skipsSynthetic : Bool}
    {initial : Sample} {es : List Event}
    (hs : (start rule skipsSynthetic initial).recordAll es = .ok () s) :
    (∃ s', s.record e = .error (.overflow cause) s') ↔
      (skipsSynthetic && e.site.isSynthetic) = false ∧ e.boundary = .leave ∧
        ∃ call outer, Event.waiting (taken skipsSynthetic es) = call :: outer ∧
          call.site = e.site ∧ Retention.verdict rule call.sample e.sample = .error cause := by
  have hcases := recordAll_cases (s := start rule skipsSynthetic initial)
    (Chronicle.Tells.empty rule) rfl es
  rw [hs] at hcases
  obtain ⟨hlines, hfinal, -, c, hc, htells⟩ := hcases
  obtain ⟨hskips, hrule⟩ := settings_of_recordAll hs
  have hcalls : c.calls = Event.waiting (taken skipsSynthetic es) := Chronicle.calls_foldlM hc
  rw [record_overflow_iff htells hfinal, Chronicle.observe_eq_unanswered_iff, hskips, hrule, hcalls]
  refine and_congr_right fun _ => and_iff_right_of_imp ?_
  -- A call that waits was taken in, so that its site has a line.
  rintro ⟨-, call, outer, hwaiting, hsite, -⟩
  have hmem : call ∈ Event.waiting (taken skipsSynthetic es) := by simp [hwaiting]
  rw [← hsite]
  exact hlines call (Event.mem_of_mem_waiting hmem)

end Session

namespace Log

/-! ### Logs -/

/-- The entry is a return that is not passed over, it answers the innermost of the calls that wait
after some events, and its memory is too far from that of the call. -/
def Overreaches (skipsSynthetic : Bool) (events : List Event) (e : LogEntry) : Prop :=
  e.word = Boundary.leave.word ∧ (skipsSynthetic && e.site.isSynthetic) = false ∧
    ∃ call outer, Event.waiting (Session.taken skipsSynthetic events) = call :: outer ∧
      call.site = e.site ∧ ¬Checked.InRange (e.sample.memory.toInt - call.sample.memory.toInt)

/-- At some entry a replay overreaches, the entries before it being recorded. -/
def Overflows (s : Session) (items : List Item) : Prop :=
  ∃ before e after events s₁, items = before ++ .ok e :: after ∧
    before.mapM eventOf = .ok events ∧ s.recordAll events = .ok () s₁ ∧
    Overreaches s.skipsSynthetic events e

variable {ms kb : Int64} {rule : Option Retention} {skipsSynthetic : Bool} {initial : Sample}
  {items : List Item} {cause : Overflow} {s' : Session}

/-- What overreaches overflows, if there is a rule. -/
theorem exists_overflow_of_overflows (hrule : Retention.ofThresholds ms kb = .ok rule)
    (hsome : rule ≠ none) (h : Overflows (.start rule skipsSynthetic initial) items) :
    ∃ s', replay (.start rule skipsSynthetic initial) items = .error (.overflow .subtract) s' := by
  obtain ⟨before, e, after, events, s₁, hitems, hevents, hrecord, hword, hpass, call, outer,
    hwaiting, hsite, hrange⟩ := h
  have hverdict : Retention.verdict rule call.sample e.sample = .error .subtract :=
    (Retention.verdict_eq_error_iff hrule).2 ⟨rfl, hsome, hrange⟩
  let event : Event := ⟨.leave, e.site, e.sample⟩
  obtain ⟨s', hs'⟩ : ∃ s', s₁.record event = .error (.overflow .subtract) s' :=
    (Session.record_overflow_after_iff hrecord).2
      ⟨hpass, rfl, call, outer, hwaiting, hsite, hverdict⟩
  have hstop : Stopped s₁ (.ok e) (.overflow .subtract) s' := .refused hword hs'
  exact ⟨s', replayFrom_eq_error_iff.2
    ⟨before, .ok e, after, s₁, hitems, ⟨events, hevents, hrecord⟩, hstop⟩⟩

section

variable (hsort : ∀ fault, .error fault ∈ items → fault.sort ≠ .overflow)
  (h : replay (.start rule skipsSynthetic initial) items = .error (.overflow cause) s')
include hsort h

/-- A replay that overflows asks the rule for an answer that it has not. -/
theorem exists_verdict_of_replay :
    ∃ before e after events s₁ call outer, items = before ++ .ok e :: after ∧
      before.mapM eventOf = .ok events ∧
      (Session.start rule skipsSynthetic initial).recordAll events = .ok () s₁ ∧
      e.word = Boundary.leave.word ∧ (skipsSynthetic && e.site.isSynthetic) = false ∧
      Event.waiting (Session.taken skipsSynthetic events) = call :: outer ∧ call.site = e.site ∧
      Retention.verdict rule call.sample e.sample = .error cause := by
  obtain ⟨before, item, after, s₁, rfl, ⟨events, hevents, hrecord⟩, hstop⟩ :=
    replayFrom_eq_error_iff.1 h
  cases hstop with
  | unread => exact absurd rfl (hsort (.overflow cause) (by simp))
  | unknown word => exact absurd rfl (sort_of_event (event_eq_error_iff.2 word))
  | @refused e b _ _ hword hs' =>
    obtain ⟨hpass, hb, call, outer, hwaiting, hsite, hverdict⟩ :=
      (Session.record_overflow_after_iff hrecord).1 ⟨s', hs'⟩
    cases hb
    exact ⟨before, e, after, events, s₁, call, outer, rfl, hevents, hrecord, hword, hpass, hwaiting,
      hsite, hverdict⟩

/-- Nothing else overflows. -/
theorem overflows_of_replay (hrule : Retention.ofThresholds ms kb = .ok rule) :
    cause = .subtract ∧ rule ≠ none ∧ Overflows (.start rule skipsSynthetic initial) items := by
  obtain ⟨before, e, after, events, s₁, call, outer, hitems, hevents, hrecord, hword, hpass,
    hwaiting, hsite, hverdict⟩ := exists_verdict_of_replay hsort h
  obtain ⟨hcause, hsome, hrange⟩ := (Retention.verdict_eq_error_iff hrule).1 hverdict
  exact ⟨hcause, hsome, before, e, after, events, s₁, hitems, hevents, hrecord, hword, hpass, call,
    outer, hwaiting, hsite, hrange⟩

end

/-- An event of some items is that of an entry among them. -/
theorem exists_entry_of_mapM {before : List Item} {events : List Event} {event : Event}
    (h : before.mapM eventOf = .ok events) (hmem : event ∈ events) :
    ∃ e, .ok e ∈ before ∧ e.sample = event.sample := by
  induction before generalizing events with
  | nil =>
    cases h
    cases hmem
  | cons item before ih =>
    obtain ⟨event', events', hitem, hbefore, rfl⟩ := History.exists_of_mapM_cons h
    obtain rfl | hmem := List.mem_cons.1 hmem
    · cases item with
      | error fault => cases hitem
      | ok e =>
        obtain ⟨b, -, rfl⟩ := event_eq_ok_iff.1 ((eventOf_ok e).symm.trans hitem)
        exact ⟨e, List.mem_cons_self, rfl⟩
    · obtain ⟨e, he, hsame⟩ := ih hbefore hmem
      exact ⟨e, List.mem_cons_of_mem item he, hsame⟩

/-- What overreaches does so between the memories of two entries. -/
theorem exists_memories_of_overflows {s : Session} (h : Overflows s items) :
    ∃ e e', .ok e ∈ items ∧ .ok e' ∈ items ∧
      ¬Checked.InRange (e'.sample.memory.toInt - e.sample.memory.toInt) := by
  obtain ⟨before, e', after, events, s₁, rfl, hevents, -, -, -, call, outer, hwaiting, -, hrange⟩ :=
    h
  have hmem : call ∈ Event.waiting (Session.taken s.skipsSynthetic events) := by simp [hwaiting]
  have hcall : call ∈ events := List.mem_of_mem_filter (Event.mem_of_mem_waiting hmem)
  obtain ⟨e, he, hsample⟩ := exists_entry_of_mapM hevents hcall
  rw [← hsample] at hrange
  exact ⟨e, e', by simp [he], by simp, hrange⟩

/-- **When a replay overflows.**  A log overflows just if there is a rule with a threshold and some
return in it, not passed over, ends the innermost call that waits, the entries before it having been
recorded, with a memory whose difference from that of the call is out of range.  It is the
subtraction that overflows.  In particular no log overflows in which all differences of memories are
in range.  All this holds whatever reads the text of a record. -/
theorem replay_overflow_iff (r : Reader) (hrule : Retention.ofThresholds ms kb = .ok rule)
    (skipsSynthetic : Bool) (initial : Sample) (bytes : ByteArray) :
    let s := Session.start rule skipsSynthetic initial
    (∀ cause, (∃ s', replay s (r.items bytes) = .error (.overflow cause) s') ↔
      cause = .subtract ∧ rule ≠ none ∧ Overflows s (r.items bytes)) ∧
    ((∀ e e', .ok e ∈ r.items bytes → .ok e' ∈ r.items bytes →
        Checked.InRange (e'.sample.memory.toInt - e.sample.memory.toInt)) →
      ∀ cause s', replay s (r.items bytes) ≠ .error (.overflow cause) s') := by
  intro s
  have hsort : ∀ fault, .error fault ∈ r.items bytes → fault.sort ≠ .overflow :=
    fun fault => Reader.sort_of_mem_itemsFrom
  refine ⟨fun cause => ⟨?_, ?_⟩, fun hrange cause s' hs' => ?_⟩
  · rintro ⟨s', hs'⟩
    exact overflows_of_replay hsort hs' hrule
  · rintro ⟨rfl, hsome, hoverflows⟩
    exact exists_overflow_of_overflows hrule hsome hoverflows
  · obtain ⟨-, -, hoverflows⟩ := overflows_of_replay hsort hs' hrule
    obtain ⟨e, e', he, he', hout⟩ := exists_memories_of_overflows hoverflows
    exact hout (hrange e e' he he')

/-- The log of a call at the least memory and a return at the greatest one. -/
def extremes : ByteArray :=
  ("\x7b\"event\": \"call\", \"file\": \"a.py\", \"function\": \"main\", \"line\": 3, " ++
    "\"time\": 0, \"memory\": -9223372036854775808\x7d\n" ++
    "\x7b\"event\": \"return\", \"file\": \"a.py\", \"function\": \"main\", \"line\": 3, " ++
    "\"time\": 0, \"memory\": 9223372036854775807\x7d\n").toUTF8

theorem overflows_extremes (rule : Option Retention) (skipsSynthetic : Bool) (initial : Sample) :
    Overflows (.start rule skipsSynthetic initial) (Log.items extremes) := by
  let main : Site := ⟨"a.py", "main", 3⟩
  let call : LogEntry := ⟨"call", main, ⟨.zero, .minValue⟩⟩
  let ret : LogEntry := ⟨"return", main, ⟨.zero, .maxValue⟩⟩
  let e : Event := ⟨.enter, main, call.sample⟩
  let s := Session.start rule skipsSynthetic initial
  let t : Site.Table := ⟨Site.Table.empty.numbers.insert main 0, #[main]⟩
  have hitems : Log.items extremes = [.ok call, .ok ret] := by decide +kernel
  have hsynthetic : main.isSynthetic = false := by decide
  have hpass : (skipsSynthetic && main.isSynthetic) = false := by rw [hsynthetic, Bool.and_false]
  have hnumber : s.sites.number main = .ok (0, t) := by
    simp [t, s, main, Session.start, Site.Table.number, Site.Table.empty]
  have hrecord : s.record e = .ok () (s.took e t ⟨[.enter 0 call.sample], rule, 0⟩) := by
    rw [Session.record_eq rfl hpass, hnumber]
    rfl
  have htaken : Session.taken skipsSynthetic [e] = [e] := by simp [Session.taken, e, hsynthetic]
  refine ⟨[.ok call], ret, [], [e], s.took e t ⟨[.enter 0 call.sample], rule, 0⟩, hitems, rfl, ?_,
    rfl, hpass, e, [], ?_, rfl, by decide⟩
  · rw [Session.recordAll, hrecord]
    rfl
  · change Event.waiting (Session.taken skipsSynthetic [e]) = _
    rw [htaken]
    rfl

/-- The return of `extremes` overflows though the rule looks at the time alone. -/
theorem replay_overflow_iff_extremes :
    Retention.ofThresholds 0 0 = .ok (some (.minTime 0)) ∧
      ∃ s', replay (.start (some (.minTime 0)) true .zero) (Log.items extremes) =
        .error (.overflow .subtract) s' := by
  have hrule : Retention.ofThresholds 0 0 = .ok (some (.minTime 0)) := rfl
  obtain ⟨hiff, -⟩ := replay_overflow_iff json hrule true .zero extremes
  exact ⟨hrule, (hiff .subtract).2
    ⟨rfl, Option.some_ne_none _, overflows_extremes (some (.minTime 0)) true .zero⟩⟩

/-- Under some thresholds some log cannot be replayed without an overflow. -/
theorem replay_overflows :
    ¬ ∀ (ms kb : Int64) (rule : Option Retention) (skipsSynthetic : Bool) (initial : Sample)
        (bytes : ByteArray), Retention.ofThresholds ms kb = .ok rule →
      ∀ cause s', replay (.start rule skipsSynthetic initial) (Log.items bytes) ≠
        .error (.overflow cause) s' := by
  intro h
  have hrule : Retention.ofThresholds 0 0 = .ok (some (.minTime 0)) := rfl
  obtain ⟨s', hs'⟩ := exists_overflow_of_overflows hrule (Option.some_ne_none _)
    (overflows_extremes (some (.minTime 0)) true .zero)
  exact h 0 0 _ true .zero extremes hrule .subtract s' hs'

end Log

end CallForest
