import CallForest.Proofs.Entries

/-!
# Replaying a log

A replay records the events of the items of a log until one of them gives no event or is refused.

* `Log.Stopped`: the three ways in which an item stops a replay;
* `Session.record_error_cases`, `Log.Stopped.session_cases`: what the item that stops a replay
  leaves behind;
* `Log.replayFrom_append`: replaying one log after another is replaying both at once;
* `Log.replay_compositional`: what a replay gives, where it stops, and that it can be made in parts.
-/

namespace CallForest

namespace Session

variable {s s' : Session} {e : Event} {fault : Fault}

/-- An event that cannot be recorded leaves at most a number for its site. -/
theorem record_error_cases (h : s.record e = .error fault s') :
    s' = s ∨ ∃ n t, s.sites.number e.site = .ok (n, t) ∧ s' = { s with sites := t } := by
  rw [record] at h
  split at h
  · cases h
    exact .inl rfl
  · split at h
    · cases h
    · rw [add_eq] at h
      cases hnumber : s.sites.number e.site with
      | error f =>
        simp only [hnumber] at h
        cases h
        exact .inl rfl
      | ok r =>
        obtain ⟨n, t⟩ := r
        cases hobserve : s.forest.observe e.boundary n e.sample with
        | error f =>
          simp only [hnumber, hobserve] at h
          cases h
          exact .inr ⟨n, t, rfl, rfl⟩
        | ok f => simp [hnumber, hobserve] at h

end Session

namespace Log

/-- The event of an item, or why there is none. -/
def eventOf (item : Item) : Except Fault Event := item.bind LogEntry.event

/-- An item that is not recorded, with the fault and the session after it: it is no entry, or its
word is that of no boundary, or the session refuses its event. -/
inductive Stopped (s : Session) : Item → Fault → Session → Prop where
  | unread {fault : Fault} : Stopped s (.error fault) fault s
  | unknown {e : LogEntry} {fault : Fault} (word : Boundary.ofWord e.word = .error fault) :
      Stopped s (.ok e) fault s
  | refused {e : LogEntry} {b : Boundary} {fault : Fault} {s' : Session} (word : e.word = b.word)
      (record : s.record ⟨b, e.site, e.sample⟩ = .error fault s') : Stopped s (.ok e) fault s'

variable {s s' : Session} {item : Item} {fault : Fault}

/-! ### One item -/

theorem eventOf_ok (e : LogEntry) : eventOf (.ok e) = e.event := rfl

theorem event_eq_error_iff {e : LogEntry} :
    e.event = .error fault ↔ Boundary.ofWord e.word = .error fault := by
  rw [LogEntry.event]
  cases Boundary.ofWord e.word <;> simp [Except.map]

theorem recordItem_of_event {event : Event} (h : eventOf item = .ok event) :
    recordItem s item = s.record event := by
  rw [eventOf] at h
  rw [recordItem, h]

theorem recordItem_of_noEvent (h : eventOf item = .error fault) :
    recordItem s item = .error fault s := by
  rw [eventOf] at h
  rw [recordItem, h]

theorem recordItem_eq_error_iff :
    recordItem s item = .error fault s' ↔ Stopped s item fault s' := by
  constructor
  · intro h
    cases item with
    | error f =>
      rw [recordItem_of_noEvent rfl] at h
      cases h
      exact .unread
    | ok e =>
      cases he : e.event with
      | error f =>
        rw [recordItem_of_noEvent ((eventOf_ok e).trans he)] at h
        cases h
        exact .unknown (event_eq_error_iff.1 he)
      | ok event =>
        rw [recordItem_of_event ((eventOf_ok e).trans he)] at h
        obtain ⟨b, hword, rfl⟩ := event_eq_ok_iff.1 he
        exact .refused hword h
  · intro h
    cases h with
    | unread => exact recordItem_of_noEvent rfl
    | unknown word => exact recordItem_of_noEvent (event_eq_error_iff.2 word)
    | refused word record =>
      have hevent := event_eq_ok_iff.2 ⟨_, word, rfl⟩
      rw [recordItem_of_event ((eventOf_ok _).trans hevent), record]

/-- The item that stops a replay leaves at most a number for its site. -/
theorem Stopped.session_cases (h : Stopped s item fault s') :
    s' = s ∨ ∃ e n t, item = .ok e ∧ s.sites.number e.site = .ok (n, t) ∧
      s' = { s with sites := t } := by
  cases h with
  | unread => exact .inl rfl
  | unknown _ => exact .inl rfl
  | refused _ record =>
    obtain rfl | ⟨n, t, hnumber, rfl⟩ := Session.record_error_cases record
    · exact .inl rfl
    · exact .inr ⟨_, n, t, rfl, hnumber, rfl⟩

/-! ### Several items -/

variable {items : List Item}

/-- The items are recorded one after the other, and none of them stops the replay. -/
def Recorded (s : Session) (items : List Item) (s' : Session) : Prop :=
  ∃ events, items.mapM eventOf = .ok events ∧ s.recordAll events = .ok () s'

theorem recorded_nil_iff : Recorded s [] s' ↔ s' = s := by
  constructor
  · rintro ⟨events, hevents, hrecord⟩
    cases hevents
    cases hrecord
    rfl
  · rintro rfl
    exact ⟨[], rfl, rfl⟩

theorem recorded_cons_iff :
    Recorded s (item :: items) s' ↔ ∃ s₁, recordItem s item = .ok () s₁ ∧ Recorded s₁ items s' := by
  constructor
  · rintro ⟨_, hall, hrecord⟩
    obtain ⟨event, events, hevent, hevents, rfl⟩ := History.exists_of_mapM_cons hall
    rw [Session.recordAll] at hrecord
    rw [recordItem_of_event hevent]
    cases hs₁ : s.record event with
    | error f s₁ => simp [hs₁] at hrecord
    | ok _ s₁ =>
      simp only [hs₁] at hrecord
      exact ⟨s₁, rfl, events, hevents, hrecord⟩
  · rintro ⟨s₁, hitem, events, hevents, hrecord⟩
    cases hevent : eventOf item with
    | error f =>
      rw [recordItem_of_noEvent hevent] at hitem
      cases hitem
    | ok event =>
      rw [recordItem_of_event hevent] at hitem
      refine ⟨event :: events, ?_, ?_⟩
      · rw [List.mapM_cons, hevent, hevents]
        rfl
      · rw [Session.recordAll, hitem]
        exact hrecord

theorem replayFrom_eq_ok_iff {count n : Nat} :
    replayFrom count s items = .ok n s' ↔ n = count + items.length ∧ Recorded s items s' := by
  induction items generalizing count s with
  | nil =>
    rw [recorded_nil_iff, replayFrom, List.length_nil, EStateM.Result.ok.injEq, eq_comm,
      @eq_comm _ s]
    rfl
  | cons item items ih =>
    rw [recorded_cons_iff, replayFrom]
    cases recordItem s item with
    | error f s₁ => simp
    | ok u s₁ =>
      simp only [EStateM.Result.ok.injEq, true_and, exists_eq_left', List.length_cons]
      rw [ih, Nat.add_right_comm, Nat.add_assoc]

/-- The replay stops at the first item that is not recorded, those before it being recorded. -/
theorem replayFrom_eq_error_iff {count : Nat} :
    replayFrom count s items = .error fault s' ↔
      ∃ before item after s₁, items = before ++ item :: after ∧ Recorded s before s₁ ∧
        Stopped s₁ item fault s' := by
  induction items generalizing count s with
  | nil => simp [replayFrom]
  | cons item items ih =>
    rw [replayFrom]
    cases hitem : recordItem s item with
    | error f s₁ =>
      constructor
      · intro h
        cases h
        exact ⟨[], item, items, s, rfl, recorded_nil_iff.2 rfl, recordItem_eq_error_iff.1 hitem⟩
      · rintro ⟨before, item', after, s₂, hitems, hbefore, hstop⟩
        cases before with
        | nil =>
          cases hitems
          obtain rfl := recorded_nil_iff.1 hbefore
          rw [recordItem_eq_error_iff.2 hstop] at hitem
          cases hitem
          rfl
        | cons item₁ before =>
          cases hitems
          obtain ⟨s₃, hitem₁, -⟩ := recorded_cons_iff.1 hbefore
          rw [hitem₁] at hitem
          cases hitem
    | ok u s₁ =>
      refine ih.trans ?_
      constructor
      · rintro ⟨before, item', after, s₂, rfl, hbefore, hstop⟩
        exact ⟨item :: before, item', after, s₂, rfl,
          recorded_cons_iff.2 ⟨s₁, hitem, hbefore⟩, hstop⟩
      · rintro ⟨before, item', after, s₂, hitems, hbefore, hstop⟩
        cases before with
        | nil =>
          cases hitems
          obtain rfl := recorded_nil_iff.1 hbefore
          rw [recordItem_eq_error_iff.2 hstop] at hitem
          cases hitem
        | cons item₁ before =>
          cases hitems
          obtain ⟨s₃, hitem₁, hbefore⟩ := recorded_cons_iff.1 hbefore
          rw [hitem₁] at hitem
          cases hitem
          exact ⟨before, item', after, s₂, rfl, hbefore, hstop⟩

/-- Replaying one log after another is replaying both at once. -/
theorem replayFrom_append (count : Nat) (s : Session) (xs ys : List Item) :
    replayFrom count s (xs ++ ys) =
      match replayFrom count s xs with
      | .ok n s₁ => replayFrom n s₁ ys
      | .error fault s₁ => .error fault s₁ := by
  induction xs generalizing count s with
  | nil => rfl
  | cons item xs ih =>
    rw [List.cons_append, replayFrom, replayFrom]
    cases recordItem s item with
    | error f s₁ => rfl
    | ok u s₁ => exact ih (count + 1) s₁

/-- Items recorded before are counted, and change nothing else. -/
theorem replayFrom_eq (count : Nat) (s : Session) (items : List Item) :
    replayFrom count s items =
      match replay s items with
      | .ok n s' => .ok (count + n) s'
      | .error fault s' => .error fault s' := by
  rw [replay]
  cases h : replayFrom 0 s items with
  | ok n s' =>
    obtain ⟨rfl, hrecorded⟩ := replayFrom_eq_ok_iff.1 h
    exact replayFrom_eq_ok_iff.2 ⟨by rw [Nat.zero_add], hrecorded⟩
  | error f s' => exact replayFrom_eq_error_iff.2 (replayFrom_eq_error_iff.1 h)

/-- **Replaying is recording, item by item, up to the first one that cannot be recorded.**  A replay
succeeds just if all items are recorded, and counts them.  It fails just if some item is the first
that is no entry, has an unknown word or is refused; it then has the fault of that item, and leaves
the session as the items before it have made it, except that the site of the item may have got a
number.  What a log does can be had in parts: a second log goes on from the session that the first
one leaves, unless that one has failed. -/
theorem replay_compositional (s : Session) (xs ys : List Item) :
    (∀ n s', replay s xs = .ok n s' ↔ n = xs.length ∧ Recorded s xs s') ∧
    (∀ fault s', replay s xs = .error fault s' ↔
      ∃ before item after s₁, xs = before ++ item :: after ∧ Recorded s before s₁ ∧
        Stopped s₁ item fault s' ∧
        (s' = s₁ ∨ ∃ e n t, item = .ok e ∧ s₁.sites.number e.site = .ok (n, t) ∧
          s' = { s₁ with sites := t })) ∧
    replay s (xs ++ ys) =
      match replay s xs with
      | .error fault s₁ => .error fault s₁
      | .ok m s₁ =>
        match replay s₁ ys with
        | .error fault s₂ => .error fault s₂
        | .ok n s₂ => .ok (m + n) s₂ := by
  refine ⟨fun n s' => ?_, fun fault s' => ?_, ?_⟩
  · rw [replay, replayFrom_eq_ok_iff, Nat.zero_add]
  · rw [replay, replayFrom_eq_error_iff]
    constructor
    · rintro ⟨before, item, after, s₁, hxs, hbefore, hstop⟩
      exact ⟨before, item, after, s₁, hxs, hbefore, hstop, hstop.session_cases⟩
    · rintro ⟨before, item, after, s₁, hxs, hbefore, hstop, -⟩
      exact ⟨before, item, after, s₁, hxs, hbefore, hstop⟩
  · rw [replay, replayFrom_append]
    change _ = match replayFrom 0 s xs with | .error fault s₁ => _ | .ok m s₁ => _
    cases replayFrom 0 s xs with
    | error f s₁ => rfl
    | ok m s₁ =>
      dsimp only
      rw [replayFrom_eq]
      cases replay s₁ ys <;> rfl

end Log

end CallForest
