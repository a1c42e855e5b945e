import CallForest.Proofs.Skipping

/-!
# Chronicles

A chronicle is what a forest would be if it kept, in the place of the numbers and samples of an
activation, the two events that began and ended it.  Functions are told apart by their sites.

* `Chronicle.observe` is what an event does to a chronicle, or why it is refused;
* `Chronicle.Sound`: in every episode a call is answered by a return at its own site;
* `Chronicle.events_observe`: without a rule a chronicle holds all events taken in, in their order.
-/

namespace CallForest

/-- What a rule says about two samples; without a rule everything is kept. -/
def Retention.verdict (rule : Option Retention) (entered left : Sample) :
    Except Overflow Verdict :=
  match rule with
  | none => .ok .kept
  | some r => (r.keeps entered left).map fun keeps => if keeps then .kept else .dropped

theorem Invocation.judge_eq_verdict (rule : Option Retention) (entered left : Sample) :
    judge rule entered left =
      match Retention.verdict rule entered left with
      | .ok v => .ok v
      | .error cause => .error (.overflow cause) := by
  cases rule with
  | none => rfl
  | some r =>
    simp only [judge, Retention.verdict]
    rcases r.keeps entered left with cause | _ | _ <;> rfl

/-- An activation with the events that began and ended it. -/
structure Episode where
  call : Event
  /-- The return, once it is seen. -/
  ret : Option Event
  callees : List Episode

namespace Episode

/-- In an episode and below it, every call is answered, if at all, by a return at its own site. -/
inductive Matched : Episode → Prop where
  | intro {x : Episode} (call : x.call.boundary = .enter)
      (ret : ∀ e, x.ret = some e → e.boundary = .leave ∧ e.site = x.call.site)
      (callees : ∀ y ∈ x.callees, y.Matched) : x.Matched

mutual

/-- The episode with the site and the samples of its events. -/
def located : Episode → Located
  | ⟨call, ret, callees⟩ => ⟨call.site, call.sample, ret.map Event.sample, locatedAll callees⟩

/-- Several episodes with the sites and the samples of their events. -/
def locatedAll : List Episode → List Located
  | [] => []
  | x :: xs => x.located :: locatedAll xs

end

mutual

/-- The events of an episode, in their order. -/
def events : Episode → List Event
  | ⟨call, ret, callees⟩ => call :: (eventsAll callees ++ ret.toList)

/-- The events of several episodes, in their order. -/
def eventsAll : List Episode → List Event
  | [] => []
  | x :: xs => x.events ++ eventsAll xs

end

theorem located_eq (x : Episode) :
    x.located = ⟨x.call.site, x.call.sample, x.ret.map Event.sample, locatedAll x.callees⟩ := by
  cases x
  rfl

theorem locatedAll_append (xs ys : List Episode) :
    locatedAll (xs ++ ys) = locatedAll xs ++ locatedAll ys := by
  induction xs with
  | nil => rfl
  | cons x xs ih => rw [List.cons_append, locatedAll, ih, locatedAll, List.cons_append]

theorem events_eq (x : Episode) :
    x.events = x.call :: (eventsAll x.callees ++ x.ret.toList) := by
  cases x
  rfl

theorem eventsAll_append (xs ys : List Episode) :
    eventsAll (xs ++ ys) = eventsAll xs ++ eventsAll ys := by
  induction xs with
  | nil => rfl
  | cons x xs ih => rw [List.cons_append, eventsAll, ih, eventsAll, List.append_assoc]

theorem eventsAll_singleton (x : Episode) : eventsAll [x] = x.events := by
  rw [eventsAll, eventsAll, List.append_nil]

end Episode

/-- An episode that has not ended, without the one that it waits for. -/
structure Opening where
  call : Event
  callees : List Episode

/-- The opening as an episode. -/
def Opening.episode (o : Opening) : Episode := ⟨o.call, none, o.callees⟩

/-- The episodes of a thread of control. -/
structure Chronicle where
  /-- The top-level episodes that have ended. -/
  past : List Episode
  /-- The episodes that have not ended, the innermost first. -/
  running : List Opening
  /-- The number of episodes dropped. -/
  dropped : Nat

/-- Why an event is refused. -/
inductive Refusal where
  /-- A return while nothing is running. -/
  | outside (site : Site)
  /-- A return at another site than the innermost call. -/
  | mismatch (expected found : Site)
  /-- The rule has no answer. -/
  | unanswered (cause : Overflow)

namespace Chronicle

/-- No events. -/
def empty : Chronicle := ⟨[], [], 0⟩

variable (c : Chronicle)

/-- The chronicle after a call. -/
def enter (e : Event) : Chronicle := { c with running := ⟨e, []⟩ :: c.running }

/-- The chronicle with one more ended episode where execution is. -/
def settle (x : Episode) : Chronicle :=
  match c.running with
  | [] => { c with past := c.past ++ [x] }
  | o :: outer => { c with running := { o with callees := o.callees ++ [x] } :: outer }

/-- The chronicle after the return from `o`, for which `outer` wait. -/
def leave (o : Opening) (outer : List Opening) (e : Event) : Verdict → Chronicle
  | .kept => { c with running := outer }.settle ⟨o.call, some e, o.callees⟩
  | .dropped => { c with running := outer, dropped := c.dropped + 1 }

/-- The chronicle after an event. -/
def observe (rule : Option Retention) (c : Chronicle) (e : Event) : Except Refusal Chronicle :=
  match e.boundary, c.running with
  | .enter, _ => .ok (c.enter e)
  | .leave, [] => .error (.outside e.site)
  | .leave, o :: outer =>
    if o.call.site = e.site then
      match Retention.verdict rule o.call.sample e.sample with
      | .ok v => .ok (c.leave o outer e v)
      | .error cause => .error (.unanswered cause)
    else .error (.mismatch o.call.site e.site)

/-- The episodes once more episodes stand where execution is. -/
def rootsWith (past : List Episode) : List Opening → List Episode → List Episode
  | [], xs => past ++ xs
  | o :: outer, xs => rootsWith past outer [⟨o.call, none, o.callees ++ xs⟩]

/-- All top-level episodes in the order of their calls. -/
def roots : List Episode := rootsWith c.past c.running []

/-- The calls that have not been answered, the innermost first. -/
def calls : List Event := c.running.map Opening.call

variable {c} {rule : Option Retention} {e : Event} {c' : Chronicle}

/-- All that an event taken in can do. -/
theorem observe_cases (h : c.observe rule e = .ok c') :
    (e.boundary = .enter ∧ c' = c.enter e) ∨
      ∃ o outer v, c.running = o :: outer ∧ e.boundary = .leave ∧ o.call.site = e.site ∧
        Retention.verdict rule o.call.sample e.sample = .ok v ∧ c' = c.leave o outer e v := by
  unfold observe at h
  cases hb : e.boundary with
  | enter =>
    rw [hb] at h
    cases h
    exact .inl ⟨rfl, rfl⟩
  | leave =>
    cases hrunning : c.running with
    | nil =>
      rw [hb, hrunning] at h
      cases h
    | cons o outer =>
      rw [hb, hrunning] at h
      by_cases hsite : o.call.site = e.site
      · simp only [hsite, if_true] at h
        cases hv : Retention.verdict rule o.call.sample e.sample with
        | error cause =>
          rw [hv] at h
          cases h
        | ok v =>
          rw [hv] at h
          cases h
          exact .inr ⟨o, outer, v, rfl, rfl, hsite, hv, rfl⟩
      · simp only [hsite, if_false] at h
        cases h

/-- All the reasons for which an event is refused. -/
theorem observe_error_cases {r : Refusal} (h : c.observe rule e = .error r) :
    e.boundary = .leave ∧
      ((c.running = [] ∧ r = .outside e.site) ∨
        ∃ o outer, c.running = o :: outer ∧
          ((o.call.site ≠ e.site ∧ r = .mismatch o.call.site e.site) ∨
            ∃ cause, Retention.verdict rule o.call.sample e.sample = .error cause ∧
              r = .unanswered cause)) := by
  unfold observe at h
  cases hb : e.boundary with
  | enter =>
    rw [hb] at h
    cases h
  | leave =>
    refine ⟨rfl, ?_⟩
    cases hrunning : c.running with
    | nil =>
      rw [hb, hrunning] at h
      cases h
      exact .inl ⟨rfl, rfl⟩
    | cons o outer =>
      rw [hb, hrunning] at h
      refine .inr ⟨o, outer, rfl, ?_⟩
      by_cases hsite : o.call.site = e.site
      · simp only [hsite, if_true] at h
        cases hv : Retention.verdict rule o.call.sample e.sample with
        | error cause =>
          rw [hv] at h
          cases h
          exact .inr ⟨cause, rfl, rfl⟩
        | ok v =>
          rw [hv] at h
          cases h
      · simp only [hsite, if_false] at h
        cases h
        exact .inl ⟨hsite, rfl⟩

theorem calls_settle (c : Chronicle) (x : Episode) : (c.settle x).calls = c.calls := by
  obtain ⟨past, running, dropped⟩ := c
  cases running <;> rfl

theorem calls_leave (c : Chronicle) (o : Opening) (outer : List Opening) (e : Event) (v : Verdict) :
    (c.leave o outer e v).calls = outer.map Opening.call := by
  cases v with
  | kept => rw [leave, calls_settle, calls]
  | dropped => rfl

/-! ### Soundness -/

/-- In every episode, ended or not, calls are answered by returns at their own sites. -/
structure Sound (c : Chronicle) : Prop where
  past : ∀ x ∈ c.past, x.Matched
  running : ∀ o ∈ c.running, o.call.boundary = .enter ∧ ∀ x ∈ o.callees, x.Matched

theorem sound_empty : empty.Sound := ⟨by simp [empty], by simp [empty]⟩

theorem Sound.settle (h : c.Sound) {x : Episode} (hx : x.Matched) : (c.settle x).Sound := by
  obtain ⟨past, running, dropped⟩ := c
  cases running with
  | nil => exact ⟨List.forall_mem_append.2 ⟨h.past, by simpa using hx⟩, h.running⟩
  | cons o outer =>
    obtain ⟨⟨hcall, hcallees⟩, houter⟩ := List.forall_mem_cons.1 h.running
    have ho : ∀ y ∈ o.callees ++ [x], y.Matched :=
      List.forall_mem_append.2 ⟨hcallees, by simpa using hx⟩
    exact ⟨h.past, List.forall_mem_cons.2 ⟨⟨hcall, ho⟩, houter⟩⟩

/-- **Events keep a chronicle sound.** -/
theorem Sound.observe (h : c.Sound) (hc' : c.observe rule e = .ok c') : c'.Sound := by
  obtain ⟨hb, rfl⟩ | ⟨o, outer, v, hrunning, hb, hsite, -, rfl⟩ := observe_cases hc'
  · exact ⟨h.past, List.forall_mem_cons.2 ⟨⟨hb, by simp⟩, h.running⟩⟩
  · obtain ⟨past, running, dropped⟩ := c
    cases hrunning
    obtain ⟨⟨hcall, hcallees⟩, houter⟩ := List.forall_mem_cons.1 h.running
    have hrest : Sound ⟨past, outer, dropped⟩ := ⟨h.past, houter⟩
    cases v with
    | dropped => exact ⟨h.past, houter⟩
    | kept =>
      refine hrest.settle (.intro hcall ?_ hcallees)
      rintro _ ⟨rfl⟩
      exact ⟨hb, hsite.symm⟩

theorem Sound.foldlM (h : c.Sound) {es : List Event}
    (hc' : es.foldlM (Chronicle.observe rule) c = .ok c') : c'.Sound := by
  induction es generalizing c with
  | nil =>
    cases hc'
    exact h
  | cons e es ih =>
    obtain ⟨c₁, hc₁, hc'⟩ := History.exists_of_foldlM_cons hc'
    exact ih (h.observe hc₁) hc'

theorem matched_rootsWith {past : List Episode} (hpast : ∀ x ∈ past, x.Matched)
    {path : List Opening}
    (hpath : ∀ o ∈ path, o.call.boundary = .enter ∧ ∀ x ∈ o.callees, x.Matched)
    {xs : List Episode} (hxs : ∀ x ∈ xs, x.Matched) :
    ∀ x ∈ rootsWith past path xs, x.Matched := by
  induction path generalizing xs with
  | nil => exact List.forall_mem_append.2 ⟨hpast, hxs⟩
  | cons o outer ih =>
    obtain ⟨⟨hcall, hcallees⟩, houter⟩ := List.forall_mem_cons.1 hpath
    refine ih houter (List.forall_mem_singleton.2 (.intro hcall ?_ ?_))
    · rintro _ ⟨⟩
    · exact List.forall_mem_append.2 ⟨hcallees, hxs⟩

theorem Sound.roots (h : c.Sound) : ∀ x ∈ c.roots, x.Matched :=
  matched_rootsWith h.past h.running (by simp)

/-! ### The events of a chronicle -/

/-- The events of the episodes that have not ended, in their order. -/
def openingEvents : List Opening → List Event
  | [] => []
  | o :: outer => openingEvents outer ++ o.call :: Episode.eventsAll o.callees

theorem eventsAll_rootsWith (past : List Episode) (path : List Opening) (xs : List Episode) :
    Episode.eventsAll (rootsWith past path xs) =
      Episode.eventsAll past ++ (openingEvents path ++ Episode.eventsAll xs) := by
  induction path generalizing xs with
  | nil => exact Episode.eventsAll_append past xs
  | cons o outer ih =>
    rw [rootsWith, ih, Episode.eventsAll_singleton, Episode.events_eq, Episode.eventsAll_append,
      openingEvents]
    simp

/-- All events of a chronicle, in their order. -/
def events (c : Chronicle) : List Event := Episode.eventsAll c.roots

theorem events_eq (c : Chronicle) :
    c.events = Episode.eventsAll c.past ++ openingEvents c.running := by
  rw [events, roots, eventsAll_rootsWith]
  exact congrArg (_ ++ ·) (List.append_nil _)

theorem events_settle (c : Chronicle) (x : Episode) :
    (c.settle x).events = c.events ++ x.events := by
  obtain ⟨past, running, dropped⟩ := c
  cases running with
  | nil => simp [events_eq, settle, openingEvents, Episode.eventsAll_append,
      Episode.eventsAll_singleton]
  | cons o outer => simp [events_eq, settle, openingEvents, Episode.eventsAll_append,
      Episode.eventsAll_singleton]

/-- **Without a rule, an event taken in is one more event of the chronicle.** -/
theorem events_observe (h : c.observe none e = .ok c') : c'.events = c.events ++ [e] := by
  obtain ⟨-, rfl⟩ | ⟨o, outer, v, hrunning, -, -, hv, rfl⟩ := observe_cases h
  · simp [events_eq, enter, openingEvents, Episode.eventsAll]
  · cases hv
    rw [leave, events_settle, events_eq, events_eq, hrunning, Episode.events_eq]
    simp [openingEvents]

theorem events_of_foldlM {es : List Event} (h : es.foldlM (observe none) c = .ok c') :
    c'.events = c.events ++ es := by
  induction es generalizing c with
  | nil =>
    cases h
    exact (List.append_nil _).symm
  | cons e es ih =>
    obtain ⟨c₁, hc₁, h⟩ := History.exists_of_foldlM_cons h
    rw [ih h, events_observe hc₁, List.append_assoc]
    rfl

end Chronicle

end CallForest
