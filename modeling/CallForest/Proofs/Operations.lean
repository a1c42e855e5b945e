import CallForest.Proofs.Telling

/-!
# Operations on a session

A session is driven from outside: events are recorded or added, and in the end it is finished.  An
operation that fails is followed by others all the same.  An overflow ends the program, so that of a
list of operations it performs those up to the first overflow; what is said here of all lists is
said of these.

* `Session.run`, `Session.answers`, `Session.accepted` and `Session.succeeded` are the session after
  a list of operations, what became of each of them, the events taken in and the operations that did
  not fail;
* `Session.performed`: all that an operation can do;
* `Session.add_cases`: all that adding an event can do to a session told by a chronicle;
* `Session.tells_run`: every session that operations can reach is told by the chronicle of the
  events taken in.
-/

namespace CallForest

/-- What can be done to a session. -/
inductive Operation where
  | record (e : Event)
  | add (e : Event)
  | finish (sample : Sample)
  deriving DecidableEq, Repr

/-- The event that an operation brings to the forest, if it is not passed over. -/
def Operation.offered (skipsSynthetic : Bool) : Operation → Option Event
  | record e => if skipsSynthetic && e.site.isSynthetic then none else some e
  | add e => some e
  | finish _ => none

theorem Operation.eq_of_offered {skipsSynthetic : Bool} {op : Operation} {e : Event}
    (h : op.offered skipsSynthetic = some e) : op = .record e ∨ op = .add e := by
  cases op with
  | record e' =>
    rw [offered] at h
    split at h
    · cases h
    · cases h
      exact .inl rfl
  | add e' =>
    cases h
    exact .inr rfl
  | finish sample => cases h

namespace Session

/-- A result, as the number that is given out. -/
def numbering {α : Type} (number : α → Option Nat) :
    EStateM.Result Fault Session α → EStateM.Result Fault Session (Option Nat)
  | .ok a s => .ok (number a) s
  | .error fault s => .error fault s

variable (s : Session)

/-- Performs an operation.  Only adding an event gives out a number. -/
def perform : Operation → EStateM.Result Fault Session (Option Nat)
  | .record e => numbering (fun _ => none) (s.record e)
  | .add e => numbering some (s.add e)
  | .finish sample => numbering (fun _ => none) (s.finish sample)

/-- The session after an operation. -/
def after (op : Operation) : Session :=
  match s.perform op with
  | .ok _ s => s
  | .error _ s => s

/-- What becomes of an operation. -/
def answer (op : Operation) : Except Fault (Option Nat) :=
  match s.perform op with
  | .ok n _ => .ok n
  | .error fault _ => .error fault

/-- The event of an operation, if it is taken in. -/
def accepts (op : Operation) : Option Event :=
  match s.perform op with
  | .ok _ _ => op.offered s.skipsSynthetic
  | .error _ _ => none

/-- The session after several operations. -/
def run (s : Session) : List Operation → Session
  | [] => s
  | op :: ops => run (s.after op) ops

/-- What becomes of each of several operations. -/
def answers (s : Session) : List Operation → List (Except Fault (Option Nat))
  | [] => []
  | op :: ops => s.answer op :: answers (s.after op) ops

/-- The events taken in by several operations. -/
def accepted (s : Session) : List Operation → List Event
  | [] => []
  | op :: ops => (s.accepts op).toList ++ accepted (s.after op) ops

/-- The operations that do not fail. -/
def succeeded (s : Session) : List Operation → List Operation
  | [] => []
  | op :: ops =>
    match s.perform op with
    | .ok _ s => op :: succeeded s ops
    | .error _ s => succeeded s ops

variable {s}

/-! ### One operation -/

section Outcome

variable {op : Operation} {s' : Session} {n : Option Nat} {fault : Fault}

theorem after_of_ok (h : s.perform op = .ok n s') : s.after op = s' := by
  rw [after, h]

theorem after_of_error (h : s.perform op = .error fault s') : s.after op = s' := by
  rw [after, h]

theorem accepts_of_ok (h : s.perform op = .ok n s') :
    s.accepts op = op.offered s.skipsSynthetic := by
  rw [accepts, h]

theorem accepts_of_error (h : s.perform op = .error fault s') : s.accepts op = none := by
  rw [accepts, h]

end Outcome

/-- Recording an event that is not passed over is adding and counting it. -/
theorem perform_record (s : Session) (e : Event) :
    s.perform (.record e) =
      if s.isFinished then .error .recordAfterFinish s
      else if s.skipsSynthetic && e.site.isSynthetic then .ok none { s with tally := s.tally.skip }
      else
        match s.perform (.add e) with
        | .error fault s => .error fault s
        | .ok _ s => .ok none { s with tally := s.tally.add e.boundary } := by
  simp only [perform, record]
  split
  · rfl
  · split
    · rfl
    · cases s.add e <;> rfl

/-- All that an operation can do. -/
inductive Performed (s : Session) :
    Operation → EStateM.Result Fault Session (Option Nat) → Prop where
  | late {e : Event} (finished : s.isFinished = true) :
      Performed s (.record e) (.error .recordAfterFinish s)
  | passed {e : Event} (unfinished : s.isFinished = false)
      (passes : (s.skipsSynthetic && e.site.isSynthetic) = true) :
      Performed s (.record e) (.ok none { s with tally := s.tally.skip })
  | refused {op : Operation} {e : Event} {fault : Fault} {s' : Session}
      (offered : op.offered s.skipsSynthetic = some e) (add : s.add e = .error fault s') :
      Performed s op (.error fault s')
  | recorded {e : Event} {n : Nat} {s' : Session} (unfinished : s.isFinished = false)
      (takes : (s.skipsSynthetic && e.site.isSynthetic) = false) (add : s.add e = .ok n s') :
      Performed s (.record e) (.ok none { s' with tally := s'.tally.add e.boundary })
  | added {e : Event} {n : Nat} {s' : Session} (add : s.add e = .ok n s') :
      Performed s (.add e) (.ok (some n) s')
  | inside {sample : Sample} (opened : s.forest.isOpen = true) :
      Performed s (.finish sample) (.error .finishInside s)
  | finished {sample : Sample} (closed : s.forest.isOpen = false) :
      Performed s (.finish sample) (.ok none { s with final := some sample })

theorem performed (s : Session) (op : Operation) : Performed s op (s.perform op) := by
  cases op with
  | finish sample =>
    simp only [perform, finish]
    cases hopen : s.forest.isOpen with
    | true => exact .inside hopen
    | false => exact .finished hopen
  | add e =>
    simp only [perform]
    cases ha : s.add e with
    | error fault s' => exact .refused rfl ha
    | ok n s' => exact .added ha
  | record e =>
    rw [perform_record]
    cases hfinished : s.isFinished with
    | true => exact .late hfinished
    | false =>
      cases hpass : s.skipsSynthetic && e.site.isSynthetic with
      | true => exact .passed hfinished hpass
      | false =>
        simp only [perform]
        cases ha : s.add e with
        | error fault s' => exact .refused (by rw [Operation.offered, hpass]; rfl) ha
        | ok n s' => exact .recorded hfinished hpass ha

theorem add_of_noLine {e : Event} (hline : e.site.line = 0) :
    s.add e = .error (.lineBelowOne e.site.line.toNat) s := by
  rw [add_eq, Site.Table.number, if_pos hline]

section

variable {c : Chronicle} {e : Event} {n : Nat} {t : Site.Table}

/-- What the chronicle refuses, the session refuses for the same reason. -/
theorem add_of_refused {r : Refusal} (h : c.Tells s.sites s.forest)
    (hn : s.sites.number e.site = .ok (n, t)) (hr : c.observe s.forest.rule e = .error r) :
    s.add e = .error (r.fault t) { s with sites := t } := by
  have hobserve := (h.number hn).observe (e := e) (Site.Table.number_spec hn).1
  rw [hr] at hobserve
  simp only [add_eq, hn, hobserve]

/-- What the chronicle takes in, the session takes in. -/
theorem add_of_taken {c' : Chronicle} (h : c.Tells s.sites s.forest)
    (hn : s.sites.number e.site = .ok (n, t)) (hc' : c.observe s.forest.rule e = .ok c') :
    ∃ f, c'.Tells t f ∧ f.rule = s.forest.rule ∧
      s.add e = .ok n ({ s with sites := t, forest := f }.widen e.sample) := by
  have hobserve := (h.number hn).observe (e := e) (Site.Table.number_spec hn).1
  rw [hc'] at hobserve
  obtain ⟨f, hf, htells, hrule⟩ := hobserve
  refine ⟨f, htells, hrule, ?_⟩
  simp only [add_eq, hn, hf]

end

/-- All that adding an event can do to a session told by a chronicle. -/
inductive AddCases (s : Session) (c : Chronicle) (e : Event) : Prop where
  /-- The site has no line. -/
  | noLine (line : e.site.line = 0) (eq : s.add e = .error (.lineBelowOne e.site.line.toNat) s)
  /-- The site has a number, and the forest refuses the event. -/
  | refused {n : Nat} {t : Site.Table} {r : Refusal} (number : s.sites.number e.site = .ok (n, t))
      (observe : c.observe s.forest.rule e = .error r)
      (eq : s.add e = .error (r.fault t) { s with sites := t })
  /-- The site has a number, and the forest takes the event in. -/
  | taken {n : Nat} {t : Site.Table} {f : Forest} {c' : Chronicle}
      (number : s.sites.number e.site = .ok (n, t))
      (observe : c.observe s.forest.rule e = .ok c') (tells : c'.Tells t f)
      (rule : f.rule = s.forest.rule)
      (eq : s.add e = .ok n ({ s with sites := t, forest := f }.widen e.sample))

theorem add_cases {c : Chronicle} (h : c.Tells s.sites s.forest) (e : Event) : AddCases s c e := by
  by_cases hline : e.site.line = 0
  · exact .noLine hline (add_of_noLine hline)
  · obtain ⟨⟨n, t⟩, hn⟩ := (s.sites.exists_number_iff e.site).2 hline
    cases hc : c.observe s.forest.rule e with
    | error r => exact .refused hn hc (add_of_refused h hn hc)
    | ok c' =>
      obtain ⟨f, htells, hrule, hadd⟩ := add_of_taken h hn hc
      exact .taken hn hc htells hrule hadd

/-- A session told by a chronicle stays so when an event is added, and the event is taken in by the
chronicle just if adding it does not fail. -/
theorem tells_after_add {c : Chronicle} (h : c.Tells s.sites s.forest) (e : Event) :
    match s.add e with
    | .error _ s' => c.Tells s'.sites s'.forest ∧ s'.forest.rule = s.forest.rule
    | .ok _ s' =>
      ∃ c', c.observe s.forest.rule e = .ok c' ∧ c'.Tells s'.sites s'.forest ∧
        s'.forest.rule = s.forest.rule := by
  cases add_cases h e with
  | noLine line eq =>
    rw [eq]
    exact ⟨h, rfl⟩
  | refused number observe eq =>
    rw [eq]
    exact ⟨h.number number, rfl⟩
  | taken number observe tells rule eq =>
    rw [eq]
    exact ⟨_, observe, tells, rule⟩

/-- **A session told by a chronicle stays so**, the chronicle taking in what the session does. -/
theorem tells_after {c : Chronicle} (h : c.Tells s.sites s.forest) (op : Operation) :
    ∃ c', (s.accepts op).toList.foldlM (Chronicle.observe s.forest.rule) c = .ok c' ∧
      c'.Tells (s.after op).sites (s.after op).forest ∧
      (s.after op).forest.rule = s.forest.rule := by
  have hsingle : ∀ {e : Event} {c' : Chronicle}, c.observe s.forest.rule e = .ok c' →
      [e].foldlM (Chronicle.observe s.forest.rule) c = .ok c' :=
    fun hc' => History.foldlM_cons_of_eq_ok hc' []
  have hperformed := s.performed op
  rw [accepts, after]
  generalize s.perform op = r at hperformed
  cases hperformed with
  | late => exact ⟨c, rfl, h, rfl⟩
  | passed _ passes =>
    rw [Operation.offered, passes]
    exact ⟨c, rfl, h, rfl⟩
  | @refused _ e _ _ _ add =>
    have hadd := tells_after_add h e
    rw [add] at hadd
    exact ⟨c, rfl, hadd⟩
  | @recorded e _ _ _ takes add =>
    have hadd := tells_after_add h e
    rw [add] at hadd
    obtain ⟨c', hc', htells⟩ := hadd
    rw [Operation.offered, takes]
    exact ⟨c', hsingle hc', htells⟩
  | @added e _ _ add =>
    have hadd := tells_after_add h e
    rw [add] at hadd
    obtain ⟨c', hc', htells⟩ := hadd
    exact ⟨c', hsingle hc', htells⟩
  | inside => exact ⟨c, rfl, h, rfl⟩
  | finished => exact ⟨c, rfl, h, rfl⟩

/-! ### Several operations -/

theorem tells_run_of_tells {c : Chronicle} (h : c.Tells s.sites s.forest) (ops : List Operation) :
    ∃ c', (s.accepted ops).foldlM (Chronicle.observe s.forest.rule) c = .ok c' ∧
      c'.Tells (s.run ops).sites (s.run ops).forest := by
  induction ops generalizing s c with
  | nil => exact ⟨c, rfl, h⟩
  | cons op ops ih =>
    obtain ⟨c₁, hc₁, h₁, hrule⟩ := tells_after h op
    obtain ⟨c', hc', h'⟩ := ih h₁
    rw [hrule] at hc'
    exact ⟨c', (History.foldlM_append_of_eq_ok hc₁ _).trans hc', h'⟩

/-- **Every session that operations can reach is told by a chronicle**, that of the events taken
in. -/
theorem tells_run (rule : Option Retention) (skipsSynthetic : Bool) (initial : Sample)
    (ops : List Operation) :
    let s := start rule skipsSynthetic initial
    ∃ c, (s.accepted ops).foldlM (Chronicle.observe rule) .empty = .ok c ∧
      c.Tells (s.run ops).sites (s.run ops).forest :=
  tells_run_of_tells (s := start rule skipsSynthetic initial) (Chronicle.Tells.empty rule) ops

end Session

end CallForest
