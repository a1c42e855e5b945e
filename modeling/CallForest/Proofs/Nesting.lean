import CallForest.Proofs.Spine

/-!
# Nesting

Which events a forest takes in depends on the calls that are open, and on nothing else in it: a call
always fits, and a return fits if it is the one of the innermost open call.  `openCalls` reads those
calls off the events taken in.

* `Forest.answer_run_empty`: what a forest says to each event after any history, in terms of the open
  calls; an event that it refuses leaves it as it was, and a rule does not change what it says;
* `Forest.matching_return_refused`: the one exception, a rule that has no answer to the return because
  the difference of the memories is out of range.
-/

namespace CallForest

/-- The call of a pending activation. -/
def Pending.call (p : Pending) : Crossing := ⟨.enter, p.node.function, p.node.entered⟩

namespace Spine

/-- The open calls, the innermost first. -/
def calls (S : Spine) : List Crossing := S.pending.map Pending.call

theorem calls_settle (S : Spine) (ts : List Invocation) (h : ∀ t ∈ ts, t.Settled) :
    (S.settle ts h).calls = S.calls := by
  obtain ⟨trees, settled, pending, dropped⟩ := S
  cases pending <;> rfl

theorem calls_leave (S : Spine) (p : Pending) (outer : List Pending) (sample : Sample)
    (v : Verdict) : (S.leave p outer sample v).calls = outer.map Pending.call := by
  cases v with
  | kept => rw [leave, calls_settle, calls]
  | dropped => rfl

end Spine

/-! ### When a rule has an answer -/

namespace Retention

/-- The rule has an answer to the two samples. -/
def Answers (rule : Option Retention) (entered left : Sample) : Prop :=
  ∃ v, Invocation.judge rule entered left = .ok v

/-- A rule without an answer says that a result is out of range. -/
theorem answers_or_overflow (rule : Option Retention) (entered left : Sample) :
    Answers rule entered left ∨
      ∃ o, Invocation.judge rule entered left = .error (.overflow o) := by
  cases rule with
  | none => exact .inl ⟨.kept, rfl⟩
  | some r =>
    rw [Answers, Invocation.judge]
    cases r.keeps entered left with
    | error o => exact .inr ⟨o, rfl⟩
    | ok b => cases b <;> exact .inl ⟨_, rfl⟩

theorem answers_some_iff {r : Retention} {entered left : Sample} :
    Answers (some r) entered left ↔ ∃ b, r.keeps entered left = .ok b := by
  rw [Answers, Invocation.judge]
  rcases r.keeps entered left with o | _ | _ <;> simp

theorem answers_ofTest (label : String) (test : Sample → Sample → Bool) (entered left : Sample) :
    Answers (some (.ofTest label test)) entered left :=
  answers_some_iff.2 ⟨_, rfl⟩

theorem exists_sub_iff {entered left : Sample} :
    (∃ cost, left.sub entered = .ok cost) ↔
      Checked.InRange (left.memory.toInt - entered.memory.toInt) := by
  rw [Sample.sub, Checked.sub, Checked.ofInt]
  split
  · rename_i h
    exact ⟨fun _ => h, fun _ => ⟨_, rfl⟩⟩
  · rename_i h
    exact ⟨fun ⟨_, hc⟩ => (nomatch hc), fun h' => absurd h' h⟩

/-- The rules with a threshold. -/
theorem rule_of_ofThresholds {ms kb : Int64} {r : Retention}
    (h : ofThresholds ms kb = .ok (some r)) :
    r = minMemory kb ∨ r = minTime ms ∨ r = either ms kb := by
  unfold ofThresholds at h
  by_cases hms : ms = anyTime <;> by_cases hkb : kb = anyMemory <;>
    simp only [hms, hkb, if_true, if_false] at h <;> split at h <;> cases h
  · exact .inl rfl
  · exact .inr (.inl rfl)
  · exact .inr (.inr rfl)

/-- Every rule with a threshold takes the difference of the samples first. -/
theorem answers_iff_of_ofThresholds {ms kb : Int64} {r : Retention}
    (h : ofThresholds ms kb = .ok (some r)) (entered left : Sample) :
    Answers (some r) entered left ↔
      Checked.InRange (left.memory.toInt - entered.memory.toInt) := by
  rw [answers_some_iff, ← exists_sub_iff]
  rcases rule_of_ofThresholds h with rfl | rfl | rfl
  · simp only [minMemory, memoryReached]
    cases left.sub entered <;> simp [Except.map]
  · simp only [minTime, timeReached]
    cases left.sub entered <;> simp [Except.map]
  · simp only [either, memoryReached, timeReached]
    cases left.sub entered with
    | error o => simp [Except.map, bind, Except.bind]
    | ok cost =>
      simp only [Except.map, bind, Except.bind]
      split <;> simp [pure, Except.pure]

end Retention

namespace Nesting

/-- The open calls after one more event. -/
def next (calls : List Crossing) (e : Crossing) : List Crossing :=
  match e.boundary with
  | .enter => e :: calls
  | .leave => calls.tail

/-- What the open calls alone say to an event. -/
def observe (rule : Option Retention) (calls : List Crossing) (e : Crossing) :
    Except Fault (List Crossing) :=
  match e.boundary, calls with
  | .enter, _ => .ok (e :: calls)
  | .leave, [] => .error (.leaveOutside e.function)
  | .leave, c :: outer =>
    if c.function = e.function then (Invocation.judge rule c.sample e.sample).map fun _ => outer
    else .error (.mismatch c.function e.function)

variable (rule : Option Retention)

theorem observe_calls (S : Spine) (e : Crossing) :
    observe rule S.calls e = (S.observe rule e).map Spine.calls := by
  obtain ⟨boundary, function, sample⟩ := e
  cases boundary with
  | enter => rfl
  | leave =>
    cases h : S.pending with
    | nil =>
      rw [Spine.observe, Spine.calls, h]
      rfl
    | cons p outer =>
      rw [Spine.observe, Spine.calls, h]
      simp only [List.map_cons, observe, Pending.call]
      by_cases hf : p.node.function = function
      · rw [if_pos hf, if_pos hf]
        cases Invocation.judge rule p.node.entered sample with
        | error fault => rfl
        | ok v => exact congrArg Except.ok (S.calls_leave p outer sample v).symm
      · rw [if_neg hf, if_neg hf]
        rfl

theorem eq_next_of_observe {calls calls' : List Crossing} {e : Crossing}
    (h : observe rule calls e = .ok calls') : calls' = next calls e := by
  obtain ⟨boundary, function, sample⟩ := e
  cases boundary with
  | enter =>
    cases h
    rfl
  | leave =>
    cases calls with
    | nil => cases h
    | cons c outer =>
      simp only [observe] at h
      split at h
      · cases hj : Invocation.judge rule c.sample sample with
        | error fault =>
          rw [hj] at h
          cases h
        | ok v =>
          rw [hj] at h
          cases h
          rfl
      · cases h

/-- The open calls are those of the events taken in that no such event has answered. -/
theorem final_observe (calls : List Crossing) (es : List Crossing) :
    History.final (observe rule) calls es =
      (History.accepted (observe rule) calls es).foldl next calls := by
  induction es generalizing calls with
  | nil => rfl
  | cons e es ih =>
    rw [History.final, History.accepted]
    cases h : observe rule calls e with
    | ok calls' => exact (ih calls').trans (by rw [List.foldl_cons, ← eq_next_of_observe rule h])
    | error fault =>
      dsimp only
      split
      · rfl
      · exact ih calls

/-! ### Rules -/

/-- An event is answered as it is without a rule, unless the rule has no answer. -/
theorem observe_none (calls : List Crossing) (e : Crossing) :
    observe none calls e = observe rule calls e ∨
      ∃ o, observe rule calls e = .error (.overflow o) := by
  obtain ⟨boundary, function, sample⟩ := e
  cases boundary with
  | enter => exact .inl rfl
  | leave =>
    cases calls with
    | nil => exact .inl rfl
    | cons c outer =>
      simp only [observe]
      by_cases hf : c.function = function
      · rw [if_pos hf, if_pos hf]
        obtain ⟨v, hv⟩ | ⟨o, ho⟩ := Retention.answers_or_overflow rule c.sample sample
        · rw [hv]
          exact .inl rfl
        · rw [ho]
          exact .inr ⟨o, rfl⟩
      · rw [if_neg hf, if_neg hf]
        exact .inl rfl

/-- Up to the first event that the rule has no answer to, all are answered as without a rule. -/
theorem takeWhile_answers_prefix (calls es : List Crossing) :
    (History.answers (observe rule) calls es).takeWhile (!History.overflowed ·) <+:
      History.answers (observe none) calls es := by
  induction es generalizing calls with
  | nil => exact List.prefix_rfl
  | cons e es ih =>
    rw [History.answers, History.answers]
    obtain h | ⟨o, ho⟩ := observe_none rule calls e
    · rw [h]
      cases observe rule calls e with
      | ok calls' => exact List.cons_prefix_cons.2 ⟨rfl, ih calls'⟩
      | error fault =>
        cases hfault : fault.isOverflow with
        | true => simp [hfault, History.overflowed]
        | false => simpa [hfault, History.overflowed] using ih calls
    -- The rule has no answer here, so nothing from here on is compared.
    · rw [ho]
      exact List.nil_prefix

end Nesting

/-! ### What a forest says to the next event -/

/-- The calls taken in from a history that no return taken in has answered, the innermost first. -/
def openCalls (rule : Option Retention) (es : List Crossing) : List Crossing :=
  ((Forest.empty rule).accepted es).foldl Nesting.next []

namespace Forest

variable (rule : Option Retention) (es : List Crossing)

theorem openCalls_eq_final : openCalls rule es = History.final (Nesting.observe rule) [] es := by
  rw [openCalls, accepted_empty, Nesting.final_observe]
  rw [← History.accepted_map Spine.calls (Nesting.observe_calls rule) .empty es]
  rfl

theorem openCalls_eq_calls : openCalls rule es = (Spine.ofHistory rule es).calls := by
  rw [openCalls_eq_final]
  exact History.final_map Spine.calls (Nesting.observe_calls rule) .empty es

theorem answers_empty_eq :
    (empty rule).answers es = History.answers (Nesting.observe rule) [] es := by
  rw [answers_empty]
  exact (History.answers_map Spine.calls (Nesting.observe_calls rule) .empty es).symm

theorem answer_run_eq (e : Crossing) :
    ((empty rule).run es).answer e = History.answer (Nesting.observe rule) (openCalls rule es) e := by
  rw [answer_eq, run_empty, openCalls_eq_calls,
    History.answer_map Spine.calls (Nesting.observe_calls rule)]
  exact History.answer_map (Spine.forest rule) (fun S e => S.feed_forest rule e) _ e

/-- What a history that no overflow has ended says to one more event. -/
theorem openCalls_concat (h : ∀ a ∈ (empty rule).answers es, History.overflowed a = false)
    (e : Crossing) :
    openCalls rule (es ++ [e]) =
      match ((empty rule).run es).feed e with
      | .ok _ => Nesting.next (openCalls rule es) e
      | .error _ => openCalls rule es := by
  rw [answers_empty_eq] at h
  rw [openCalls_eq_final, History.final_concat h, ← openCalls_eq_final, run_empty,
    Spine.feed_forest, openCalls_eq_calls, Nesting.observe_calls]
  cases hS : (Spine.ofHistory rule es).observe rule e with
  | error fault => rfl
  | ok S =>
    refine Nesting.eq_next_of_observe rule ?_
    rw [Nesting.observe_calls, hS]
    rfl

/-- What a forest says to a return. -/
theorem answer_leave (g : Nat) (s : Sample) :
    ((empty rule).run es).answer ⟨.leave, g, s⟩ =
      match openCalls rule es with
      | [] => .error (.leaveOutside g)
      | c :: _ =>
        if c.function = g then (Invocation.judge rule c.sample s).map fun _ => ()
        else .error (.mismatch c.function g) := by
  rw [answer_run_eq, History.answer]
  cases openCalls rule es with
  | nil => rfl
  | cons c outer =>
    simp only [Nesting.observe]
    split
    · cases Invocation.judge rule c.sample s <;> rfl
    · rfl

theorem isOpen_run_iff : ((empty rule).run es).isOpen = true ↔ openCalls rule es ≠ [] := by
  rw [run_empty, Spine.isOpen_forest, openCalls_eq_calls, Spine.calls, ne_eq, ne_eq,
    List.map_eq_nil_iff]

/-- **A forest takes in exactly the well-nested events.**  After any history a call is taken in; a
return is taken in if it is the one of the innermost open call and the rule has an answer to it.  What
is taken in changes the open calls accordingly; what is refused leaves the forest as it was, and if
the rule has no answer the forest is left as it would be without a rule.  The forest is open as long
as a call is.  Up to the first event that the rule has no answer to, each event is answered as it is
without a rule; a test has an answer always, and a rule with thresholds as long as the difference of
the memories is in range. -/
theorem answer_run_empty (rule : Option Retention) (es : List Crossing) :
    let f := (empty rule).run es
    let calls := openCalls rule es
    (∀ g s, f.answer ⟨.enter, g, s⟩ = .ok ()) ∧
    (∀ g s, f.answer ⟨.leave, g, s⟩ =
      match calls with
      | [] => .error (.leaveOutside g)
      | c :: _ =>
        if c.function = g then (Invocation.judge rule c.sample s).map fun _ => ()
        else .error (.mismatch c.function g)) ∧
    (∀ e fault f', f.step e = .error fault f' → fault.isOverflow = false → f' = f) ∧
    (∀ e cause f', f.step e = .error (.overflow cause) f' →
      ({ f with rule := none } : Forest).step e = .ok () { f' with rule := none }) ∧
    ((∀ a ∈ (empty rule).answers es, History.overflowed a = false) → ∀ e,
      (∀ f', f.step e = .ok () f' →
        (empty rule).run (es ++ [e]) = f' ∧ openCalls rule (es ++ [e]) = Nesting.next calls e) ∧
      ∀ fault f', f.step e = .error fault f' → fault.isOverflow = false →
        (empty rule).run (es ++ [e]) = f ∧ openCalls rule (es ++ [e]) = calls) ∧
    (f.isOpen = true ↔ calls ≠ []) ∧
    ((empty rule).answers es).takeWhile (!History.overflowed ·) <+: (empty none).answers es ∧
    (∀ entered left, Retention.Answers rule entered left ∨
      ∃ o, Invocation.judge rule entered left = .error (.overflow o)) ∧
    (rule = none ∨ (∃ label test, rule = some (.ofTest label test)) →
      ∀ entered left, Retention.Answers rule entered left) ∧
    ∀ ms kb r, Retention.ofThresholds ms kb = .ok (some r) → rule = some r →
      ∀ entered left, Retention.Answers rule entered left ↔
        Checked.InRange (left.memory.toInt - entered.memory.toInt) := by
  intro f calls
  refine ⟨fun g s => answer_run_eq rule es _, answer_leave rule es, fun e fault f' => eq_of_take_error,
    fun e cause f' => take_none_of_overflow, fun h e => ⟨fun f' hf' => ?_, fun fault f' hf' _ => ?_⟩,
    isOpen_run_iff rule es, ?_, Retention.answers_or_overflow rule, ?_, ?_⟩
  · have hfeed := feed_of_step hf'
    exact ⟨by rw [run_concat h, hfeed], by rw [openCalls_concat rule es h, hfeed]⟩
  · have hfeed := feed_of_step_error hf'
    exact ⟨by rw [run_concat h, hfeed], by rw [openCalls_concat rule es h, hfeed]⟩
  · rw [answers_empty_eq, answers_empty_eq]
    exact Nesting.takeWhile_answers_prefix rule [] es
  · rintro (rfl | ⟨label, test, rfl⟩) entered left
    · exact ⟨.kept, rfl⟩
    · exact Retention.answers_ofTest label test entered left
  · rintro ms kb r hr rfl
    exact Retention.answers_iff_of_ofThresholds hr

/-- Two calls are open under a rule with a threshold, after a return of the outer one was refused and
a third call has returned.  The outer one is refused again; the inner one may return, unless it does
so with a memory too far from the one that it began with. -/
theorem answer_run_empty_nested :
    let rule : Option Retention := some (.minTime 0)
    let outer : Crossing := ⟨.enter, 1, ⟨.zero, 0⟩⟩
    let inner : Crossing := ⟨.enter, 2, ⟨.zero, 5⟩⟩
    let es := [outer, inner, ⟨.leave, 1, ⟨.zero, 6⟩⟩, ⟨.enter, 3, ⟨.zero, 7⟩⟩, ⟨.leave, 3, ⟨.zero, 9⟩⟩]
    let f := (empty rule).run es
    Retention.ofThresholds 0 0 = .ok rule ∧
    (∀ a ∈ (empty rule).answers es, History.overflowed a = false) ∧
    openCalls rule es = [inner, outer] ∧ f.isOpen = true ∧
    f.step ⟨.leave, 1, ⟨.zero, 9⟩⟩ = .error (.mismatch 2 1) f ∧
    (∃ f', f.step ⟨.leave, 2, ⟨.zero, 9⟩⟩ = .ok () f' ∧
      openCalls rule (es ++ [⟨.leave, 2, ⟨.zero, 9⟩⟩]) = [outer]) ∧
    ∃ f', f.step ⟨.leave, 2, ⟨.zero, .minValue⟩⟩ = .error (.overflow .subtract) f' ∧
      ({ f with rule := none } : Forest).step ⟨.leave, 2, ⟨.zero, .minValue⟩⟩ =
        .ok () { f' with rule := none } := by
  intro rule outer inner es f
  have hrule : Retention.ofThresholds 0 0 = .ok rule := rfl
  obtain ⟨-, hret, hrefused, hoverflow, hnext, hopen, -, -, -, hrange⟩ := answer_run_empty rule es
  have hanswers : ∀ entered left : Sample, Retention.Answers rule entered left ↔
      Checked.InRange (left.memory.toInt - entered.memory.toInt) :=
    hrange 0 0 (.minTime 0) hrule rfl
  obtain ⟨third, hthird⟩ := (hanswers ⟨.zero, 7⟩ ⟨.zero, 9⟩).2 (by decide)
  obtain ⟨second, hsecond⟩ := (hanswers ⟨.zero, 5⟩ ⟨.zero, 9⟩).2 (by decide)
  have hfar : Invocation.judge rule ⟨.zero, 5⟩ ⟨.zero, .minValue⟩ = .error (.overflow .subtract) :=
    rfl
  have hcalls : openCalls rule es = [inner, outer] := by
    rw [openCalls_eq_final]
    simp [es, outer, inner, History.final, Nesting.observe, hthird, Except.map, Fault.isOverflow]
  have hgoes : ∀ a ∈ (empty rule).answers es, History.overflowed a = false := by
    rw [answers_empty_eq]
    simp [es, outer, inner, History.answers, Nesting.observe, hthird, Except.map,
      History.overflowed, Fault.isOverflow]
  have hmismatch : f.answer ⟨.leave, 1, ⟨.zero, 9⟩⟩ = .error (.mismatch 2 1) := by
    rw [hret, hcalls]
    rfl
  have hreturn : f.answer ⟨.leave, 2, ⟨.zero, 9⟩⟩ = .ok () := by
    rw [hret, hcalls]
    simp [inner, hsecond, Except.map]
  have hextreme : f.answer ⟨.leave, 2, ⟨.zero, .minValue⟩⟩ = .error (.overflow .subtract) := by
    rw [hret, hcalls]
    simp [inner, hfar, Except.map]
  obtain ⟨f₁, h₁⟩ := answer_eq_error_iff.1 hmismatch
  obtain ⟨f₂, h₂⟩ := answer_eq_ok_iff.1 hreturn
  obtain ⟨f₃, h₃⟩ := answer_eq_error_iff.1 hextreme
  refine ⟨hrule, hgoes, hcalls, hopen.2 (by rw [hcalls]; simp), ?_, ⟨f₂, h₂, ?_⟩, f₃, h₃,
    hoverflow _ _ _ h₃⟩
  · rw [h₁, hrefused _ _ _ h₁ rfl]
  · rw [((hnext hgoes _).1 f₂ h₂).2, hcalls]
    rfl

/-- A rule may leave the return of the innermost open call without an answer: the difference of the
greatest and the least memory is out of range. -/
theorem matching_return_refused :
    ¬ ∀ (rule : Option Retention) (es : List Crossing) (c : Crossing) (outer : List Crossing)
        (s : Sample), openCalls rule es = c :: outer →
      ((empty rule).run es).answer ⟨.leave, c.function, s⟩ = .ok () := by
  intro h
  have hcalls : openCalls (some (.minTime 0)) [⟨.enter, 1, ⟨.zero, .minValue⟩⟩] =
      [⟨.enter, 1, ⟨.zero, .minValue⟩⟩] := by
    rw [openCalls_eq_final]
    rfl
  have hok := h _ _ _ _ ⟨.zero, .maxValue⟩ hcalls
  rw [answer_run_eq, hcalls] at hok
  have hjudge : Invocation.judge (some (.minTime 0)) ⟨.zero, .minValue⟩ ⟨.zero, .maxValue⟩ =
      .error (.overflow .subtract) := rfl
  simp [History.answer, Nesting.observe, hjudge, Except.map] at hok

end Forest

end CallForest
