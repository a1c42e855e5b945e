import CallForest.Proofs.Operations

/-!
# Balanced events

Events are balanced if every call is answered by a return at its own site and the pairs nest.  A
chronicle takes balanced events in and is afterwards where it was before, unless its rule has no
answer for one of the pairs; and what leaves nothing running was balanced.

* `Chronicle.foldlM_of_balanced`, `Chronicle.balanced_of_foldlM`: the two directions;
* `Session.recordAll_cases`: a session records events just if every site has a line and the
  chronicle takes them in.
-/

namespace CallForest

/-- Events in which every call is answered by a return at its own site, with balanced events between
the two. -/
inductive Balanced : List Event → Prop where
  | nil : Balanced []
  | nest {call ret : Event} {inner rest : List Event} (enter : call.boundary = .enter)
      (leave : ret.boundary = .leave) (site : ret.site = call.site) (inside : Balanced inner)
      (after : Balanced rest) : Balanced (call :: (inner ++ ret :: rest))

/-- Events that answer some calls, the innermost first, and are balanced otherwise. -/
def Closes : List Event → List Event → Prop
  | [], es => Balanced es
  | call :: calls, es =>
    ∃ inner ret rest, es = inner ++ ret :: rest ∧ Balanced inner ∧ ret.boundary = .leave ∧
      ret.site = call.site ∧ Closes calls rest

/-- A call that is answered stands in front of what closes the calls around it. -/
theorem Closes.nest {calls inner rest : List Event} {call ret : Event} (h : Closes calls rest)
    (enter : call.boundary = .enter) (leave : ret.boundary = .leave) (site : ret.site = call.site)
    (inside : Balanced inner) : Closes calls (call :: (inner ++ ret :: rest)) := by
  cases calls with
  | nil => exact Balanced.nest enter leave site inside h
  | cons outer calls =>
    obtain ⟨between, ret', rest', rfl, hbetween, hleave, hsite, hrest⟩ := h
    refine ⟨call :: (inner ++ ret :: between), ret', rest', by simp, ?_, hleave, hsite, hrest⟩
    exact .nest enter leave site inside hbetween

namespace Chronicle

variable {c c' : Chronicle} {rule : Option Retention} {es : List Event}

/-- What leaves nothing running has closed all that was. -/
theorem closes_of_foldlM (h : es.foldlM (observe rule) c = .ok c') (hrunning : c'.running = []) :
    Closes c.calls es := by
  induction es generalizing c with
  | nil =>
    cases h
    rw [calls, hrunning]
    exact .nil
  | cons e es ih =>
    obtain ⟨c₁, hc₁, h⟩ := History.exists_of_foldlM_cons h
    -- The events after `e` close what is running after `e`.
    have hes := ih h
    obtain ⟨henter, rfl⟩ | ⟨o, outer, v, hrun, hleave, hsite, -, rfl⟩ := observe_cases hc₁
    · obtain ⟨inner, ret, rest, rfl, hinner, hleave, hsite, hrest⟩ := hes
      exact hrest.nest henter hleave hsite hinner
    · rw [calls_leave] at hes
      rw [calls, hrun]
      exact ⟨[], e, es, rfl, .nil, hleave, hsite.symm, hes⟩

/-- **What leaves nothing running was balanced.** -/
theorem balanced_of_foldlM (h : es.foldlM (observe rule) empty = .ok c')
    (hrunning : c'.running = []) : Balanced es :=
  closes_of_foldlM h hrunning

/-- A return to the innermost call ends it, unless the rule has no answer. -/
theorem observe_return {call e : Event} {calls : List Event} (hcalls : c.calls = call :: calls)
    (hleave : e.boundary = .leave) (hsite : e.site = call.site) (rule : Option Retention) :
    match c.observe rule e with
    | .ok c' => c'.calls = calls
    | .error r => ∃ cause, r = .unanswered cause := by
  obtain ⟨o, outer, hrunning, rfl, rfl⟩ := List.map_eq_cons_iff.1 hcalls
  simp only [observe, hleave, hrunning, hsite, if_true]
  cases Retention.verdict rule o.call.sample e.sample with
  | error cause => exact ⟨cause, rfl⟩
  | ok v => exact calls_leave c o outer e v

/-- **Balanced events are taken in**, and the same calls are running after them, unless the rule has
no answer for one of the pairs. -/
theorem foldlM_of_balanced (h : Balanced es) (rule : Option Retention) (c : Chronicle) :
    match es.foldlM (observe rule) c with
    | .ok c' => c'.calls = c.calls
    | .error r => ∃ cause, r = .unanswered cause := by
  induction h generalizing c with
  | nil => rfl
  | @nest call ret inner rest henter hleave hsite _ _ ihinner ihrest =>
    have hcall : c.observe rule call = .ok (c.enter call) := by rw [observe, henter]
    rw [History.foldlM_cons_of_eq_ok hcall]
    -- After `inner` the same calls are running as before it, so `ret` meets `call`.
    have hinner := ihinner (c.enter call)
    cases hc₁ : inner.foldlM (observe rule) (c.enter call) with
    | error r =>
      rw [hc₁] at hinner
      rw [List.foldlM_append, hc₁]
      exact hinner
    | ok c₁ =>
      rw [hc₁] at hinner
      rw [History.foldlM_append_of_eq_ok hc₁]
      have hret := observe_return hinner hleave hsite rule
      cases hc₂ : c₁.observe rule ret with
      | error r =>
        rw [hc₂] at hret
        rw [List.foldlM_cons, hc₂]
        exact hret
      | ok c₂ =>
        rw [hc₂] at hret
        rw [History.foldlM_cons_of_eq_ok hc₂]
        have hrest := ihrest c₂
        rwa [hret] at hrest

end Chronicle

namespace Session

variable {s : Session} {e : Event}

/-- Recording an event that is not passed over is adding and counting it. -/
theorem record_eq_add (hfinal : s.final = none)
    (hpass : (s.skipsSynthetic && e.site.isSynthetic) = false) :
    s.record e =
      match s.add e with
      | .error fault s => .error fault s
      | .ok _ s => .ok () { s with tally := s.tally.add e.boundary } := by
  rw [record, isFinished, hfinal, hpass]
  rfl

/-- **A session records events just if every site has a line and the chronicle takes the events
in.** -/
theorem recordAll_cases {c : Chronicle} (h : c.Tells s.sites s.forest) (hfinal : s.final = none)
    (es : List Event) :
    match s.recordAll es with
    | .ok _ s' =>
      (∀ e ∈ taken s.skipsSynthetic es, e.site.line ≠ 0) ∧ s'.final = none ∧
        s'.initial = s.initial ∧
        ∃ c', (taken s.skipsSynthetic es).foldlM (Chronicle.observe s.forest.rule) c = .ok c' ∧
          c'.Tells s'.sites s'.forest
    | .error fault _ =>
      (∃ e ∈ taken s.skipsSynthetic es, e.site.line = 0) ∨
        ∃ r t, (taken s.skipsSynthetic es).foldlM (Chronicle.observe s.forest.rule) c = .error r ∧
          fault = r.fault t := by
  induction es generalizing s c with
  | nil => exact ⟨by simp [taken], hfinal, rfl, c, rfl, h⟩
  | cons e es ih =>
    cases hpass : s.skipsSynthetic && e.site.isSynthetic with
    | true =>
      have htaken : taken s.skipsSynthetic (e :: es) = taken s.skipsSynthetic es :=
        List.filter_cons_of_neg (by simp [hpass])
      rw [recordAll, record_of_passed hfinal hpass, htaken]
      exact ih (s := { s with tally := s.tally.skip }) h hfinal
    | false =>
      have htaken : taken s.skipsSynthetic (e :: es) = e :: taken s.skipsSynthetic es :=
        List.filter_cons_of_pos (by simp [hpass])
      rw [recordAll, record_eq_add hfinal hpass, htaken]
      cases add_cases h e with
      | noLine line eq =>
        rw [eq]
        exact .inl ⟨e, List.mem_cons_self, line⟩
      | @refused _ t r _ observe eq =>
        rw [eq]
        refine .inr ⟨r, t, ?_, rfl⟩
        rw [List.foldlM_cons, observe]
        rfl
      | @taken n t f c' number observe tells rule eq =>
        rw [eq]
        have hline : e.site.line ≠ 0 := (s.sites.exists_number_iff e.site).1 ⟨_, number⟩
        let s₁ := { s with sites := t, forest := f }.widen e.sample
        have hrest := ih (s := { s₁ with tally := s₁.tally.add e.boundary }) (c := c') tells hfinal
        rw [History.foldlM_cons_of_eq_ok observe, ← rule]
        dsimp only
        cases hs' : { s₁ with tally := s₁.tally.add e.boundary }.recordAll es with
        | ok _ s' =>
          rw [hs'] at hrest
          obtain ⟨hlines, hrest⟩ := hrest
          exact ⟨List.forall_mem_cons.2 ⟨hline, hlines⟩, hrest⟩
        | error fault s' =>
          rw [hs'] at hrest
          obtain ⟨e', he', hline'⟩ | hrest := hrest
          · exact .inl ⟨e', List.mem_cons_of_mem e he', hline'⟩
          · exact .inr hrest

end Session

end CallForest
