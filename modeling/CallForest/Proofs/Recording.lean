import CallForest.Proofs.History
import CallForest.Proofs.Numbering
import CallForest.Session

/-!
# Recordings

A session that records events numbers their sites and feeds its forest.  The numbers are given out
on the way, but a site keeps the number that it has; so the forest is that of one history, in which
every event bears the number that its site has at the end.

* `Session.record_eq`: all that an event which is not passed over can do to a session;
* `Session.exists_recordAll_iff`: a session records events without a fault just if their sites can
  be numbered and its forest takes in that history.
-/

namespace CallForest

/-- An event as a forest meets it, when its site has the number that a table gives. -/
def Event.crossing (t : Site.Table) (e : Event) : Crossing :=
  ⟨e.boundary, t.numbers[e.site]?.getD 0, e.sample⟩

namespace Session

/-- **All that taking in an event can do**, a refusal by the forest leaving the forest as it was. -/
theorem add_eq (s : Session) (e : Event) :
    s.add e =
      match s.sites.number e.site with
      | .error fault => .error fault s
      | .ok (n, sites) =>
        match s.forest.observe e.boundary n e.sample with
        | .error fault => .error fault { s with sites }
        | .ok forest => .ok n ({ s with sites, forest }.widen e.sample) := by
  rw [add]
  rcases s.sites.number e.site with fault | ⟨n, sites⟩
  · rfl
  · dsimp only [Forest.observe]
    cases h : s.forest.take e.boundary n e.sample with
    | ok _ forest => rfl
    | error fault forest =>
      dsimp only
      split
      · rfl
      · rename_i hfault
        rw [Forest.eq_of_take_error h (Bool.eq_false_iff.2 hfault)]

/-- Records events up to the first fault. -/
def recordAll (s : Session) : List Event → EStateM.Result Fault Session Unit
  | [] => .ok () s
  | e :: es =>
    match s.record e with
    | .error fault s => .error fault s
    | .ok _ s => s.recordAll es

/-- The events that a session does not pass over. -/
def taken (skipsSynthetic : Bool) (es : List Event) : List Event :=
  es.filter fun e => !(skipsSynthetic && e.site.isSynthetic)

variable {s : Session} {e : Event}

/-- An event passed over is only counted. -/
theorem record_of_passed (hfinal : s.final = none)
    (h : (s.skipsSynthetic && e.site.isSynthetic) = true) :
    s.record e = .ok () { s with tally := s.tally.skip } := by
  simp [record, isFinished, hfinal, h]

/-- The session after an event was taken in, with the table and the forest after it. -/
def took (s : Session) (e : Event) (t : Site.Table) (f : Forest) : Session :=
  { ({ s with sites := t, forest := f }.widen e.sample) with tally := s.tally.add e.boundary }

/-- All that an event which is not passed over can do. -/
theorem record_eq (hfinal : s.final = none)
    (h : (s.skipsSynthetic && e.site.isSynthetic) = false) :
    s.record e =
      match s.sites.number e.site with
      | .error fault => .error fault s
      | .ok (n, t) =>
        match s.forest.observe e.boundary n e.sample with
        | .error fault => .error fault { s with sites := t }
        | .ok f => .ok () (s.took e t f) := by
  have hfinished : s.isFinished = false := by rw [isFinished, hfinal]; rfl
  rw [record, hfinished, h, if_neg Bool.false_ne_true, if_neg Bool.false_ne_true, add_eq]
  cases s.sites.number e.site with
  | error fault => rfl
  | ok r =>
    obtain ⟨n, t⟩ := r
    simp only
    cases s.forest.observe e.boundary n e.sample <;> rfl

/-- A number that a table gives to a site is that of the event in every later table. -/
theorem crossing_eq_of_extends {t t' : Site.Table} {n : Nat} (hn : t.numbers[e.site]? = some n)
    (h : t.Extends t') : e.crossing t' = ⟨e.boundary, n, e.sample⟩ := by
  rw [Event.crossing, h e.site n hn, Option.getD_some]

/-- **Recording is numbering the sites and feeding the forest**, the numbers being those of the
table at the end. -/
theorem exists_recordAll_iff (hfinal : s.final = none) (es : List Event) (t : Site.Table)
    (f : Forest) :
    (∃ s', s.recordAll es = .ok () s' ∧ s'.sites = t ∧ s'.forest = f) ↔
      s.sites.numberAll ((taken s.skipsSynthetic es).map Event.site) = .ok t ∧
        ((taken s.skipsSynthetic es).map (Event.crossing t)).foldlM Forest.feed s.forest =
          .ok f := by
  induction es generalizing s with
  | nil =>
    have hrec : s.recordAll [] = .ok () s := rfl
    have hnumber : s.sites.numberAll [] = .ok s.sites := rfl
    have hfeed : [].foldlM Forest.feed s.forest = .ok s.forest := rfl
    simp [taken, hrec, hnumber, hfeed]
  | cons e es ih =>
    cases hpass : s.skipsSynthetic && e.site.isSynthetic with
    | true =>
      have hrec : s.recordAll (e :: es) = { s with tally := s.tally.skip }.recordAll es := by
        rw [recordAll, record_of_passed hfinal hpass]
      have htaken : taken s.skipsSynthetic (e :: es) = taken s.skipsSynthetic es :=
        List.filter_cons_of_neg (by simp [hpass])
      rw [hrec, htaken]
      exact ih (s := { s with tally := s.tally.skip }) hfinal
    | false =>
      have htaken : taken s.skipsSynthetic (e :: es) = e :: taken s.skipsSynthetic es :=
        List.filter_cons_of_pos (by simp [hpass])
      rw [htaken, List.map_cons, List.map_cons, Site.Table.numberAll, recordAll,
        record_eq hfinal hpass]
      cases hn : s.sites.number e.site with
      | error fault => simp
      | ok r =>
        obtain ⟨n, t₁⟩ := r
        obtain ⟨hnumber, hext, -⟩ := Site.Table.number_spec hn
        -- The table at the end gives the event the number that it got here.
        have hcrossing : ∀ {ss}, t₁.numberAll ss = .ok t →
            e.crossing t = ⟨e.boundary, n, e.sample⟩ := fun hss =>
          crossing_eq_of_extends hnumber (Site.Table.numberAll_spec hss).2.1
        dsimp only
        cases ho : s.forest.observe e.boundary n e.sample with
        | error fault =>
          have hfeed : s.forest.feed ⟨e.boundary, n, e.sample⟩ = .error fault := ho
          simp only [reduceCtorEq, false_and, exists_false, false_iff, not_and]
          intro hss hf
          rw [hcrossing hss, List.foldlM_cons, hfeed] at hf
          cases hf
        | ok f₁ =>
          have hfeed : s.forest.feed ⟨e.boundary, n, e.sample⟩ = .ok f₁ := ho
          refine (ih (s := s.took e t₁ f₁) hfinal).trans (and_congr_right fun hss => ?_)
          rw [hcrossing hss, History.foldlM_cons_of_eq_ok hfeed]
          rfl

theorem exists_recordAll_start_iff (rule : Option Retention) (skipsSynthetic : Bool)
    (initial : Sample) (es : List Event) (t : Site.Table) (f : Forest) :
    (∃ s, (start rule skipsSynthetic initial).recordAll es = .ok () s ∧ s.sites = t ∧
        s.forest = f) ↔
      Site.Table.empty.numberAll ((taken skipsSynthetic es).map Event.site) = .ok t ∧
        ((taken skipsSynthetic es).map (Event.crossing t)).foldlM Forest.feed (.empty rule) =
          .ok f :=
  exists_recordAll_iff rfl es t f

theorem taken_false (es : List Event) : taken false es = es :=
  List.filter_eq_self.2 fun _ _ => rfl

theorem mem_taken_true {es : List Event} :
    e ∈ taken true es ↔ e ∈ es ∧ e.site.isSynthetic = false := by
  simp [taken]

end Session

end CallForest
