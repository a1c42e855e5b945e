import CallForest.Proofs.Operations

/-!
# Finished sessions

Once a session is finished, nothing more is recorded.  Events can still be added past the record,
and an added event is taken in as if the session were not finished; so a finished session is closed
and stays as it is until an event is added, and no longer.

* `Session.after_add_withFinal`, `Session.exists_after_add`: adding an event does not look at the
  end of a session, and what it changes;
* `Session.exists_run_withFinal`: of the operations on a finished session only the added events
  change more than the sample at its end;
* `Session.exists_finish_of_isFinished`: a session is finished by the first operation that can do
  so;
* `Session.frozen_until_added`: what a session was when it was finished, and what it can become;
* `Session.finished_open_after_add`: a finished session that is open again.
-/

namespace CallForest

/-- The operation adds an event past the record. -/
def Operation.adds : Operation → Bool
  | add _ => true
  | record _ | finish _ => false

namespace Session

/-- The session with another sample at its end. -/
def withFinal (s : Session) (final : Option Sample) : Session := { s with final }

@[simp] theorem isFinished_withFinal (s : Session) (sample : Sample) :
    (s.withFinal (some sample)).isFinished = true := rfl

/-! ### One operation -/

/-- Adding an event does not look at the end of a session. -/
theorem after_add_withFinal (s : Session) (final : Option Sample) (e : Event) :
    (s.withFinal final).after (.add e) = (s.after (.add e)).withFinal final := by
  simp only [after, perform, add_eq, withFinal]
  cases s.sites.number e.site with
  | error fault => rfl
  | ok r =>
    obtain ⟨n, t⟩ := r
    dsimp only
    cases s.forest.observe e.boundary n e.sample <;> rfl

/-- Adding an event changes nothing but the numbers, the forest and the extremes. -/
theorem exists_after_add (s : Session) (e : Event) :
    ∃ sites forest least greatest,
      s.after (.add e) = { s with sites, forest, least, greatest } := by
  simp only [after, perform, add_eq]
  cases s.sites.number e.site with
  | error fault => exact ⟨_, _, _, _, rfl⟩
  | ok r =>
    obtain ⟨n, t⟩ := r
    dsimp only
    cases s.forest.observe e.boundary n e.sample <;> exact ⟨_, _, _, _, rfl⟩

theorem after_record_of_isFinished {s : Session} (h : s.isFinished = true) (e : Event) :
    s.after (.record e) = s := by
  rw [after, perform_record, if_pos h]

theorem isFinished_after_record (s : Session) (e : Event) :
    (s.after (.record e)).isFinished = s.isFinished := by
  obtain ⟨_, _, _, _, hadd⟩ := exists_after_add s e
  rw [after] at hadd ⊢
  rw [perform_record]
  by_cases hfinished : s.isFinished = true
  · rw [if_pos hfinished]
  · rw [if_neg hfinished]
    by_cases hpass : (s.skipsSynthetic && e.site.isSynthetic) = true
    · rw [if_pos hpass]
      rfl
    · rw [if_neg hpass]
      cases h : s.perform (.add e) <;> simp only [h] at hadd <;> rw [hadd] <;> rfl

theorem after_finish (s : Session) (sample : Sample) :
    s.after (.finish sample) = if s.forest.isOpen then s else s.withFinal (some sample) := by
  simp only [after, perform, finish]
  cases s.forest.isOpen <;> rfl

/-! ### Several operations -/

theorem run_append (s : Session) (ops ops' : List Operation) :
    s.run (ops ++ ops') = (s.run ops).run ops' := by
  induction ops generalizing s with
  | nil => rfl
  | cons op ops ih => exact ih (s.after op)

/-- Adding events counts nothing. -/
theorem tally_run_of_adds (s : Session) {ops : List Operation} (h : ∀ op ∈ ops, op.adds = true) :
    (s.run ops).tally = s.tally := by
  induction ops generalizing s with
  | nil => rfl
  | cons op ops ih =>
    obtain ⟨hop, hops⟩ := List.forall_mem_cons.1 h
    cases op with
    | add e =>
      obtain ⟨_, _, _, _, hadd⟩ := exists_after_add s e
      exact (ih (s.after (.add e)) hops).trans (by rw [hadd])
    | record e => cases hop
    | finish sample => cases hop

/-- Of the operations on a finished session only the added events change more than the sample at
its end. -/
theorem exists_run_withFinal (s : Session) (sample : Sample) (ops : List Operation) :
    ∃ last, (s.withFinal (some sample)).run ops =
      (s.run (ops.filter Operation.adds)).withFinal (some last) := by
  induction ops generalizing s sample with
  | nil => exact ⟨sample, rfl⟩
  | cons op ops ih =>
    rw [run]
    cases op with
    | add e =>
      rw [after_add_withFinal, List.filter_cons_of_pos rfl]
      exact ih (s.after (.add e)) sample
    | record e =>
      rw [after_record_of_isFinished (isFinished_withFinal s sample),
        List.filter_cons_of_neg Bool.false_ne_true]
      exact ih s sample
    | finish sample' =>
      rw [after_finish, List.filter_cons_of_neg Bool.false_ne_true]
      split
      · exact ih s sample
      · exact ih s sample'

/-- A session is finished by the first operation that can do so. -/
theorem exists_finish_of_isFinished {s : Session} (h : s.isFinished = false) {ops : List Operation}
    (hrun : (s.run ops).isFinished = true) :
    ∃ before sample later, ops = before ++ .finish sample :: later ∧
      (s.run before).isFinished = false ∧ (s.run before).forest.isOpen = false := by
  induction ops generalizing s with
  | nil =>
    rw [run, h] at hrun
    cases hrun
  | cons op ops ih =>
    by_cases hafter : (s.after op).isFinished = true
    · -- This is the operation: adding and recording leave the end alone.
      cases op with
      | add e =>
        obtain ⟨_, _, _, _, hadd⟩ := exists_after_add s e
        rw [hadd] at hafter
        cases h.symm.trans hafter
      | record e =>
        rw [isFinished_after_record] at hafter
        cases h.symm.trans hafter
      | finish sample =>
        refine ⟨[], sample, ops, rfl, h, ?_⟩
        rw [after_finish] at hafter
        by_cases hopen : s.forest.isOpen = true
        · rw [if_pos hopen] at hafter
          cases h.symm.trans hafter
        · exact Bool.eq_false_iff.2 hopen
    · obtain ⟨before, sample, later, rfl, hbefore⟩ := ih (by simpa using hafter) hrun
      exact ⟨op :: before, sample, later, rfl, hbefore⟩

/-- **A finished session is frozen until an event is added to it.**  However a session came to be
finished, there is the operation that finished it first, when no activation was open.  From then on
the numbers of sites, the forest, the tally and the extremes are those that the events added later
make of the session at that point, and the tally is not changed by them either.  So as long as no
event is added, the forest is closed and all of this stays the same. -/
theorem frozen_until_added (rule : Option Retention) (skipsSynthetic : Bool) (initial : Sample)
    (ops : List Operation) (h : ((start rule skipsSynthetic initial).run ops).isFinished = true) :
    ∃ before sample later, ops = before ++ .finish sample :: later ∧
      let s := (start rule skipsSynthetic initial).run before
      let s' := (start rule skipsSynthetic initial).run ops
      s.isFinished = false ∧ s.forest.isOpen = false ∧
      (∃ last, s' = (s.run (later.filter Operation.adds)).withFinal (some last)) ∧
      s'.tally = s.tally ∧
      ((∀ e, .add e ∉ later) →
        s'.forest.isOpen = false ∧ ∃ last, s' = s.withFinal (some last)) := by
  obtain ⟨before, sample, later, rfl, hfinished, hopen⟩ :=
    exists_finish_of_isFinished (s := start rule skipsSynthetic initial) rfl h
  refine ⟨before, sample, later, rfl, hfinished, hopen, ?_⟩
  set s := (start rule skipsSynthetic initial).run before with hs
  obtain ⟨last, hlast⟩ := exists_run_withFinal s sample later
  have hrun : (start rule skipsSynthetic initial).run (before ++ .finish sample :: later) =
      (s.run (later.filter Operation.adds)).withFinal (some last) := by
    rw [run_append, ← hs, run, after_finish, hopen]
    exact hlast
  rw [hrun]
  refine ⟨⟨last, rfl⟩, ?_, fun hnone => ?_⟩
  · exact tally_run_of_adds s fun op hop => (List.mem_filter.1 hop).2
  · have hfilter : later.filter Operation.adds = [] := by
      rw [List.filter_eq_nil_iff]
      intro op hop hadds
      cases op with
      | add e => exact hnone e hop
      | record e => cases hadds
      | finish sample => cases hadds
    rw [hfilter]
    exact ⟨hopen, last, rfl⟩

/-- A session to which an event is added when it is finished; after that it refuses to record and,
being open, to be finished again. -/
theorem frozen_until_late_call :
    let late : Event := ⟨.enter, ⟨"app.py", "late", 7⟩, ⟨.zero, 5⟩⟩
    let s := start none true .zero
    let ops := [.finish .zero, .add late, .record late, .finish ⟨.zero, 9⟩]
    (s.run ops).isFinished = true ∧
      ∃ before sample later, ops = before ++ .finish sample :: later ∧
        (s.run before).isFinished = false ∧ (s.run before).forest.isOpen = false ∧
        (∃ last, s.run ops =
          ((s.run before).run (later.filter Operation.adds)).withFinal (some last)) ∧
        (s.run ops).tally = (s.run before).tally := by
  intro late s ops
  have hfinished : (s.run ops).isFinished = true := by
    obtain ⟨last, hlast⟩ :=
      exists_run_withFinal s .zero [.add late, .record late, .finish ⟨.zero, 9⟩]
    change ((s.withFinal (some .zero)).run _).isFinished = true
    rw [hlast, isFinished_withFinal]
  obtain ⟨before, sample, later, hops, hbefore, hopen, hrun, htally, -⟩ :=
    frozen_until_added none true .zero ops hfinished
  exact ⟨hfinished, before, sample, later, hops, hbefore, hopen, hrun, htally⟩

/-- An event added to a finished session opens it again, and the forest, the table of sites and the
extremes are no longer those that it was finished with. -/
theorem finished_open_after_add :
    let late : Event := ⟨.enter, ⟨"app.py", "late", 7⟩, ⟨.zero, 5⟩⟩
    let s := (start none true .zero).run [.finish .zero]
    let s' := (start none true .zero).run [.finish .zero, .add late]
    s.isFinished = true ∧ s'.isFinished = true ∧ s.forest.isOpen = false ∧ s'.forest.isOpen = true ∧
      s'.forest.roots ≠ s.forest.roots ∧ s'.sites.size ≠ s.sites.size ∧ s'.least ≠ s.least ∧
      s'.greatest ≠ s.greatest := by
  intro late s s'
  let t : Site.Table := ⟨Site.Table.empty.numbers.insert late.site 0, #[late.site]⟩
  let f : Forest := ⟨[.enter 0 late.sample], none, 0⟩
  have hnumber : Site.Table.empty.number late.site = .ok (0, t) := by
    simp [t, late, Site.Table.number, Site.Table.empty]
  have hadd : s.add late = .ok 0 ({ s with sites := t, forest := f }.widen late.sample) := by
    have hs : s.sites.number late.site = .ok (0, t) := hnumber
    simp only [add_eq, hs]
    rfl
  have hs' : s' = { s with sites := t, forest := f }.widen late.sample := by
    change s.after (.add late) = _
    rw [after, perform, hadd]
    rfl
  have hsize : t.size ≠ s.sites.size := by
    change t.size ≠ Site.Table.empty.size
    simp [t, Site.Table.size, Site.Table.empty, Std.HashMap.size_insert]
  rw [hs']
  exact ⟨rfl, rfl, rfl, rfl, List.cons_ne_nil _ _, hsize, Option.some_ne_none _,
    Option.some_ne_none _⟩

end Session

end CallForest
