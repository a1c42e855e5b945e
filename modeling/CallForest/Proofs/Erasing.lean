import CallForest.Proofs.Freezing

/-!
# Passing over is erasing

A session that passes over the events of synthetic sites counts them and does nothing else with
them.  So it goes through the same states as a session that passes over nothing and is never given
these events to record: the two differ in the setting and in that one count.

* `Session.transcript`: the operations on a session, each with what becomes of it;
* `Session.perform_unskipped`: an operation that is not passed over does the same to both sessions;
* `Session.run_unskipped`, `Session.transcript_unskipped`: so do several operations, once those that
  are passed over are erased;
* `Session.tally_after`: what an operation counts;
* `Session.answers_passed_over`: what is passed over comes before the end, and succeeds;
* `Session.run_passing_over`: the two sessions side by side.
-/

namespace CallForest

/-- The operation records an event of a synthetic site. -/
def Operation.recordsSynthetic : Operation → Bool
  | record e => e.site.isSynthetic
  | add _ | finish _ => false

/-- The tally after an operation that succeeded: what is recorded counts as passed over or at its
boundary. -/
def Tally.count (t : Tally) (skipsSynthetic : Bool) : Operation → Tally
  | .record e => if skipsSynthetic && e.site.isSynthetic then t.skip else t.add e.boundary
  | .add _ | .finish _ => t

/-- An operation together with what became of it. -/
structure Operation.Outcome where
  operation : Operation
  answer : Except Fault (Option Nat)

namespace Operation.Outcome

/-- The operation finished the session. -/
def finished : Outcome → Bool
  | ⟨.finish _, .ok _⟩ => true
  | _ => false

/-- The operation was to record an event of a synthetic site. -/
def ofSynthetic (o : Outcome) : Bool := o.operation.recordsSynthetic

theorem ofSynthetic_of_finished {o : Outcome} (h : o.finished = true) : o.ofSynthetic = false := by
  obtain ⟨e | e | sample, answer⟩ := o
  · cases h
  · rfl
  · rfl

end Operation.Outcome

namespace Session

/-- The operations on a session, each with what becomes of it. -/
def transcript (s : Session) (ops : List Operation) : List Operation.Outcome :=
  ops.zipWith Operation.Outcome.mk (s.answers ops)

/-- The session as one that passes over nothing and never has. -/
def unskipped (s : Session) : Session :=
  { s with skipsSynthetic := false, tally := { s.tally with skipped := 0 } }

/-- The result with the session after it unskipped. -/
def unskipResult {α : Type} :
    EStateM.Result Fault Session α → EStateM.Result Fault Session α
  | .ok a s => .ok a s.unskipped
  | .error fault s => .error fault s.unskipped

variable {s : Session} {op : Operation}

theorem transcript_cons (s : Session) (op : Operation) (ops : List Operation) :
    s.transcript (op :: ops) = ⟨op, s.answer op⟩ :: (s.after op).transcript ops := rfl

/-! ### One operation -/

/-- Adding an event looks neither at the setting nor at the tally. -/
theorem add_unskipped (s : Session) (e : Event) :
    s.unskipped.add e = unskipResult (s.add e) := by
  simp only [add_eq, unskipped]
  rcases s.sites.number e.site with fault | ⟨n, t⟩
  · rfl
  · dsimp only
    rcases s.forest.observe e.boundary n e.sample with fault | f <;> rfl

theorem unskipped_count (s : Session) (b : Boundary) :
    ({ s with tally := s.tally.add b } : Session).unskipped =
      { s.unskipped with tally := s.unskipped.tally.add b } := by
  rcases b with _ | _ <;> rfl

/-- **An operation that is not passed over does the same to both sessions.** -/
theorem perform_unskipped (s : Session) (hop : op.recordsSynthetic = false) :
    s.unskipped.perform op = unskipResult (s.perform op) := by
  have hadd : ∀ e, s.unskipped.perform (.add e) = unskipResult (s.perform (.add e)) := by
    intro e
    simp only [perform, add_unskipped]
    rcases s.add e with ⟨n, s'⟩ | ⟨fault, s'⟩ <;> rfl
  rcases op with e | e | sample
  · have hsite : e.site.isSynthetic = false := hop
    rw [perform_record, perform_record, hadd, hsite, Bool.and_false, Bool.and_false]
    by_cases hfinished : s.isFinished = true
    · have hunskipped : s.unskipped.isFinished = true := hfinished
      rw [if_pos hfinished, if_pos hunskipped]
      rfl
    · have hunskipped : ¬s.unskipped.isFinished = true := hfinished
      rw [if_neg hfinished, if_neg hunskipped, if_neg Bool.false_ne_true, if_neg Bool.false_ne_true]
      rcases s.perform (.add e) with ⟨n, s'⟩ | ⟨fault, s'⟩
      · exact congrArg _ (unskipped_count s' e.boundary).symm
      · rfl
  · exact hadd e
  · have hopen : s.unskipped.forest.isOpen = s.forest.isOpen := rfl
    simp only [perform, finish, hopen]
    by_cases h : s.forest.isOpen = true
    · rw [if_pos h, if_pos h]
      rfl
    · rw [if_neg h, if_neg h]
      rfl

theorem after_unskipped (s : Session) (hop : op.recordsSynthetic = false) :
    s.unskipped.after op = (s.after op).unskipped := by
  rw [after, perform_unskipped s hop, after]
  rcases s.perform op with ⟨n, s'⟩ | ⟨fault, s'⟩ <;> rfl

theorem answer_unskipped (s : Session) (hop : op.recordsSynthetic = false) :
    s.unskipped.answer op = s.answer op := by
  rw [answer, perform_unskipped s hop, answer]
  rcases s.perform op with ⟨n, s'⟩ | ⟨fault, s'⟩ <;> rfl

/-- All that becomes of an operation that is passed over. -/
theorem perform_of_recordsSynthetic (hskips : s.skipsSynthetic = true)
    (hop : op.recordsSynthetic = true) :
    s.perform op =
      if s.isFinished then .error .recordAfterFinish s
      else .ok none { s with tally := s.tally.skip } := by
  rcases op with e | e | sample
  · have hsite : e.site.isSynthetic = true := hop
    rw [perform_record, hskips, hsite]
    rfl
  · cases hop
  · cases hop

theorem unskipped_after_of_recordsSynthetic (hskips : s.skipsSynthetic = true)
    (hop : op.recordsSynthetic = true) : (s.after op).unskipped = s.unskipped := by
  rw [after, perform_of_recordsSynthetic hskips hop]
  by_cases hfinished : s.isFinished = true
  · rw [if_pos hfinished]
  · rw [if_neg hfinished]
    rfl

/-- Recording an event changes neither the setting nor the end. -/
theorem exists_after_record (s : Session) (e : Event) :
    ∃ sites forest tally least greatest,
      s.after (.record e) = { s with sites, forest, tally, least, greatest } := by
  obtain ⟨_, _, _, _, hadd⟩ := exists_after_add s e
  rw [after] at hadd ⊢
  rw [perform_record]
  by_cases hfinished : s.isFinished = true
  · rw [if_pos hfinished]
    exact ⟨_, _, _, _, _, rfl⟩
  · rw [if_neg hfinished]
    by_cases hpass : (s.skipsSynthetic && e.site.isSynthetic) = true
    · rw [if_pos hpass]
      exact ⟨_, _, _, _, _, rfl⟩
    · rw [if_neg hpass]
      rcases h : s.perform (.add e) with ⟨n, s'⟩ | ⟨fault, s'⟩ <;> rw [h] at hadd <;>
        simp only at hadd <;> rw [hadd] <;> exact ⟨_, _, _, _, _, rfl⟩

theorem skipsSynthetic_after (s : Session) (op : Operation) :
    (s.after op).skipsSynthetic = s.skipsSynthetic := by
  rcases op with e | e | sample
  · obtain ⟨_, _, _, _, _, h⟩ := exists_after_record s e
    rw [h]
  · obtain ⟨_, _, _, _, h⟩ := exists_after_add s e
    rw [h]
  · rw [after_finish]
    split_ifs <;> rfl

/-- An operation finishes a session just if it was to do so and succeeds. -/
theorem isFinished_after (hfinished : s.isFinished = false) (op : Operation) :
    (s.after op).isFinished = Operation.Outcome.finished ⟨op, s.answer op⟩ := by
  rcases op with e | e | sample
  · exact (isFinished_after_record s e).trans hfinished
  · obtain ⟨_, _, _, _, h⟩ := exists_after_add s e
    rw [h]
    exact hfinished
  · simp only [after, answer, perform, finish]
    by_cases hopen : s.forest.isOpen = true
    · rw [if_pos hopen]
      exact hfinished
    · rw [if_neg hopen]
      rfl

/-- **The tally counts what succeeds in being recorded**, and nothing else. -/
theorem tally_after (s : Session) (op : Operation) :
    (s.after op).tally =
      match s.answer op with
      | .ok _ => s.tally.count s.skipsSynthetic op
      | .error _ => s.tally := by
  have hadd : ∀ e, (s.after (.add e)).tally = s.tally := by
    intro e
    obtain ⟨_, _, _, _, h⟩ := exists_after_add s e
    rw [h]
  have hperformed := s.performed op
  rw [after, answer]
  generalize s.perform op = r at hperformed
  cases hperformed with
  | late => rfl
  | passed _ passes => exact (if_pos passes).symm
  | @refused _ e _ _ _ add => rw [← hadd e, after, perform, add]; rfl
  | @recorded e _ _ _ takes add =>
    have htally := hadd e
    rw [after, perform, add] at htally
    rw [Tally.count, takes, if_neg Bool.false_ne_true]
    exact congrArg (·.add e.boundary) htally
  | @added e _ _ add => rw [Tally.count, ← hadd e, after, perform, add]; rfl
  | inside => rfl
  | finished => rfl

/-- Until a session is finished, every operation that is passed over succeeds and is counted. -/
theorem skipped_after (hskips : s.skipsSynthetic = true) (hfinished : s.isFinished = false)
    (op : Operation) :
    (s.after op).tally.skipped = s.tally.skipped + (if op.recordsSynthetic then 1 else 0) ∧
      (op.recordsSynthetic = true → s.answer op = .ok none) := by
  have htally := tally_after s op
  by_cases hop : op.recordsSynthetic = true
  · have hanswer : s.answer op = .ok none := by
      rw [answer, perform_of_recordsSynthetic hskips hop, hfinished]
      rfl
    refine ⟨?_, fun _ => hanswer⟩
    rw [after, perform_of_recordsSynthetic hskips hop, hfinished, if_pos hop]
    rfl
  · refine ⟨?_, fun h => absurd h hop⟩
    have hcount : (s.tally.count s.skipsSynthetic op).skipped = s.tally.skipped := by
      rcases op with ⟨b, site, sample⟩ | e | sample
      · have hsite : site.isSynthetic = false := Bool.eq_false_iff.2 hop
        rw [Tally.count, hsite, Bool.and_false, if_neg Bool.false_ne_true]
        rcases b with _ | _ <;> rfl
      · rfl
      · rfl
    rw [htally, if_neg hop]
    rcases s.answer op with fault | n
    · rfl
    · exact hcount

/-! ### Several operations -/

theorem run_unskipped (hskips : s.skipsSynthetic = true) (ops : List Operation) :
    s.unskipped.run (ops.filter fun op => !op.recordsSynthetic) = (s.run ops).unskipped := by
  induction ops generalizing s with
  | nil => rfl
  | cons op ops ih =>
    have hafter := (skipsSynthetic_after s op).trans hskips
    rw [run, ← ih hafter]
    by_cases hop : op.recordsSynthetic = true
    · rw [List.filter_cons_of_neg (by simp [hop]), unskipped_after_of_recordsSynthetic hskips hop]
    · rw [Bool.not_eq_true] at hop
      rw [List.filter_cons_of_pos (by simp [hop]), run, after_unskipped s hop]

theorem transcript_unskipped (hskips : s.skipsSynthetic = true) (ops : List Operation) :
    s.unskipped.transcript (ops.filter fun op => !op.recordsSynthetic) =
      (s.transcript ops).filter fun o => !o.ofSynthetic := by
  induction ops generalizing s with
  | nil => rfl
  | cons op ops ih =>
    have hafter := (skipsSynthetic_after s op).trans hskips
    rw [transcript_cons, List.filter_cons, List.filter_cons, ← ih hafter,
      Operation.Outcome.ofSynthetic]
    by_cases hop : op.recordsSynthetic = true
    · rw [if_neg (by simp [hop]), if_neg (by simp [hop]),
        unskipped_after_of_recordsSynthetic hskips hop]
    · rw [Bool.not_eq_true] at hop
      rw [if_pos (by simp [hop]), if_pos (by simp [hop]), transcript_cons, answer_unskipped s hop,
        after_unskipped s hop]

/-- A finished session counts nothing more. -/
theorem tally_run_of_isFinished (hfinished : s.isFinished = true) (ops : List Operation) :
    (s.run ops).tally = s.tally := by
  obtain ⟨sample, hfinal⟩ := Option.isSome_iff_exists.1 hfinished
  have hs : s = s.withFinal (some sample) := by rw [withFinal, ← hfinal]
  obtain ⟨last, hrun⟩ := exists_run_withFinal s sample ops
  rw [← hs] at hrun
  rw [hrun]
  exact tally_run_of_adds s fun op hop => (List.mem_filter.1 hop).2

/-- **What is passed over are the operations to record synthetic events that come before the end**,
and they all succeed. -/
theorem answers_passed_over (hskips : s.skipsSynthetic = true) (hfinished : s.isFinished = false)
    (ops : List Operation) :
    ∃ n, (s.run ops).tally.skipped = s.tally.skipped + n ∧
      (((s.transcript ops).takeWhile (!·.finished)).filter (·.ofSynthetic)).map (·.answer) =
        List.replicate n (.ok none) := by
  induction ops generalizing s with
  | nil => exact ⟨0, rfl, rfl⟩
  | cons op ops ih =>
    obtain ⟨hskipped, hanswer⟩ := skipped_after hskips hfinished op
    have hafter := isFinished_after hfinished op
    have hskips' := (skipsSynthetic_after s op).trans hskips
    rw [run, transcript_cons, List.takeWhile_cons]
    by_cases hend : Operation.Outcome.finished ⟨op, s.answer op⟩ = true
    · have hop : op.recordsSynthetic = false :=
        Operation.Outcome.ofSynthetic_of_finished (o := ⟨op, s.answer op⟩) hend
      rw [hend] at hafter
      refine ⟨0, ?_, ?_⟩
      · rw [tally_run_of_isFinished hafter, hskipped, hop]
        rfl
      · rw [hend]
        rfl
    · rw [Bool.not_eq_true] at hend
      obtain ⟨n, hn, hanswers⟩ := ih hskips' (hafter.trans hend)
      rw [hend, hn, hskipped, Bool.not_false, if_pos rfl, List.filter_cons]
      by_cases hop : op.recordsSynthetic = true
      · rw [if_pos hop, if_pos (by exact hop), List.map_cons, hanswers, hanswer hop]
        exact ⟨n + 1, by omega, List.replicate_succ.symm⟩
      · rw [if_neg hop, if_neg (by exact hop)]
        exact ⟨n, rfl, hanswers⟩

/-- **Passing over is erasing.**  Take a session that passes over the events of synthetic sites, and
erase the operations that were to record such events.  A session that passes over nothing answers
the operations that are left in the same way and ends in the same state, but for the setting and the
number of events passed over.  That number is how many of the erased operations came before the
session was first finished, and each of these succeeded. -/
theorem run_passing_over (rule : Option Retention) (initial : Sample) (ops : List Operation) :
    let passing := start rule true initial
    let keeping := start rule false initial
    let kept := ops.filter fun op => !op.recordsSynthetic
    let before := (passing.transcript ops).takeWhile (!·.finished)
    keeping.transcript kept = (passing.transcript ops).filter (!·.ofSynthetic) ∧
    keeping.run kept = (passing.run ops).unskipped ∧
    (before.filter (·.ofSynthetic)).map (·.answer) =
      List.replicate (passing.run ops).tally.skipped (.ok none) := by
  intro passing keeping kept before
  obtain ⟨n, hskipped, hanswers⟩ := answers_passed_over (s := passing) rfl rfl ops
  have hn : (passing.run ops).tally.skipped = n := hskipped.trans (Nat.zero_add n)
  exact ⟨transcript_unskipped (s := passing) rfl ops, run_unskipped (s := passing) rfl ops,
    by rw [hn]; exact hanswers⟩

/-- A return at a site without a line, while nothing is open: synthetic, it is passed over until the
session is finished. -/
example :
    let stray : Operation := .record ⟨.leave, ⟨"<stdin>", "f", 0⟩, .zero⟩
    (start none true .zero).answers [stray, .finish .zero, stray] =
      [.ok none, .ok none, .error .recordAfterFinish] :=
  rfl

end Session

end CallForest
