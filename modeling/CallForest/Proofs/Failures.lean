import CallForest.Proofs.Operations
import CallForest.Proofs.Renumbering

/-!
# What failed operations leave

An operation that fails changes nothing of a session but the numbers of sites: the site of an event
that the forest refused may have got one.  Two sessions that differ in such numbers take in the same
events later on and answer alike, so a failed operation can be seen in the numbers only.

* `Session.Renumbered`: two sessions are equal up to a renumbering of the sites;
* `Session.parallel_perform`: an operation does the same to two sessions that are alike;
* `Session.renumbered_of_error`: what a failed operation leaves, and what comes of it later.
-/

namespace CallForest

namespace Session

/-- An answer with other numbers. -/
def renumberAnswer (ρ : Nat → Nat) : Except Fault (Option Nat) → Except Fault (Option Nat)
  | .ok n => .ok (n.map ρ)
  | .error fault => .error (fault.renumber ρ)

/-- Two sessions are equal up to a renumbering of the sites: what has a number in the first has that
number in the second, renumbered, and so have the trees. -/
structure Renumbered (ρ : Nat → Nat) (s s' : Session) : Prop where
  sites : ∀ n site, s.sites.site? n = .ok site → s'.sites.site? (ρ n) = .ok site
  roots : s'.forest.roots = Invocation.renumberAll ρ s.forest.roots
  rest : s' = { s with
    sites := s'.sites
    forest := { s.forest with roots := s'.forest.roots } }

/-- Two sessions that one chronicle tells and that differ in nothing else, the second having numbers
for all sites of the first. -/
structure Alike (s s' : Session) : Prop where
  told : ∃ c : Chronicle, c.Tells s.sites s.forest ∧ c.Tells s'.sites s'.forest
  rule : s'.forest.rule = s.forest.rule
  covered : s.sites.Covered s'.sites
  rest : s' = { s with sites := s'.sites, forest := s'.forest }

variable {s s' : Session} {ρ : Nat → Nat}

theorem Alike.renumbered (h : Alike s s') (hρ : Site.Table.Leads ρ s.sites s'.sites) :
    Renumbered ρ s s' := by
  obtain ⟨c, htells, htells'⟩ := h.told
  have hsites : ∀ n site, s.sites.site? n = .ok site → s'.sites.site? (ρ n) = .ok site :=
    fun n site => hρ.site?_eq htells.consistent htells'.consistent h.covered
  have hdropped : s'.forest.droppedCount = s.forest.droppedCount :=
    htells'.droppedCount_eq.trans htells.droppedCount_eq.symm
  have hforest : s'.forest = ⟨s'.forest.roots, s.forest.rule, s.forest.droppedCount⟩ := by
    rw [← h.rule, ← hdropped]
  refine ⟨hsites, ?_, ?_⟩
  · exact Invocation.eq_renumberAll htells'.consistent hsites htells.locateAll_roots
      htells'.locateAll_roots
  · rw [← hforest]
    exact h.rest

/-! ### One operation -/

/-- Results that differ in the numbers of sites only. -/
inductive Parallel : EStateM.Result Fault Session (Option Nat) →
    EStateM.Result Fault Session (Option Nat) → Prop where
  | ok {s s' : Session} {n n' : Option Nat} (alike : Alike s s')
      (number : ∀ ρ, Site.Table.Leads ρ s.sites s'.sites → n' = n.map ρ) :
      Parallel (.ok n s) (.ok n' s')
  | error {s s' : Session} {fault fault' : Fault} (alike : Alike s s')
      (renumber : ∀ ρ, Site.Table.Leads ρ s.sites s'.sites → fault' = fault.renumber ρ) :
      Parallel (.error fault s) (.error fault' s')

theorem parallel_add (h : Alike s s') (e : Event) :
    Parallel (s.perform (.add e)) (s'.perform (.add e)) := by
  simp only [perform]
  by_cases hline : e.site.line = 0
  · rw [add_of_noLine hline, add_of_noLine hline]
    exact .error h fun _ _ => rfl
  · obtain ⟨c, htells, htells'⟩ := h.told
    obtain ⟨⟨n, t⟩, hn⟩ := (s.sites.exists_number_iff e.site).2 hline
    obtain ⟨⟨n', t'⟩, hn'⟩ := (s'.sites.exists_number_iff e.site).2 hline
    have hcovered : t.Covered t' := h.covered.number hn hn'
    have hnt := (Site.Table.number_spec hn).1
    have hnt' := (Site.Table.number_spec hn').1
    -- One chronicle tells both, so both take the event in or both refuse it.
    cases hc : c.observe s.forest.rule e with
    | error r =>
      have hc' : c.observe s'.forest.rule e = .error r := by rw [h.rule, hc]
      rw [add_of_refused htells hn hc, add_of_refused htells' hn' hc']
      refine .error ⟨⟨c, htells.number hn, htells'.number hn'⟩, h.rule, hcovered, ?_⟩
        fun ρ hρ => Refusal.fault_eq_renumber hρ hcovered
          ((htells.number hn).exists_number_of_refused hnt hc)
      rw [h.rest]
    | ok c' =>
      have hc' : c.observe s'.forest.rule e = .ok c' := by rw [h.rule, hc]
      obtain ⟨f, hf, hrule, hadd⟩ := add_of_taken htells hn hc
      obtain ⟨f', hf', hrule', hadd'⟩ := add_of_taken htells' hn' hc'
      rw [hadd, hadd']
      refine .ok ⟨⟨c', hf, hf'⟩, hrule'.trans (h.rule.trans hrule.symm), hcovered, ?_⟩
        fun ρ hρ => congrArg some (hρ e.site n n' hnt hnt').symm
      rw [h.rest]
      rfl

theorem parallel_record (h : Alike s s') (e : Event) :
    Parallel (s.perform (.record e)) (s'.perform (.record e)) := by
  have hfinished : s'.isFinished = s.isFinished := by rw [h.rest]; rfl
  have hskips : s'.skipsSynthetic = s.skipsSynthetic := by rw [h.rest]
  rw [perform_record, perform_record, hfinished, hskips]
  split
  · exact .error h fun _ _ => rfl
  · split
    · refine .ok ⟨h.told, h.rule, h.covered, ?_⟩ fun _ _ => rfl
      rw [h.rest]
    · have hadd := parallel_add h e
      generalize s.perform (.add e) = r, s'.perform (.add e) = r' at hadd
      cases hadd with
      | error alike renumber => exact .error alike renumber
      | ok alike _ =>
        refine .ok ⟨alike.told, alike.rule, alike.covered, ?_⟩ fun _ _ => rfl
        rw [alike.rest]

/-- **An operation does the same to two sessions that are alike.** -/
theorem parallel_perform (h : Alike s s') (op : Operation) :
    Parallel (s.perform op) (s'.perform op) := by
  cases op with
  | record e => exact parallel_record h e
  | add e => exact parallel_add h e
  | finish sample =>
    obtain ⟨c, htells, htells'⟩ := h.told
    have hopen : s'.forest.isOpen = s.forest.isOpen := by
      rw [Bool.eq_iff_iff, htells.isOpen_iff, htells'.isOpen_iff]
    simp only [perform, finish, hopen]
    cases s.forest.isOpen with
    | true => exact .error h fun _ _ => rfl
    | false =>
      refine .ok ⟨h.told, h.rule, h.covered, ?_⟩ fun _ _ => rfl
      rw [h.rest]

theorem alike_after (h : Alike s s') (op : Operation) : Alike (s.after op) (s'.after op) := by
  have hparallel := parallel_perform h op
  rw [after, after]
  generalize s.perform op = r, s'.perform op = r' at hparallel
  cases hparallel with
  | ok alike _ => exact alike
  | error alike _ => exact alike

theorem answer_eq_renumber (h : Alike s s') {op : Operation}
    (hρ : Site.Table.Leads ρ (s.after op).sites (s'.after op).sites) :
    s'.answer op = renumberAnswer ρ (s.answer op) := by
  have hparallel := parallel_perform h op
  rw [after, after] at hρ
  rw [answer, answer]
  generalize s.perform op = r, s'.perform op = r' at hparallel hρ
  cases hparallel with
  | ok _ number => exact congrArg Except.ok (number ρ hρ)
  | error _ renumber => exact congrArg Except.error (renumber ρ hρ)

/-! ### Tables only grow -/

theorem extends_add (s : Session) (e : Event) :
    match s.add e with
    | .ok _ s' => s.sites.Extends s'.sites
    | .error _ s' => s.sites.Extends s'.sites := by
  rw [add_eq]
  cases hn : s.sites.number e.site with
  | error fault => exact .refl _
  | ok r =>
    obtain ⟨n, t⟩ := r
    have hext := (Site.Table.number_spec hn).2.1
    dsimp only
    cases s.forest.observe e.boundary n e.sample <;> exact hext

theorem extends_after (s : Session) (op : Operation) : s.sites.Extends (s.after op).sites := by
  have hperformed := s.performed op
  rw [after]
  generalize s.perform op = r at hperformed
  cases hperformed with
  | late => exact .refl _
  | passed => exact .refl _
  | @refused _ e _ _ _ add =>
    have hadd := extends_add s e
    rwa [add] at hadd
  | @recorded e _ _ _ _ add =>
    have hadd := extends_add s e
    rwa [add] at hadd
  | @added e _ _ add =>
    have hadd := extends_add s e
    rwa [add] at hadd
  | inside => exact .refl _
  | finished => exact .refl _

theorem extends_run (s : Session) (ops : List Operation) : s.sites.Extends (s.run ops).sites := by
  induction ops generalizing s with
  | nil => exact .refl _
  | cons op ops ih => exact (extends_after s op).trans (ih (s.after op))

/-! ### Several operations -/

theorem alike_run (h : Alike s s') (ops : List Operation) : Alike (s.run ops) (s'.run ops) := by
  induction ops generalizing s s' with
  | nil => exact h
  | cons op ops ih => exact ih (alike_after h op)

theorem answers_eq_renumber (h : Alike s s') {ops : List Operation}
    (hρ : Site.Table.Leads ρ (s.run ops).sites (s'.run ops).sites) :
    s'.answers ops = (s.answers ops).map (renumberAnswer ρ) := by
  induction ops generalizing s s' with
  | nil => rfl
  | cons op ops ih =>
    -- The numbers given out on the way are those of the tables at the end.
    have hafter := hρ.of_extends (extends_run (s.after op) ops) (extends_run (s'.after op) ops)
    rw [answers, answers, List.map_cons, answer_eq_renumber h hafter, ih (alike_after h op) hρ]

/-- **Sessions that are alike stay equal up to a renumbering**, and answer alike. -/
theorem renumbered_run (h : Alike s s') (ops : List Operation) :
    ∃ ρ, Renumbered ρ (s.run ops) (s'.run ops) ∧
      s'.answers ops = (s.answers ops).map (renumberAnswer ρ) := by
  have hrun := alike_run h ops
  obtain ⟨c, htells, -⟩ := hrun.told
  obtain ⟨ρ, hρ⟩ := htells.consistent.exists_leads (s'.run ops).sites
  exact ⟨ρ, hrun.renumbered hρ, answers_eq_renumber h hρ⟩

/-! ### What a failed operation leaves -/

/-- What a failed operation leaves of a session told by a chronicle: the session, or the session
with a number for the site of the event that the forest refused. -/
theorem perform_error_cases {c : Chronicle} (h : c.Tells s.sites s.forest) {op : Operation}
    {fault : Fault} (herror : s.perform op = .error fault s') :
    s' = s ∨
      ∃ e n t, (op = .record e ∨ op = .add e) ∧ s.sites.number e.site = .ok (n, t) ∧
        s' = { s with sites := t } ∧ fault.sort ≠ .invalidInput ∧ fault ≠ .recordAfterFinish := by
  have hperformed := s.performed op
  rw [herror] at hperformed
  cases hperformed with
  | late => exact .inl rfl
  | inside => exact .inl rfl
  | @refused _ e _ _ offered add =>
    cases add_cases h e with
    | noLine line eq =>
      rw [eq] at add
      cases add
      exact .inl rfl
    | @refused n t r number observe eq =>
      rw [eq] at add
      cases add
      exact .inr ⟨e, n, t, Operation.eq_of_offered offered, number, rfl, r.sort_fault t⟩
    | taken number observe tells rule eq =>
      rw [eq] at add
      cases add

/-- A session with a failed operation behind it is like any that it was like before. -/
theorem alike_of_error {s₀ : Session} (h : Alike s₀ s) {op : Operation} {fault : Fault}
    (herror : s.perform op = .error fault s') : Alike s₀ s' := by
  obtain ⟨c, htells₀, htells⟩ := h.told
  obtain rfl | ⟨e, n, t, -, hn, rfl, -⟩ := perform_error_cases htells herror
  · exact h
  · refine ⟨⟨c, htells₀, htells.number hn⟩, h.rule, ?_, ?_⟩
    · exact h.covered.trans (Site.Table.number_spec hn).2.1.covered
    · rw [h.rest]

/-- A session is like the one that only the operations which did not fail have made. -/
theorem alike_run_succeeded {s₀ : Session} (h : Alike s₀ s) (ops : List Operation) :
    Alike (s₀.run (s.succeeded ops)) (s.run ops) := by
  induction ops generalizing s s₀ with
  | nil => exact h
  | cons op ops ih =>
    rw [succeeded, run]
    cases hop : s.perform op with
    | ok n s₁ =>
      have hs₁ : s.after op = s₁ := after_of_ok hop
      have hafter := ih (alike_after h op)
      rwa [hs₁] at hafter ⊢
    | error fault s₁ =>
      -- The operation is not made on the left, and leaves nothing but a number on the right.
      have hs₁ : s.after op = s₁ := after_of_error hop
      rw [hs₁]
      exact ih (alike_of_error h hop)

/-- **A failed operation leaves nothing but a number.**  Whatever a session has been through, an
operation that fails changes nothing of it but the table of sites.  The table stays the same when
the input was invalid or the session finished; else it can get one new number, for the site of the
event and after all others.  What becomes of later operations, and the session after them, is up to
a renumbering what it is without the failed operation, and also what it is when no operation that
failed was ever made. -/
theorem renumbered_of_error (rule : Option Retention) (skipsSynthetic : Bool) (initial : Sample)
    (ops : List Operation) (op : Operation) (fault : Fault) (s' : Session)
    (herror : ((start rule skipsSynthetic initial).run ops).perform op = .error fault s') :
    let start := start rule skipsSynthetic initial
    let s := start.run ops
    s' = { s with sites := s'.sites } ∧
    (fault.sort = .invalidInput ∨ fault = .recordAfterFinish → s'.sites = s.sites) ∧
    (s'.sites = s.sites ∨
      ∃ e, (op = .record e ∨ op = .add e) ∧ s.sites.numbers[e.site]? = none ∧
        s'.sites.entries = s.sites.entries ++ [(s.sites.size, e.site)]) ∧
    (∀ n site, s.sites.site? n = .ok site → s'.sites.site? n = .ok site) ∧
    (∀ later, ∃ ρ, Renumbered ρ (s.run later) (s'.run later) ∧
      s'.answers later = (s.answers later).map (renumberAnswer ρ)) ∧
    ∀ later, ∃ ρ, Renumbered ρ ((start.run (start.succeeded ops)).run later) (s'.run later) ∧
      s'.answers later =
        ((start.run (start.succeeded ops)).answers later).map (renumberAnswer ρ) := by
  intro start s
  obtain ⟨c, -, htells⟩ := tells_run rule skipsSynthetic initial ops
  have hself : Alike s s := ⟨⟨c, htells, htells⟩, rfl, (Site.Table.Extends.refl _).covered, rfl⟩
  have hstart : Alike start start :=
    ⟨⟨.empty, .empty rule, .empty rule⟩, rfl, (Site.Table.Extends.refl _).covered, rfl⟩
  have hclean : Alike (start.run (start.succeeded ops)) s := alike_run_succeeded hstart ops
  have hlater := fun later => renumbered_run (alike_of_error hself herror) later
  have hlater' := fun later => renumbered_run (alike_of_error hclean herror) later
  obtain rfl | ⟨e, n, t, hop, hn, rfl, hsort, hlate⟩ := perform_error_cases htells herror
  · exact ⟨rfl, fun _ => rfl, .inl rfl, fun _ _ h => h, hlater, hlater'⟩
  · obtain ⟨-, hext, hconsistent⟩ := Site.Table.number_spec hn
    refine ⟨rfl, fun h => absurd h (not_or.2 ⟨hsort, hlate⟩), ?_, fun m site hm => ?_, hlater,
      hlater'⟩
    · have hsize : s.sites.size = s.sites.sites.size := htells.size
      obtain rfl | ⟨hnone, hentries⟩ := Site.Table.entries_of_number hn
      · exact .inl rfl
      · rw [← hsize] at hentries
        exact .inr ⟨e, hop, hnone, hentries⟩
    · exact htells.consistent.site?_of_extends (hconsistent htells.consistent) hext hm

/-- A return of another function while `main` runs is refused and gives its site a number; nothing
else changes, and what comes later differs in numbers only. -/
theorem renumbered_mismatched_return :
    let main : Site := ⟨"app.py", "main", 3⟩
    let other : Site := ⟨"app.py", "other", 7⟩
    let s := (start none false .zero).run [.add ⟨.enter, main, ⟨.zero, 1⟩⟩]
    ∃ s', s.perform (.add ⟨.leave, other, ⟨.zero, 2⟩⟩) = .error (.mismatch 0 1) s' ∧
      s' = { s with sites := s'.sites } ∧
      ∀ later, ∃ ρ, Renumbered ρ (s.run later) (s'.run later) ∧
        s'.answers later = (s.answers later).map (renumberAnswer ρ) := by
  intro main other s
  let call : Event := ⟨.enter, main, ⟨.zero, 1⟩⟩
  let ret : Event := ⟨.leave, other, ⟨.zero, 2⟩⟩
  let t₁ : Site.Table := ⟨Site.Table.empty.numbers.insert main 0, #[main]⟩
  let t₂ : Site.Table := ⟨t₁.numbers.insert other 1, #[main, other]⟩
  have hmain : Site.Table.empty.number main = .ok (0, t₁) := by
    simp [t₁, main, Site.Table.number, Site.Table.empty]
  have hother : t₁.number other = .ok (1, t₂) := by
    simp [t₂, t₁, main, other, Site.Table.number, Site.Table.empty]
  obtain ⟨hnumber, -, -⟩ := Site.Table.number_spec hmain
  obtain ⟨hnumber', hext, -⟩ := Site.Table.number_spec hother
  obtain ⟨f, htells, -, hadd⟩ :=
    add_of_taken (s := start none false .zero) (e := call) (Chronicle.Tells.empty none) hmain rfl
  have hs : s = { start none false .zero with sites := t₁, forest := f }.widen ⟨.zero, 1⟩ := by
    simp only [s, run, after, perform, numbering, hadd, call]
  have hobserve : (Chronicle.empty.enter call).observe s.forest.rule ret =
      .error (.mismatch main other) := rfl
  have hrefused := add_of_refused (s := s) (by rw [hs]; exact htells) (by rw [hs]; exact hother)
    hobserve
  have herror : s.perform (.add ret) = .error (.mismatch 0 1) { s with sites := t₂ } := by
    rw [perform, hrefused, Refusal.fault, Site.Table.numberOf_eq (hext main 0 hnumber),
      Site.Table.numberOf_eq hnumber']
    rfl
  have h := renumbered_of_error none false .zero [.add call] (.add ret) (.mismatch 0 1) _ herror
  exact ⟨_, herror, h.1, h.2.2.2.2.1⟩

end Session

end CallForest
