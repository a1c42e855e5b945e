import CallForest.Proofs.Descent

/-!
# Histories

A history is a list of events fed one by one to a machine that takes each of them in or refuses it
with a fault.  The events after a refused one are fed all the same.  An overflow ends the history:
the program does not come back from it, so that no event after it has an answer.

* `Forest.run`, `Forest.answers` and `Forest.accepted` are the forest after a history, what became of
  each event, and the events that were taken in, the forest being what each event made of it;
* `History.final`, `History.answers` and `History.accepted` are the same for a machine that a refused
  event cannot change, and `Forest.run_eq_final`, `Forest.answers_eq` and `Forest.accepted_eq` say
  that a forest is such a machine;
* `History.final_map`, `History.answers_map` and `History.accepted_map` carry a simulation of single
  events to whole histories.
-/

namespace CallForest

/-- One event at a boundary of a numbered function. -/
structure Crossing where
  boundary : Boundary
  function : Nat
  sample : Sample
  deriving DecidableEq, Repr

namespace History

/-- The answer is that a memory size left its range. -/
def overflowed : Except Fault Unit → Bool
  | .ok _ => false
  | .error fault => fault.isOverflow

variable {σ τ : Type} (step : σ → Crossing → Except Fault σ)

/-- What becomes of an event. -/
def answer (s : σ) (e : Crossing) : Except Fault Unit := (step s e).map fun _ => ()

/-- The state after a history, or before the overflow that ends it. -/
def final (s : σ) : List Crossing → σ
  | [] => s
  | e :: es =>
    match step s e with
    | .ok s' => final s' es
    | .error fault => if fault.isOverflow then s else final s es

/-- What becomes of each event of a history, as far as it goes. -/
def answers (s : σ) : List Crossing → List (Except Fault Unit)
  | [] => []
  | e :: es =>
    match step s e with
    | .ok s' => .ok () :: answers s' es
    | .error fault => .error fault :: if fault.isOverflow then [] else answers s es

/-- The events of a history that are taken in. -/
def accepted (s : σ) : List Crossing → List Crossing
  | [] => []
  | e :: es =>
    match step s e with
    | .ok s' => e :: accepted s' es
    | .error fault => if fault.isOverflow then [] else accepted s es

variable {step}

theorem answer_eq_ok_iff {s : σ} {e : Crossing} :
    answer step s e = .ok () ↔ ∃ s', step s e = .ok s' := by
  unfold answer
  cases step s e <;> simp [Except.map]

/-- A history that no overflow ends goes on with the event after it. -/
theorem final_concat {s : σ} {es : List Crossing}
    (h : ∀ a ∈ answers step s es, overflowed a = false) (e : Crossing) :
    final step s (es ++ [e]) =
      match step (final step s es) e with
      | .ok s' => s'
      | .error _ => final step s es := by
  induction es generalizing s with
  | nil =>
    simp only [List.nil_append, final, ite_self]
  | cons d es ih =>
    simp only [answers] at h
    simp only [List.cons_append, final]
    cases hs : step s d with
    | ok s' =>
      rw [hs] at h
      exact ih (List.forall_mem_cons.1 h).2
    | error fault =>
      rw [hs] at h
      obtain ⟨hfault, h⟩ := List.forall_mem_cons.1 h
      simp only [overflowed] at hfault
      simp only [hfault, Bool.false_eq_true, if_false] at h ⊢
      exact ih h

/-! ### Simulation -/

section Simulation

variable {step' : τ → Crossing → Except Fault τ} (φ : σ → τ)

theorem answer_map (h : ∀ s e, step' (φ s) e = (step s e).map φ) (s : σ) (e : Crossing) :
    answer step' (φ s) e = answer step s e := by
  unfold answer
  rw [h]
  cases step s e <;> rfl

/-- A map of states that commutes with single events commutes with histories. -/
theorem final_map (h : ∀ s e, step' (φ s) e = (step s e).map φ) (s : σ) (es : List Crossing) :
    final step' (φ s) es = φ (final step s es) := by
  induction es generalizing s with
  | nil => rfl
  | cons e es ih =>
    simp only [final, h]
    cases step s e with
    | ok s' => exact ih s'
    | error fault =>
      simp only [Except.map]
      split
      · rfl
      · exact ih s

theorem answers_map (h : ∀ s e, step' (φ s) e = (step s e).map φ) (s : σ) (es : List Crossing) :
    answers step' (φ s) es = answers step s es := by
  induction es generalizing s with
  | nil => rfl
  | cons e es ih =>
    simp only [answers, h]
    cases step s e with
    | ok s' => simp only [Except.map, ih]
    | error fault => simp only [Except.map, ih]

theorem accepted_map (h : ∀ s e, step' (φ s) e = (step s e).map φ) (s : σ) (es : List Crossing) :
    accepted step' (φ s) es = accepted step s es := by
  induction es generalizing s with
  | nil => rfl
  | cons e es ih =>
    simp only [accepted, h]
    cases step s e with
    | ok s' => simp only [Except.map, ih]
    | error fault => simp only [Except.map, ih]

end Simulation

/-! ### Histories without a refusal -/

section

variable {α ε : Type} {f : σ → α → Except ε σ}

theorem foldlM_cons_of_eq_ok {s s' : σ} {a : α} (h : f s a = .ok s') (as : List α) :
    (a :: as).foldlM f s = as.foldlM f s' := by
  rw [List.foldlM_cons, h]
  rfl

theorem foldlM_append_of_eq_ok {s s' : σ} {as : List α} (h : as.foldlM f s = .ok s')
    (as' : List α) : (as ++ as').foldlM f s = as'.foldlM f s' := by
  rw [List.foldlM_append, h]
  rfl

theorem exists_of_foldlM_cons {s s' : σ} {a : α} {as : List α}
    (h : (a :: as).foldlM f s = .ok s') : ∃ s₁, f s a = .ok s₁ ∧ as.foldlM f s₁ = .ok s' := by
  rw [List.foldlM_cons] at h
  cases hs : f s a with
  | error fault =>
    rw [hs] at h
    cases h
  | ok s₁ =>
    rw [hs] at h
    exact ⟨s₁, rfl, h⟩

theorem foldlM_concat (s : σ) (as : List α) (a : α) :
    (as ++ [a]).foldlM f s = (as.foldlM f s).bind (f · a) := by
  rw [List.foldlM_append]
  cases as.foldlM f s with
  | error fault => rfl
  | ok s₁ => exact bind_pure (f s₁ a)

theorem exists_of_foldlM_concat {s s' : σ} {a : α} {as : List α}
    (h : (as ++ [a]).foldlM f s = .ok s') : ∃ s₁, as.foldlM f s = .ok s₁ ∧ f s₁ a = .ok s' := by
  rw [foldlM_concat] at h
  cases hs : as.foldlM f s with
  | error fault =>
    rw [hs] at h
    cases h
  | ok s₁ =>
    rw [hs] at h
    exact ⟨s₁, rfl, h⟩

section

variable {β : Type} {g : α → Except ε β}

theorem exists_of_mapM_cons {a : α} {as : List α} {bs : List β} (h : (a :: as).mapM g = .ok bs) :
    ∃ b bs', g a = .ok b ∧ as.mapM g = .ok bs' ∧ bs = b :: bs' := by
  rw [List.mapM_cons] at h
  cases ha : g a with
  | error e =>
    rw [ha] at h
    cases h
  | ok b =>
    cases has : as.mapM g with
    | error e =>
      rw [ha, has] at h
      cases h
    | ok bs' =>
      rw [ha, has] at h
      cases h
      exact ⟨b, bs', rfl, rfl, rfl⟩

/-- Results without a fault are the values of all that they were asked of. -/
theorem mapM_eq_ok_iff {as : List α} {bs : List β} :
    as.mapM g = .ok bs ↔
      (∀ a ∈ as, ∃ b, g a = .ok b) ∧ bs = as.filterMap fun a => (g a).toOption := by
  induction as generalizing bs with
  | nil => simp [pure, Except.pure, eq_comm]
  | cons a as ih =>
    rw [List.forall_mem_cons, List.filterMap_cons]
    constructor
    · intro h
      obtain ⟨b, bs', ha, has, rfl⟩ := exists_of_mapM_cons h
      obtain ⟨hall, rfl⟩ := ih.1 has
      exact ⟨⟨⟨b, ha⟩, hall⟩, by rw [ha]; rfl⟩
    · rintro ⟨⟨⟨b, ha⟩, hall⟩, rfl⟩
      rw [List.mapM_cons, ha, ih.2 ⟨hall, rfl⟩]
      rfl

end

end

theorem final_of_foldlM {s s' : σ} {es : List Crossing} (h : es.foldlM step s = .ok s') :
    final step s es = s' := by
  induction es generalizing s with
  | nil =>
    cases h
    rfl
  | cons e es ih =>
    obtain ⟨s₁, hs, h⟩ := exists_of_foldlM_cons h
    rw [final, hs]
    exact ih h

/-- When nothing is refused, everything is taken in. -/
theorem accepted_of_foldlM {s s' : σ} {es : List Crossing} (h : es.foldlM step s = .ok s') :
    accepted step s es = es := by
  induction es generalizing s with
  | nil => rfl
  | cons e es ih =>
    obtain ⟨s₁, hs, h⟩ := exists_of_foldlM_cons h
    rw [accepted, hs]
    exact congrArg (e :: ·) (ih h)

/-- A map of states that commutes with single events commutes with histories without a refusal. -/
theorem foldlM_map {step' : τ → Crossing → Except Fault τ} (φ : σ → τ)
    (h : ∀ s e, step' (φ s) e = (step s e).map φ) (s : σ) (es : List Crossing) :
    es.foldlM step' (φ s) = (es.foldlM step s).map φ := by
  induction es generalizing s with
  | nil => rfl
  | cons e es ih =>
    rw [List.foldlM_cons, List.foldlM_cons, h]
    cases step s e with
    | error fault => rfl
    | ok s' => exact ih s'

/-- A simulation that renames some events and hides the others. -/
theorem foldlM_filterMap {step' : τ → Crossing → Except Fault τ} (φ : σ → τ)
    (α : Crossing → Option Crossing)
    (hidden : ∀ s e s', step s e = .ok s' → α e = none → φ s' = φ s)
    (shown : ∀ s e s' e', step s e = .ok s' → α e = some e' → step' (φ s) e' = .ok (φ s'))
    {s s' : σ} {es : List Crossing} (h : es.foldlM step s = .ok s') :
    (es.filterMap α).foldlM step' (φ s) = .ok (φ s') := by
  induction es generalizing s with
  | nil =>
    cases h
    rfl
  | cons e es ih =>
    obtain ⟨s₁, hs, h⟩ := exists_of_foldlM_cons h
    cases he : α e with
    | none => rw [List.filterMap_cons_none he, ← hidden s e s₁ hs he, ih h]
    | some e' =>
      rw [List.filterMap_cons_some he, foldlM_cons_of_eq_ok (shown s e s₁ e' hs he), ih h]

end History

namespace Forest

/-- The forest after an event that fits. -/
def feed (f : Forest) (e : Crossing) : Except Fault Forest :=
  f.observe e.boundary e.function e.sample

variable (f : Forest)

/-- An event, with the forest as it is afterwards. -/
def step (e : Crossing) : EStateM.Result Fault Forest Unit :=
  f.take e.boundary e.function e.sample

/-- What becomes of the next event. -/
def answer (e : Crossing) : Except Fault Unit :=
  match f.step e with
  | .ok _ _ => .ok ()
  | .error fault _ => .error fault

/-- The forest after a history, or before the overflow that ends it. -/
def run (f : Forest) : List Crossing → Forest
  | [] => f
  | e :: es =>
    match f.step e with
    | .ok _ f' => f'.run es
    | .error fault f' => if fault.isOverflow then f else f'.run es

/-- What becomes of each event of a history, as far as it goes. -/
def answers (f : Forest) : List Crossing → List (Except Fault Unit)
  | [] => []
  | e :: es =>
    match f.step e with
    | .ok _ f' => .ok () :: f'.answers es
    | .error fault f' => .error fault :: if fault.isOverflow then [] else f'.answers es

/-- The events of a history that are taken in. -/
def accepted (f : Forest) : List Crossing → List Crossing
  | [] => []
  | e :: es =>
    match f.step e with
    | .ok _ f' => e :: f'.accepted es
    | .error fault f' => if fault.isOverflow then [] else f'.accepted es

/-! ### A refused event changes nothing -/

/-- All that an event can do: it is taken in, it is refused and leaves the forest as it was, or the
rule has no answer. -/
theorem step_cases (e : Crossing) :
    (∃ f', f.step e = .ok () f' ∧ f.feed e = .ok f') ∨
    (∃ fault, f.step e = .error fault f ∧ f.feed e = .error fault ∧ fault.isOverflow = false) ∨
    ∃ fault f', f.step e = .error fault f' ∧ f.feed e = .error fault ∧ fault.isOverflow = true := by
  rw [feed, observe, step]
  cases h : f.take e.boundary e.function e.sample with
  | ok _ f' => exact .inl ⟨f', rfl, rfl⟩
  | error fault f' =>
    cases hfault : fault.isOverflow with
    | true => exact .inr (.inr ⟨fault, f', rfl, rfl, hfault⟩)
    | false =>
      rw [eq_of_take_error h hfault]
      exact .inr (.inl ⟨fault, rfl, rfl, hfault⟩)

variable {f} in
theorem feed_of_step {e : Crossing} {f' : Forest} (h : f.step e = .ok () f') :
    f.feed e = .ok f' := by
  rw [step] at h
  rw [feed, observe, h]

variable {f} in
theorem feed_of_step_error {e : Crossing} {fault : Fault} {f' : Forest}
    (h : f.step e = .error fault f') : f.feed e = .error fault := by
  rw [step] at h
  rw [feed, observe, h]

variable {f} in
theorem answer_eq_ok_iff {e : Crossing} : f.answer e = .ok () ↔ ∃ f', f.step e = .ok () f' := by
  rw [answer]
  cases f.step e <;> simp

variable {f} in
theorem answer_eq_error_iff {e : Crossing} {fault : Fault} :
    f.answer e = .error fault ↔ ∃ f', f.step e = .error fault f' := by
  rw [answer]
  cases f.step e <;> simp

theorem answer_eq (e : Crossing) : f.answer e = History.answer feed f e := by
  obtain ⟨f', h, h'⟩ | ⟨fault, h, h', -⟩ | ⟨fault, f', h, h', -⟩ := f.step_cases e <;>
    rw [answer, History.answer, h, h'] <;> rfl

theorem run_eq_final (es : List Crossing) : f.run es = History.final feed f es := by
  induction es generalizing f with
  | nil => rfl
  | cons e es ih =>
    obtain ⟨f', h, h'⟩ | ⟨fault, h, h', hfault⟩ | ⟨fault, f', h, h', hfault⟩ := f.step_cases e
    · simp only [run, History.final, h, h', ih]
    · simp only [run, History.final, h, h', hfault, ih]
    · simp only [run, History.final, h, h', hfault, if_true]

theorem answers_eq (es : List Crossing) : f.answers es = History.answers feed f es := by
  induction es generalizing f with
  | nil => rfl
  | cons e es ih =>
    obtain ⟨f', h, h'⟩ | ⟨fault, h, h', hfault⟩ | ⟨fault, f', h, h', hfault⟩ := f.step_cases e
    · simp only [answers, History.answers, h, h', ih]
    · simp only [answers, History.answers, h, h', hfault, ih]
    · simp only [answers, History.answers, h, h', hfault, if_true]

/-- A history that no overflow ends goes on with the event after it. -/
theorem run_concat {f : Forest} {es : List Crossing}
    (h : ∀ a ∈ f.answers es, History.overflowed a = false) (e : Crossing) :
    f.run (es ++ [e]) =
      match (f.run es).feed e with
      | .ok f' => f'
      | .error _ => f.run es := by
  rw [answers_eq] at h
  rw [run_eq_final, run_eq_final, History.final_concat h]
  cases (History.final feed f es).feed e <;> rfl

theorem accepted_eq (es : List Crossing) : f.accepted es = History.accepted feed f es := by
  induction es generalizing f with
  | nil => rfl
  | cons e es ih =>
    obtain ⟨f', h, h'⟩ | ⟨fault, h, h', hfault⟩ | ⟨fault, f', h, h', hfault⟩ := f.step_cases e
    · simp only [accepted, History.accepted, h, h', ih]
    · simp only [accepted, History.accepted, h, h', hfault, ih]
    · simp only [accepted, History.accepted, h, h', hfault, if_true]

end Forest

end CallForest
