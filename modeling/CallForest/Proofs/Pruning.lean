import CallForest.Proofs.Spine

/-!
# Pruning

A retention rule acts at each return, on a forest that is still growing.  What it leaves is what is
left of the forest grown without it when every activation that has returned and fails the rule's
test is cut off, with all it called.

* `Invocation.pruneAll` cuts a forest, and `Invocation.failings` counts the activations that fail,
  those below another failing one included;
* `Spine.observe_prune`: pruning the parts of a forest commutes with every event;
* `Forest.run_ofTest_eq_pruneAll`: filtering is pruning, after any history.
-/

namespace CallForest

namespace Invocation

variable (test : Sample → Sample → Bool)

/-- The activation has returned and fails the test. -/
def fails (t : Invocation) : Bool :=
  match t.left with
  | none => false
  | some s => !test t.entered s

mutual

/-- The tree without the activations below its root that fail the test. -/
def prune : Invocation → Invocation
  | ⟨function, entered, left, callees⟩ => ⟨function, entered, left, pruneAll callees⟩

/-- The trees without the activations that fail the test. -/
def pruneAll : List Invocation → List Invocation
  | [] => []
  | t :: ts => if t.fails test then pruneAll ts else t.prune :: pruneAll ts

end

mutual

/-- The number of activations that fail the test. -/
def failing : Invocation → Nat
  | ⟨function, entered, left, callees⟩ =>
    (if fails test ⟨function, entered, left, callees⟩ then 1 else 0) + failings callees

/-- The number of activations in several trees that fail the test. -/
def failings : List Invocation → Nat
  | [] => 0
  | t :: ts => t.failing + failings ts

end

@[simp] theorem function_prune (t : Invocation) : (t.prune test).function = t.function := by
  cases t
  rfl

@[simp] theorem entered_prune (t : Invocation) : (t.prune test).entered = t.entered := by
  cases t
  rfl

@[simp] theorem left_prune (t : Invocation) : (t.prune test).left = t.left := by
  cases t
  rfl

@[simp] theorem callees_prune (t : Invocation) :
    (t.prune test).callees = pruneAll test t.callees := by
  cases t
  rfl

theorem fails_prune (test' : Sample → Sample → Bool) (t : Invocation) :
    (t.prune test).fails test' = t.fails test' := by
  rw [fails, left_prune, entered_prune, fails]

theorem pruneAll_eq (ts : List Invocation) :
    pruneAll test ts = (ts.filter fun t => !t.fails test).map (prune test) := by
  induction ts with
  | nil => rfl
  | cons t ts ih =>
    rw [pruneAll, ih, List.filter_cons]
    cases t.fails test <;> rfl

theorem pruneAll_append (ts us : List Invocation) :
    pruneAll test (ts ++ us) = pruneAll test ts ++ pruneAll test us := by
  rw [pruneAll_eq, pruneAll_eq, pruneAll_eq, List.filter_append, List.map_append]

theorem failing_eq (t : Invocation) :
    t.failing test = (if t.fails test then 1 else 0) + failings test t.callees := by
  cases t
  rfl

theorem failings_append (ts us : List Invocation) :
    failings test (ts ++ us) = failings test ts + failings test us := by
  induction ts with
  | nil => exact (Nat.zero_add _).symm
  | cons t ts ih => rw [List.cons_append, failings, ih, failings, Nat.add_assoc]

theorem Settled.prune {t : Invocation} (h : t.Settled) : (t.prune test).Settled := by
  induction h with
  | @intro t left callees ih =>
    refine .intro (by rwa [left_prune]) fun c hc => ?_
    rw [callees_prune, pruneAll_eq] at hc
    obtain ⟨c', hc', rfl⟩ := List.mem_map.1 hc
    exact ih c' (List.mem_filter.1 hc').1

theorem settled_pruneAll {ts : List Invocation} (h : ∀ t ∈ ts, t.Settled) :
    ∀ t ∈ pruneAll test ts, t.Settled := by
  intro t ht
  rw [pruneAll_eq] at ht
  obtain ⟨t', ht', rfl⟩ := List.mem_map.1 ht
  exact (h t' (List.mem_filter.1 ht').1).prune test

/-- An open activation does not fail. -/
theorem fails_of_isOpen {t : Invocation} (h : t.isOpen = true) : t.fails test = false := by
  rw [fails, Option.isNone_iff_eq_none.1 h]

theorem pruneAll_singleton_of_isOpen {t : Invocation} (h : t.isOpen = true) :
    pruneAll test [t] = [t.prune test] := by
  rw [pruneAll, fails_of_isOpen test h]
  rfl

/-- A test that everything passes cuts nothing off. -/
theorem pruneAll_true (ts : List Invocation) : pruneAll (fun _ _ => true) ts = ts := by
  induction ts using listInduction with
  | nil => rfl
  | cons t ts callees ih =>
    have hfails : t.fails (fun _ _ => true) = false := by
      rw [fails]
      cases t.left <;> rfl
    have hprune : t.prune (fun _ _ => true) = t := by
      ext1 <;> simp only [function_prune, entered_prune, left_prune, callees_prune, callees]
    rw [pruneAll, hfails, if_neg Bool.false_ne_true, hprune, ih]

theorem fails_and (test' : Sample → Sample → Bool) (t : Invocation) :
    t.fails (fun a b => test a b && test' a b) = (t.fails test || t.fails test') := by
  simp only [fails]
  cases t.left with
  | none => rfl
  | some s => exact Bool.not_and _ _

/-- Pruning twice is pruning once by both tests. -/
theorem pruneAll_pruneAll (test' : Sample → Sample → Bool) (ts : List Invocation) :
    pruneAll test' (pruneAll test ts) = pruneAll (fun a b => test a b && test' a b) ts := by
  -- On the trees and, below the first of them, on its callees.
  induction ts using listInduction with
  | nil => rfl
  | cons t ts callees ih =>
    have hprune : (t.prune test).prune test' = t.prune fun a b => test a b && test' a b := by
      ext1 <;> simp only [function_prune, entered_prune, left_prune, callees_prune, callees]
    rw [pruneAll, pruneAll, fails_and]
    cases hf : t.fails test with
    | true => exact ih
    | false =>
      rw [if_neg Bool.false_ne_true, pruneAll, fails_prune, ih, hprune, Bool.false_or]

/-- Nothing is left that fails the test. -/
theorem failings_pruneAll (ts : List Invocation) : failings test (pruneAll test ts) = 0 := by
  induction ts using listInduction with
  | nil => rfl
  | cons t ts callees ih =>
    rw [pruneAll]
    cases hf : t.fails test with
    | true => exact ih
    | false =>
      rw [if_neg Bool.false_ne_true, failings, ih, failing_eq, fails_prune, hf, callees_prune,
        callees]
      rfl

end Invocation

namespace Retention

/-- The rule keeps what passes the test, drops the rest, and always has an answer. -/
def Decides (rule : Option Retention) (test : Sample → Sample → Bool) : Prop :=
  ∀ entered left, Invocation.judge rule entered left =
    .ok (if test entered left then .kept else .dropped)

theorem decides_none : Decides none fun _ _ => true := fun _ _ => rfl

theorem decides_ofTest (label : String) (test : Sample → Sample → Bool) :
    Decides (some (.ofTest label test)) test := by
  intro entered left
  simp only [Invocation.judge, ofTest]
  cases test entered left <;> rfl

end Retention

/-! ### Pruning a spine -/

section

variable (test : Sample → Sample → Bool)

namespace Pending

/-- The activation without the activations below it that fail the test. -/
def prune (p : Pending) : Pending where
  node := p.node.prune test
  isOpen := by
    rw [Invocation.isOpen, Invocation.left_prune]
    exact p.isOpen
  settled := by
    rw [Invocation.callees_prune]
    exact Invocation.settled_pruneAll test p.settled

theorem prune_enter (function : Nat) (sample : Sample) :
    (enter function sample).prune test = enter function sample := rfl

theorem prune_add (p : Pending) (ts : List Invocation) (h : ∀ t ∈ ts, t.Settled) :
    (p.add ts h).prune test =
      (p.prune test).add (Invocation.pruneAll test ts) (Invocation.settled_pruneAll test h) := by
  ext1
  ext1
  · simp [prune, add]
  · simp [prune, add]
  · simp [prune, add]
  · simp [prune, add, Invocation.pruneAll_append]

theorem prune_leave (p : Pending) (sample : Sample) :
    (p.leave sample).prune test = (p.prune test).leave sample := by
  ext1 <;> simp [prune, leave]

/-- The number of activations that fail the test below pending ones. -/
def failings : List Pending → Nat
  | [] => 0
  | p :: outer => Invocation.failings test p.node.callees + failings outer

/-- Nothing is left that fails the test. -/
theorem failings_map_prune (path : List Pending) : failings test (path.map (prune test)) = 0 := by
  induction path with
  | nil => rfl
  | cons p outer ih =>
    show Invocation.failings test (p.node.prune test).callees + _ = 0
    rw [ih, Invocation.callees_prune, Invocation.failings_pruneAll]

end Pending

theorem Cursor.prune_rebuild {t : Invocation} (h : t.fails test = false) (outer : List Pending) :
    (rebuild t (outer.map Pending.node)).prune test =
      rebuild (t.prune test) ((outer.map (Pending.prune test)).map Pending.node) := by
  induction outer generalizing t with
  | nil => rfl
  | cons p outer ih =>
    have hpush : (p.node.push t).prune test = (p.prune test).node.push (t.prune test) := by
      ext1
      · simp [Invocation.push, Pending.prune]
      · simp [Invocation.push, Pending.prune]
      · simp [Invocation.push, Pending.prune]
      · simp [Invocation.push, Pending.prune, Invocation.pruneAll_append, Invocation.pruneAll, h]
    -- What is pending has not returned, so the path above `t` stays whole.
    have hp : (p.node.push t).fails test = false :=
      Invocation.fails_of_isOpen test (t := p.node.push t) p.isOpen
    rw [List.map_cons, rebuild, ih hp, hpush]
    rfl

namespace Spine

/-- The number of activations that fail the test. -/
def failing (S : Spine) : Nat :=
  Invocation.failings test S.trees + Pending.failings test S.pending

/-- The spine that a rule with this test would have left. -/
def prune (S : Spine) : Spine where
  trees := Invocation.pruneAll test S.trees
  settled := Invocation.settled_pruneAll test S.settled
  pending := S.pending.map (Pending.prune test)
  dropped := S.dropped + S.failing test

theorem roots_prune (S : Spine) :
    (S.prune test).roots = Invocation.pruneAll test S.roots := by
  cases h : S.pending with
  | nil =>
    have h' : (S.prune test).pending = [] := by rw [prune, h, List.map_nil]
    rw [roots_of_nil h, roots_of_nil h']
    rfl
  | cons p outer =>
    have h' : (S.prune test).pending = p.prune test :: outer.map (Pending.prune test) := by
      rw [prune, h, List.map_cons]
    have hopen := Cursor.isOpen_rebuild p.isOpen outer
    have hp := Invocation.fails_of_isOpen test p.isOpen
    rw [roots_of_cons h, roots_of_cons h', Invocation.pruneAll_append,
      Invocation.pruneAll_singleton_of_isOpen test hopen, Cursor.prune_rebuild test hp]
    rfl

theorem prune_enter (S : Spine) (function : Nat) (sample : Sample) :
    (S.enter function sample).prune test = (S.prune test).enter function sample := by
  ext1
  · rfl
  · rfl
  · simp [prune, enter, failing, Pending.enter, Invocation.enter, Pending.failings,
      Invocation.failings]

theorem prune_settle (S : Spine) (ts : List Invocation) (h : ∀ t ∈ ts, t.Settled) :
    (S.settle ts h).prune test =
      { (S.prune test).settle (Invocation.pruneAll test ts) (Invocation.settled_pruneAll test h) with
        dropped := (S.prune test).dropped + Invocation.failings test ts } := by
  obtain ⟨trees, settled, pending, dropped⟩ := S
  cases pending with
  | nil =>
    ext1
    · exact Invocation.pruneAll_append test trees ts
    · rfl
    · simp only [prune, settle, failing, Invocation.failings_append, Pending.failings]
      omega
  | cons p outer =>
    ext1
    · rfl
    · simp only [prune, settle, List.map_cons, Pending.prune_add]
    · simp only [prune, settle, failing, Pending.failings, Pending.add,
        Invocation.failings_append]
      omega

/-- A return under the test, after pruning, is a return that keeps, before it. -/
theorem leave_prune {S : Spine} {p : Pending} {outer : List Pending} (h : S.pending = p :: outer)
    (sample : Sample) :
    (S.prune test).leave (p.prune test) (outer.map (Pending.prune test)) sample
        (if test p.node.entered sample then .kept else .dropped) =
      (S.leave p outer sample .kept).prune test := by
  have hfails : (p.leave sample).fails test = !test p.node.entered sample := rfl
  -- What the rule drops now is counted; what it drops below was counted when it returned.
  have hdropped : (S.prune test).dropped + (if test p.node.entered sample then 0 else 1) =
      (({ S with pending := outer } : Spine).prune test).dropped +
        Invocation.failings test [p.leave sample] := by
    have hcallees : (p.leave sample).callees = p.node.callees := rfl
    simp only [prune, failing, h, Pending.failings, Invocation.failings,
      Invocation.failing_eq, hfails, hcallees]
    cases test p.node.entered sample <;> simp <;> omega
  rw [leave, prune_settle, ← hdropped]
  cases htest : test p.node.entered sample with
  | true =>
    have hprune : Invocation.pruneAll test [p.leave sample] = [(p.prune test).leave sample] := by
      rw [Invocation.pruneAll, hfails, htest, Pending.prune_leave]
      rfl
    simp only [hprune]
    exact settle_dropped (({ S with pending := outer } : Spine).prune test) _ _ _
  | false =>
    have hprune : Invocation.pruneAll test [p.leave sample] = [] := by
      rw [Invocation.pruneAll, hfails, htest]
      rfl
    simp only [hprune, settle_nil]
    rfl

variable {rule : Option Retention} {test}

/-- **Pruning a spine commutes with every event.** -/
theorem observe_prune (h : Retention.Decides rule test) (S : Spine) (e : Crossing) :
    (S.prune test).observe rule e = (S.observe none e).map (prune test) := by
  obtain ⟨boundary, function, sample⟩ := e
  cases boundary with
  | enter => exact congrArg Except.ok (S.prune_enter test function sample).symm
  | leave =>
    cases hp : S.pending with
    | nil => simp only [observe, prune, hp, List.map_nil, Except.map]
    | cons p outer =>
      have hp' : (S.prune test).pending = p.prune test :: outer.map (Pending.prune test) := by
        rw [prune, hp, List.map_cons]
      have hfunction : (p.prune test).node.function = p.node.function :=
        Invocation.function_prune test p.node
      have hentered : (p.prune test).node.entered = p.node.entered :=
        Invocation.entered_prune test p.node
      simp only [observe, hp, hp', hfunction, hentered]
      by_cases hf : p.node.function = function
      · rw [if_pos hf, if_pos hf, h]
        exact congrArg Except.ok (leave_prune test hp sample)
      · rw [if_neg hf, if_neg hf]
        rfl

theorem ofHistory_eq_prune (h : Retention.Decides rule test) (es : List Crossing) :
    ofHistory rule es = (ofHistory none es).prune test :=
  History.final_map (prune test) (observe_prune h) empty es

end Spine

end

namespace Forest

variable {rule : Option Retention} {test : Sample → Sample → Bool}

theorem answers_eq_answers_none (h : Retention.Decides rule test) (es : List Crossing) :
    (empty rule).answers es = (empty none).answers es := by
  rw [answers_empty, answers_empty]
  exact History.answers_map (Spine.prune test) (Spine.observe_prune h) .empty es

theorem roots_run_eq_pruneAll (h : Retention.Decides rule test) (es : List Crossing) :
    ((empty rule).run es).roots = Invocation.pruneAll test ((empty none).run es).roots := by
  rw [run_empty, run_empty, Spine.ofHistory_eq_prune h]
  exact Spine.roots_prune test _

/-- **Filtering is pruning.**  After any history a forest with a test holds what is left of the forest
without one when the activations that fail the test are cut off, and it has answered every event in
the same way.  A test that everything passes changes nothing. -/
theorem run_ofTest_eq_pruneAll (label : String) (test : Sample → Sample → Bool)
    (es : List Crossing) :
    (empty (some (.ofTest label test))).answers es = (empty none).answers es ∧
    ((empty (some (.ofTest label test))).run es).roots =
      Invocation.pruneAll test ((empty none).run es).roots ∧
    ((empty (some (.ofTest label fun _ _ => true))).run es).roots =
      ((empty none).run es).roots := by
  have h := Retention.decides_ofTest label test
  refine ⟨answers_eq_answers_none h es, roots_run_eq_pruneAll h es, ?_⟩
  rw [roots_run_eq_pruneAll (Retention.decides_ofTest label fun _ _ => true),
    Invocation.pruneAll_true]

end Forest

end CallForest
