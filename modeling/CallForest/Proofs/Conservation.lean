import CallForest.Proofs.DepthFirst
import CallForest.Proofs.Enumeration
import CallForest.Proofs.Pruning

/-!
# Conservation of activations

What a forest with a test holds and what it has dropped are counted apart: the first by a walk over
its trees, the second event by event.  Both are read off the forest that the same history builds
without a test, where every activation called is at one spot.

* `Invocation.countP_fails_spotsAll`, `Invocation.countP_keeps_spotsAll`: the spots that fail, and
  those where nothing around fails either;
* `Spine.dropped_final`: the activations dropped are the returns taken in that fail;
* `Forest.conservation`: what is held, what is dropped and what went with something dropped are
  together all the calls taken in.
-/

namespace CallForest

namespace Spot

variable (test : Sample → Sample → Bool) (s : Spot)

/-- The activation at the spot has returned and fails the test. -/
def fails : Bool := s.node.fails test

/-- An activation around the spot has returned and fails the test. -/
def inFailing : Bool := s.around.any (Invocation.fails test)

end Spot

namespace Invocation

variable (test : Sample → Sample → Bool)

/-! ### Counting spots -/

theorem countP_fails_spotsAll (around ts : List Invocation) :
    (spotsAll around ts).countP (Spot.fails test) = failings test ts := by
  induction ts using listInduction generalizing around with
  | nil => rfl
  | cons t ts callees ih =>
    have ht : Spot.fails test ⟨t, around⟩ = t.fails test := rfl
    rw [spotsAll, spots_eq, List.countP_append, List.countP_cons, callees, ih, failings, failing_eq,
      ht]
    omega

/-- Inside something that fails there is no spot with nothing failing around it. -/
theorem countP_keeps_of_any {around : List Invocation} (h : around.any (fails test) = true)
    (ts : List Invocation) :
    (spotsAll around ts).countP (fun s => !s.fails test && !s.inFailing test) = 0 := by
  induction ts using listInduction generalizing around with
  | nil => rfl
  | cons t ts callees ih =>
    have ht : (t :: around).any (fails test) = true := by rw [List.any_cons, h, Bool.or_true]
    rw [spotsAll, spots_eq, List.countP_append, List.countP_cons, callees ht, ih h]
    simp [Spot.inFailing, h]

/-- The spots with nothing failing at or around them are those left by pruning. -/
theorem countP_keeps_spotsAll {around : List Invocation} (h : around.any (fails test) = false)
    (ts : List Invocation) :
    (spotsAll around ts).countP (fun s => !s.fails test && !s.inFailing test) =
      sizes (pruneAll test ts) := by
  induction ts using listInduction generalizing around with
  | nil => rfl
  | cons t ts callees ih =>
    rw [spotsAll, spots_eq, List.countP_append, List.countP_cons, ih h, pruneAll]
    cases ht : t.fails test with
    | true =>
      have hcallees : (t :: around).any (fails test) = true := by rw [List.any_cons, ht]; rfl
      rw [countP_keeps_of_any test hcallees]
      simp [Spot.fails, ht]
    | false =>
      have hcallees : (t :: around).any (fails test) = false := by rw [List.any_cons, ht, h]; rfl
      rw [callees hcallees]
      simp [Spot.fails, Spot.inFailing, ht, h, size_eq]

/-- Every spot is one of three: nothing fails there, or it fails itself, or only what is around it
does. -/
theorem countP_add_countP_add_countP (spots : List Spot) :
    spots.countP (fun s => !s.fails test && !s.inFailing test) +
        spots.countP (Spot.fails test) +
        spots.countP (fun s => !s.fails test && s.inFailing test) = spots.length := by
  induction spots with
  | nil => rfl
  | cons s spots ih =>
    simp only [List.countP_cons, List.length_cons]
    cases s.fails test <;> cases s.inFailing test <;> simp <;> omega

/-- The calls among the visits of trees are one for each activation. -/
theorem countP_enter_walkAll (depth : Nat) (ts : List Invocation) :
    (walkAll depth ts).countP (·.boundary = .enter) = sizes ts := by
  induction ts using listInduction generalizing depth with
  | nil => rfl
  | cons t ts callees ih =>
    have hreturn : (t.returnVisit? depth).toList.countP (·.boundary = .enter) = 0 := by
      rw [returnVisit?]
      cases t.left <;> simp
    rw [walkAll, walk_eq, List.countP_append, List.countP_cons, List.countP_append, callees, ih,
      hreturn, sizes_cons, size_eq]
    simp [callVisit]

end Invocation

/-! ### Returns that fail -/

namespace Nesting

/-- The calls and returns that belong together in a well-nested history, in the order of the
returns. -/
def pairs (calls : List Crossing) : List Crossing → List (Crossing × Crossing)
  | [] => []
  | e :: es =>
    (match e.boundary with
      | .enter => []
      | .leave => calls.head?.toList.map (·, e)) ++ pairs (next calls e) es

end Nesting

section

variable {rule : Option Retention} {test : Sample → Sample → Bool}

namespace Spine

theorem dropped_leave (S : Spine) (p : Pending) (outer : List Pending) (sample : Sample)
    (v : Verdict) :
    (S.leave p outer sample v).dropped = S.dropped + if v = .kept then 0 else 1 := by
  cases v with
  | kept => cases outer <;> rfl
  | dropped => rfl

/-- **The activations dropped are the returns taken in that fail.** -/
theorem dropped_final (hrule : Retention.Decides rule test) (S : Spine) (es : List Crossing) :
    (History.final (observe rule) S es).dropped =
      S.dropped + (Nesting.pairs S.calls (History.accepted (observe rule) S es)).countP
        fun p => !test p.1.sample p.2.sample := by
  induction es generalizing S with
  | nil => rfl
  | cons e es ih =>
    rw [History.final, History.accepted]
    cases h : S.observe rule e with
    | error fault =>
      dsimp only
      split
      · rfl
      · exact ih S
    | ok S' =>
      refine (ih S').trans ?_
      obtain ⟨he, rfl⟩ | ⟨p, outer, v, hp, he, hv, rfl⟩ := observe_cases h
      · rw [he]
        rfl
      · have hcalls : S.calls = p.call :: outer.map Pending.call := by
          rw [calls, hp, List.map_cons]
        rw [hrule] at hv
        cases hv
        rw [he, hcalls, calls_leave, dropped_leave, Nesting.pairs, List.countP_append]
        cases htest : test p.node.entered e.sample with
        | true => simp [htest, Pending.call, Nesting.next]
        | false => simp [htest, Pending.call, Nesting.next, Nat.add_assoc]

theorem dropped_ofHistory_none (es : List Crossing) : (ofHistory none es).dropped = 0 := by
  rw [ofHistory, dropped_final Retention.decides_none]
  simp [empty]

end Spine

/-! ### What fails in a forest -/

theorem Cursor.failing_rebuild (t : Invocation) (outer : List Pending) :
    (rebuild t (outer.map Pending.node)).failing test =
      t.failing test + Pending.failings test outer := by
  induction outer generalizing t with
  | nil => rfl
  | cons p outer ih =>
    have hp : (p.node.push t).fails test = false :=
      Invocation.fails_of_isOpen test (t := p.node.push t) p.isOpen
    have hcallees : (p.node.push t).callees = p.node.callees ++ [t] := rfl
    rw [List.map_cons, rebuild, ih, Invocation.failing_eq, hp, hcallees,
      Invocation.failings_append, Pending.failings]
    simp only [Invocation.failings, Bool.false_eq_true, if_false]
    omega

theorem Spine.failing_eq_failings (S : Spine) :
    S.failing test = Invocation.failings test S.roots := by
  rw [failing]
  cases h : S.pending with
  | nil =>
    rw [roots_of_nil h]
    rfl
  | cons p outer =>
    have hp := Invocation.fails_of_isOpen test p.isOpen
    rw [roots_of_cons h, Invocation.failings_append, Pending.failings, Invocation.failings,
      Invocation.failings, Cursor.failing_rebuild, Invocation.failing_eq, hp]
    simp

end

namespace Forest

section

variable {rule : Option Retention} {test : Sample → Sample → Bool}

/-- Dropped is what fails in the forest without the rule, wherever it stands. -/
theorem droppedCount_run_eq_failings (hrule : Retention.Decides rule test) (es : List Crossing) :
    ((empty rule).run es).droppedCount =
      Invocation.failings test ((empty none).run es).roots := by
  rw [run_empty, run_empty, Spine.ofHistory_eq_prune hrule]
  show (Spine.ofHistory none es).dropped + (Spine.ofHistory none es).failing test = _
  rw [Spine.dropped_ofHistory_none, Nat.zero_add, Spine.failing_eq_failings]
  rfl

theorem accepted_eq_accepted_none (hrule : Retention.Decides rule test) (es : List Crossing) :
    (empty rule).accepted es = (empty none).accepted es := by
  rw [accepted_empty, accepted_empty]
  exact History.accepted_map (Spine.prune test) (Spine.observe_prune hrule) .empty es

end

/-- Without a rule there is one activation for each call taken in. -/
theorem countP_enter_accepted (es : List Crossing) :
    ((empty none).accepted es).countP (·.boundary = .enter) =
      Invocation.sizes ((empty none).run es).roots := by
  rw [← map_crossing_walkAll_run, List.countP_map, ← Invocation.countP_enter_walkAll 0]
  rfl

/-- **Conservation of activations.**  After any history, a forest with a test has dropped as many
activations as there are returns taken in whose call and return fail, which is as many as fail in
the forest that the history builds without a test; it holds those of the latter where nothing fails
at or around them; and with those that went because something around them failed, these are all the
calls taken in. -/
theorem conservation (label : String) (test : Sample → Sample → Bool) (es : List Crossing) :
    let f := (empty (some (.ofTest label test))).run es
    let taken := (empty (some (.ofTest label test))).accepted es
    let spots := Invocation.spotsAll [] ((empty none).run es).roots
    f.droppedCount = (Nesting.pairs [] taken).countP (fun p => !test p.1.sample p.2.sample) ∧
    f.droppedCount = spots.countP (Spot.fails test) ∧
    f.nodeCount = spots.countP (fun s => !s.fails test && !s.inFailing test) ∧
    f.nodeCount + f.droppedCount + spots.countP (fun s => !s.fails test && s.inFailing test) =
      taken.countP (·.boundary = .enter) := by
  intro f taken spots
  have hrule := Retention.decides_ofTest label test
  have hpairs : f.droppedCount =
      (Nesting.pairs [] taken).countP fun p => !test p.1.sample p.2.sample := by
    have hdropped := Spine.dropped_final hrule .empty es
    rw [← accepted_empty] at hdropped
    change ((empty (some (.ofTest label test))).run es).droppedCount = _
    rw [run_empty]
    exact hdropped.trans (Nat.zero_add _)
  have hfails : f.droppedCount = spots.countP (Spot.fails test) := by
    rw [Invocation.countP_fails_spotsAll]
    exact droppedCount_run_eq_failings hrule es
  have hkeeps : f.nodeCount = spots.countP (fun s => !s.fails test && !s.inFailing test) := by
    rw [Invocation.countP_keeps_spotsAll test rfl, nodeCount_eq_sizes]
    exact congrArg _ (roots_run_eq_pruneAll hrule es)
  refine ⟨hpairs, hfails, hkeeps, ?_⟩
  calc f.nodeCount + f.droppedCount + spots.countP (fun s => !s.fails test && s.inFailing test)
      = spots.length := by
        rw [hkeeps, hfails, Invocation.countP_add_countP_add_countP]
    _ = Invocation.sizes ((empty none).run es).roots := Invocation.length_spotsAll [] _
    _ = taken.countP (·.boundary = .enter) := by
        rw [← countP_enter_accepted, ← accepted_eq_accepted_none hrule]

end Forest

end CallForest
