import CallForest.Proofs.DepthFirst
import CallForest.Proofs.Pruning

/-!
# Rebuilding a forest from its visits

The depth-first visits of a forest are a history of their own.  Fed to a new forest with a rule, they
are all taken in, and what they build is the old forest without what fails the rule's test.

* `Spine.replay_walkAll` and `Spine.replay_opening`: what the visits of settled trees, and of a path
  of pending activations, do to any spine;
* `Spine.replay_visited`: what the visits of a spine build;
* `Forest.run_depthFirst`: the rules of the two forests compose.
-/

namespace CallForest

namespace Spine

/-- The spine after settled trees were replayed under a test. -/
def absorb (test : Sample → Sample → Bool) (S : Spine) (ts : List Invocation)
    (h : ∀ t ∈ ts, t.Settled) : Spine :=
  { S with dropped := S.dropped + Invocation.failings test ts }.settle
    (Invocation.pruneAll test ts) (Invocation.settled_pruneAll test h)

section

variable {rule : Option Retention} {test : Sample → Sample → Bool}

theorem absorb_nil (S : Spine) (h : ∀ t ∈ [], Invocation.Settled t) : S.absorb test [] h = S :=
  settle_nil S h

theorem absorb_cons (S : Spine) (t : Invocation) (ts : List Invocation) (ht : t.Settled)
    (hts : ∀ u ∈ ts, u.Settled) :
    (S.absorb test [t] (by simpa using ht)).absorb test ts hts =
      S.absorb test (t :: ts) (by simpa using ⟨ht, hts⟩) := by
  have hprune : Invocation.pruneAll test (t :: ts) =
      Invocation.pruneAll test [t] ++ Invocation.pruneAll test ts :=
    Invocation.pruneAll_append test [t] ts
  have hfailings : Invocation.failings test (t :: ts) =
      Invocation.failings test [t] + Invocation.failings test ts :=
    Invocation.failings_append test [t] ts
  obtain ⟨trees, settled, pending, dropped⟩ := S
  cases pending <;> simp [absorb, settle, Pending.add, hprune, hfailings, Nat.add_assoc]

/-- A call, the replay of what it calls and its return are the replay of its activation. -/
theorem observe_absorb (h : Retention.Decides rule test) (S : Spine) {t : Invocation}
    (ht : t.Settled) {sample : Sample} (hleft : t.left = some sample) :
    ((S.enter t.function t.entered).absorb test t.callees ht.callees).observe rule
        ⟨.leave, t.function, sample⟩ =
      .ok (S.absorb test [t] (by simpa using ht)) := by
  -- What returns is the activation that was entered, with what its callees left in it.
  let p : Pending := (Pending.enter t.function t.entered).add
    (Invocation.pruneAll test t.callees) (Invocation.settled_pruneAll test ht.callees)
  have hfails : t.fails test = !test t.entered sample := by
    rw [Invocation.fails, hleft]
  have hleave : t.prune test = p.leave sample := by
    ext1
    · exact t.function_prune test
    · exact t.entered_prune test
    · exact (t.left_prune test).trans hleft
    · exact t.callees_prune test
  have hobserve : ((S.enter t.function t.entered).absorb test t.callees ht.callees).observe rule
      ⟨.leave, t.function, sample⟩ =
      (Invocation.judge rule t.entered sample).map
        (((S.enter t.function t.entered).absorb test t.callees ht.callees).leave p S.pending
          sample) :=
    if_pos rfl
  rw [hobserve, h]
  refine congrArg Except.ok ?_
  cases htest : test t.entered sample with
  | true =>
    have hprune : Invocation.pruneAll test [t] = [p.leave sample] := by
      rw [Invocation.pruneAll, hfails, htest, hleave]
      rfl
    have hfailings : Invocation.failings test [t] = Invocation.failings test t.callees := by
      simp [Invocation.failings, Invocation.failing_eq, hfails, htest]
    simp only [absorb, hprune, hfailings]
    rfl
  | false =>
    have hprune : Invocation.pruneAll test [t] = [] := by
      rw [Invocation.pruneAll, hfails, htest]
      rfl
    have hfailings : Invocation.failings test [t] = Invocation.failings test t.callees + 1 := by
      simp [Invocation.failings, Invocation.failing_eq, hfails, htest, Nat.add_comm]
    simp only [absorb, hprune, hfailings, settle_nil]
    rfl

/-- **The visits of settled trees add them** to any spine, without what fails the test. -/
theorem replay_walkAll (h : Retention.Decides rule test) (ts : List Invocation)
    (hts : ∀ t ∈ ts, t.Settled) (depth : Nat) (S : Spine) :
    ((Invocation.walkAll depth ts).map Visit.crossing).foldlM (observe rule) S =
      .ok (S.absorb test ts hts) := by
  -- The callees of the first tree are replayed one level down, in a spine with one more call.
  induction ts using Invocation.listInduction generalizing depth S with
  | nil => rw [absorb_nil]; rfl
  | cons t ts callees ih =>
    obtain ⟨ht, hts'⟩ := List.forall_mem_cons.1 hts
    obtain ⟨sample, hleft⟩ := Option.isSome_iff_exists.1 ht.left
    have hwalk : (t.walk depth).map Visit.crossing =
        ⟨.enter, t.function, t.entered⟩ ::
          ((Invocation.walkAll (depth + 1) t.callees).map Visit.crossing ++
            [⟨.leave, t.function, sample⟩]) := by
      rw [Invocation.walk_eq, Invocation.returnVisit?, hleft]
      simp [Invocation.callVisit, Visit.crossing]
    have henter : S.observe rule ⟨.enter, t.function, t.entered⟩ =
        .ok (S.enter t.function t.entered) := rfl
    have htree : ((t.walk depth).map Visit.crossing).foldlM (observe rule) S =
        .ok (S.absorb test [t] (by simpa using ht)) := by
      rw [hwalk, History.foldlM_cons_of_eq_ok henter,
        History.foldlM_append_of_eq_ok (callees ht.callees (depth + 1) _),
        History.foldlM_cons_of_eq_ok (observe_absorb h S ht hleft)]
      rfl
    rw [Invocation.walkAll, List.map_append, History.foldlM_append_of_eq_ok htree,
      ih hts' depth, absorb_cons S t ts ht hts']

/-- The visits of a path of pending activations put it inside what is pending already. -/
theorem replay_opening (h : Retention.Decides rule test) (path : List Pending) (S : Spine) :
    ((Pending.opening path).map Visit.crossing).foldlM (observe rule) S =
      .ok { S with
        pending := path.map (Pending.prune test) ++ S.pending
        dropped := S.dropped + Pending.failings test path } := by
  induction path with
  | nil => rfl
  | cons p outer ih =>
    have hwalk : (p.node.walk outer.length).map Visit.crossing =
        p.call :: (Invocation.walkAll (outer.length + 1) p.node.callees).map Visit.crossing := by
      rw [Pending.walk_node]
      rfl
    -- The innermost activation starts without callees and absorbs those that the old one has.
    have hprune : p.prune test = (Pending.enter p.node.function p.node.entered).add
        (Invocation.pruneAll test p.node.callees) (Invocation.settled_pruneAll test p.settled) := by
      ext1
      ext1
      · exact p.node.function_prune test
      · exact p.node.entered_prune test
      · exact (p.node.left_prune test).trans p.left_eq
      · exact p.node.callees_prune test
    rw [Pending.opening_cons, List.map_append, History.foldlM_append_of_eq_ok ih, hwalk]
    have hcall : ∀ S : Spine, S.observe rule p.call =
        .ok (S.enter p.node.function p.node.entered) := fun _ => rfl
    rw [History.foldlM_cons_of_eq_ok (hcall _), replay_walkAll h _ p.settled]
    refine congrArg Except.ok ?_
    ext1
    · rfl
    · rw [List.map_cons, hprune]
      rfl
    · show S.dropped + _ + Invocation.failings test p.node.callees = S.dropped + _
      rw [Pending.failings]
      omega

/-- **The visits of a spine build it anew**, without what fails the test. -/
theorem replay_visited (h : Retention.Decides rule test) (S : Spine) :
    (S.visited.map Placed.crossing).foldlM (observe rule) empty =
      .ok (({ S with dropped := 0 } : Spine).prune test) := by
  rw [map_crossing_visited,
    History.foldlM_append_of_eq_ok (replay_walkAll h S.trees S.settled 0 empty),
    replay_opening h]
  refine congrArg Except.ok ?_
  ext1
  · rfl
  · exact List.append_nil _
  · exact Nat.add_assoc _ _ _

/-- A rule finds nothing to drop where it has dropped already. -/
theorem failing_prune (S : Spine) : (S.prune test).failing test = 0 := by
  show Invocation.failings test (Invocation.pruneAll test S.trees) + _ = 0
  rw [Invocation.failings_pruneAll, Nat.zero_add]
  exact Pending.failings_map_prune test S.pending

end

end Spine

namespace Forest

section

variable {rule rule' : Option Retention} {test test' : Sample → Sample → Bool}

/-- What the visits of a forest build under another rule. -/
theorem replay_run (h : Retention.Decides rule test) (h' : Retention.Decides rule' test')
    (es : List Crossing) :
    let replay := ((empty rule).run es).depthFirst.map Placed.crossing
    let S := Spine.ofHistory none es
    (empty rule').accepted replay = replay ∧
    (empty rule').run replay =
      (({ S.prune test with dropped := 0 } : Spine).prune test').forest rule' := by
  intro replay S
  have hreplay : replay.foldlM (Spine.observe rule') .empty =
      .ok (({ S.prune test with dropped := 0 } : Spine).prune test') := by
    have hvisited : replay = (S.prune test).visited.map Placed.crossing := by
      change ((empty rule).run es).depthFirst.map Placed.crossing = _
      rw [run_empty, Spine.depthFirst_forest, Spine.ofHistory_eq_prune h]
    rw [hvisited]
    exact Spine.replay_visited h' (S.prune test)
  refine ⟨?_, ?_⟩
  · rw [accepted_empty, History.accepted_of_foldlM hreplay]
  · rw [run_empty, Spine.ofHistory, History.final_of_foldlM hreplay]

theorem roots_replay_run (h : Retention.Decides rule test) (h' : Retention.Decides rule' test')
    (es : List Crossing) :
    ((empty rule').run (((empty rule).run es).depthFirst.map Placed.crossing)).roots =
      Invocation.pruneAll (fun a b => test a b && test' a b) ((empty none).run es).roots := by
  rw [(replay_run h h' es).2, run_empty, ← Invocation.pruneAll_pruneAll]
  refine (Spine.roots_prune test' _).trans (congrArg _ ?_)
  exact Spine.roots_prune test (Spine.ofHistory none es)

end

/-- **Rebuilding composes rules.**  The visits of a forest with a test are taken in by any forest
with another one, which then holds what a forest with both tests holds after the history of the first.
Without a second test, or with the same one, the first forest comes back, and nothing is dropped. -/
theorem run_depthFirst (label label' label'' : String) (test test' : Sample → Sample → Bool)
    (es : List Crossing) :
    let f := (empty (some (.ofTest label test))).run es
    let replay := f.depthFirst.map Placed.crossing
    ((empty (some (.ofTest label' test'))).accepted replay = replay ∧
      ((empty (some (.ofTest label' test'))).run replay).roots =
        ((empty (some (.ofTest label'' fun a b => test a b && test' a b))).run es).roots) ∧
    ((empty none).accepted replay = replay ∧ ((empty none).run replay).roots = f.roots) ∧
    ((empty (some (.ofTest label' test))).run replay).roots = f.roots ∧
      ((empty (some (.ofTest label' test))).run replay).droppedCount = 0 := by
  intro f replay
  have h := Retention.decides_ofTest label test
  have hboth := Retention.decides_ofTest label'' fun a b => test a b && test' a b
  have hsame := Retention.decides_ofTest label' test
  have hroots : f.roots = Invocation.pruneAll test ((empty none).run es).roots :=
    roots_run_eq_pruneAll h es
  refine ⟨⟨(replay_run h (Retention.decides_ofTest label' test') es).1, ?_⟩,
    ⟨(replay_run h Retention.decides_none es).1, ?_⟩, ?_, ?_⟩
  · rw [roots_replay_run h (Retention.decides_ofTest label' test') es,
      roots_run_eq_pruneAll hboth]
  · rw [roots_replay_run h Retention.decides_none es, hroots]
    simp only [Bool.and_true]
  · rw [roots_replay_run h hsame es, hroots]
    simp only [Bool.and_self]
  · rw [(replay_run h hsame es).2]
    exact (Nat.zero_add _).trans (Spine.failing_prune (Spine.ofHistory none es))

end Forest

end CallForest
