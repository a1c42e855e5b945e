import CallForest.Proofs.LevelOrder

/-!
# Visits taken one by one

Both kinds of visits come from a source that is asked for the next visit until it has none.  Here
the sources are shown to run dry, and what they give is described by recursion over the tree, one
step at a time.

* `Yields`: what a source gives until it has nothing more;
* `Yields.of_rest`: a list of what is to come that agrees with every step is what the source gives;
* `Invocation.visits_yielded`: the depth-first visits;
* `Invocation.level_yielded`: the visits of one level.
-/

namespace CallForest

/-! ### Sources -/

/-- What a source gives, one thing after the other, until it has nothing more. -/
inductive Yields {σ α : Type} (next : σ → Option (α × σ)) : σ → List α → Prop where
  | done {s : σ} (h : next s = none) : Yields next s []
  | more {s s' : σ} {a : α} {as : List α} (h : next s = some (a, s')) (rest : Yields next s' as) :
    Yields next s (a :: as)

section

variable {σ α : Type} {next : σ → Option (α × σ)}

/-- What is to come in every state is what the source gives, if each step takes its first off. -/
theorem Yields.of_rest {rest : σ → List α} (hdone : ∀ {s}, next s = none → rest s = [])
    (hmore : ∀ {s a s'}, next s = some (a, s') → rest s = a :: rest s') (s : σ) :
    Yields next s (rest s) := by
  -- On what is to come: the list is finite, so the source runs dry.
  generalize hs : rest s = as
  induction as generalizing s with
  | nil =>
    refine .done ?_
    cases hnext : next s with
    | none => rfl
    | some found =>
      rw [hmore hnext] at hs
      cases hs
  | cons a as ih =>
    cases hnext : next s with
    | none =>
      rw [hdone hnext] at hs
      cases hs
    | some found =>
      rw [hmore hnext] at hs
      cases hs
      exact .more hnext (ih found.2 rfl)

end

/-- From every stack of frames the walk gives what these have yet to visit. -/
theorem Walk.yields_rest (stack : List Frame) : Yields next stack (rest stack) := by
  refine .of_rest (fun {s} h => ?_) (fun {s _ _} h => ?_) stack
  · rw [rest_eq, h]
  · rw [rest_eq, h]

/-- From every state the search gives what it has ahead. -/
theorem Level.yields_rest (goal : Nat) (s : Search) : Yields (next goal) s (rest goal s) := by
  refine .of_rest (fun {s} h => ?_) (fun {s _ _} h => ?_) s
  · rw [rest_eq, h]
  · rw [rest_eq, h]

/-! ### The visits of a tree inside another -/

/-- The same event, seen from one level further up. -/
def Visit.deeper (v : Visit) : Visit := { v with depth := v.depth + 1 }

namespace Invocation

theorem map_deeper_ownVisits (depth : Nat) (t : Invocation) :
    (t.ownVisits depth).map Visit.deeper = t.ownVisits (depth + 1) := by
  rw [ownVisits, ownVisits, List.map_cons, returnVisit?, returnVisit?]
  cases t.left <;> rfl

theorem map_deeper_walkAll (depth : Nat) (ts : List Invocation) :
    (walkAll depth ts).map Visit.deeper = walkAll (depth + 1) ts := by
  induction ts using listInduction generalizing depth with
  | nil => rfl
  | cons t ts callees ih =>
    have hown := map_deeper_ownVisits depth t
    rw [ownVisits, ownVisits, List.map_cons, List.cons.injEq] at hown
    rw [walkAll, walkAll, walk_eq, walk_eq, List.map_append, List.map_cons, List.map_append,
      callees, ih, hown.1, hown.2]

theorem returnVisit?_toList (depth : Nat) (t : Invocation) :
    (t.returnVisit? depth).toList = t.left.toList.map (⟨depth, .leave, t.function, ·⟩) := by
  rw [returnVisit?]
  cases t.left <;> rfl

theorem visits_eq_flatMap (t : Invocation) :
    t.visits = t.callVisit 0 ::
      ((t.callees.flatMap fun c => c.visits.map Visit.deeper) ++ (t.returnVisit? 0).toList) := by
  have hcallees : (t.callees.flatMap fun c => c.visits.map Visit.deeper) =
      walkAll (0 + 1) t.callees := by
    rw [← map_deeper_walkAll, walkAll_eq_flatMap, List.map_flatMap]
    simp only [visits_eq_walk]
  rw [hcallees, visits_eq_walk, walk_eq]

theorem level_zero (t : Invocation) : t.level 0 = t.ownVisits 0 := by
  rw [level_eq, atDepth, List.flatMap_singleton]

theorem level_succ (t : Invocation) (depth : Nat) :
    t.level (depth + 1) = t.callees.flatMap fun c => (c.level depth).map Visit.deeper := by
  simp only [level_eq, atDepth, List.flatMap_assoc, List.map_flatMap, map_deeper_ownVisits]

theorem depth_of_mem_level {t : Invocation} {depth : Nat} {v : Visit} (h : v ∈ t.level depth) :
    v.depth = depth := by
  rw [level_eq] at h
  obtain ⟨u, -, hv⟩ := List.mem_flatMap.1 h
  exact depth_of_mem_ownVisits hv

/-! ### What the sources give -/

/-- **The walk gives the visits by recursion.**  Whatever the shape of a tree, the walk that starts
behind the call of its root runs dry, and gives the visits of each callee in turn, one level deeper,
and at last the return of the root, if it has one. -/
theorem visits_yielded (t : Invocation) :
    (∃ vs, Yields Walk.next [.start t 0] vs ∧ t.visits = t.callVisit 0 :: vs) ∧
    t.visits = ⟨0, .enter, t.function, t.entered⟩ ::
      ((t.callees.flatMap fun c => c.visits.map Visit.deeper) ++
        t.left.toList.map (⟨0, .leave, t.function, ·⟩)) := by
  refine ⟨⟨Walk.rest [.start t 0], Walk.yields_rest _, ?_⟩, ?_⟩
  · rw [visits, Walk.drain_eq]
    rfl
  · rw [visits_eq_flatMap, returnVisit?_toList]
    rfl

/-- **The search gives the visits of a level by recursion.**  Whatever the shape of a tree and the
depth, the search runs dry.  At depth zero it gives the call of the root and its return, if it has
one; further down it gives what it gives for each callee in turn, one level deeper.  All it gives
is at that depth. -/
theorem level_yielded (t : Invocation) (depth : Nat) :
    Yields (Level.next depth) ⟨[(t, 0)], none⟩ (t.level depth) ∧
    t.level 0 = ⟨0, .enter, t.function, t.entered⟩ ::
      t.left.toList.map (⟨0, .leave, t.function, ·⟩) ∧
    t.level (depth + 1) = (t.callees.flatMap fun c => (c.level depth).map Visit.deeper) ∧
    ∀ v ∈ t.level depth, v.depth = depth := by
  refine ⟨?_, ?_, t.level_succ depth, fun v => depth_of_mem_level⟩
  · have hlevel : t.level depth = Level.rest depth ⟨[(t, 0)], none⟩ := by
      rw [level, Level.drain_eq]
      rfl
    rw [hlevel]
    exact Level.yields_rest depth _
  · rw [level_zero, ownVisits, returnVisit?_toList]
    rfl

/-- The level of an open callee next to one that has returned and made a call of its own. -/
theorem level_yielded_uneven :
    let t : Invocation := ⟨0, .zero, none,
      [⟨1, .zero, some .zero, [⟨2, .zero, some .zero, []⟩]⟩, ⟨3, .zero, none, []⟩]⟩
    let v : Visit := ⟨1, .leave, 1, .zero⟩
    v ∈ t.level 1 ∧ v.depth = 1 := by
  intro t v
  have hmem : v ∈ t.level 1 := by
    rw [level_eq]
    decide
  obtain ⟨-, -, -, htagged⟩ := t.level_yielded 1
  exact ⟨hmem, htagged v hmem⟩

end Invocation

end CallForest
