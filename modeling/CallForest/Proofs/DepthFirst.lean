import CallForest.Proofs.Nesting

/-!
# Depth-first visits replay the history

The depth-first visits of a forest come from a stack of frames.  Here they are read off the trees by
recursion, then off the spine, where every event adds one visit at the end.

* `Invocation.visits_eq_walk`: the visits from the stack are those by recursion;
* `Spine.visited_observe`: without a rule, an event taken in is one more visit;
* `Forest.depthFirst_run_empty`: without a rule, the visits are the events taken in, in their order,
  each with the number of calls open around it and the number of trees complete before it.
-/

namespace CallForest

/-- The event that a visit shows. -/
def Visit.crossing (v : Visit) : Crossing := ⟨v.boundary, v.function, v.sample⟩

/-- The event that a visit shows. -/
def Placed.crossing (v : Placed) : Crossing := v.visit.crossing

/-! ### Visits by recursion -/

namespace Invocation

mutual

/-- The visits of a tree whose root is at some depth. -/
def walk (depth : Nat) : Invocation → List Visit
  | ⟨function, entered, left, callees⟩ =>
    callVisit ⟨function, entered, left, callees⟩ depth ::
      (walkAll (depth + 1) callees ++
        (returnVisit? ⟨function, entered, left, callees⟩ depth).toList)

/-- The visits of several trees whose roots are at some depth. -/
def walkAll (depth : Nat) : List Invocation → List Visit
  | [] => []
  | t :: ts => t.walk depth ++ walkAll depth ts

end

variable (t : Invocation) (depth : Nat)

theorem walk_eq :
    t.walk depth =
      t.callVisit depth :: (walkAll (depth + 1) t.callees ++ (t.returnVisit? depth).toList) := by
  cases t
  rfl

theorem walkAll_append (ts us : List Invocation) :
    walkAll depth (ts ++ us) = walkAll depth ts ++ walkAll depth us := by
  induction ts with
  | nil => rfl
  | cons t ts ih => rw [List.cons_append, walkAll, ih, walkAll, List.append_assoc]

theorem walkAll_singleton : walkAll depth [t] = t.walk depth := by
  rw [walkAll, walkAll, List.append_nil]

theorem walkAll_eq_flatMap (ts : List Invocation) : walkAll depth ts = ts.flatMap (walk depth) := by
  induction ts with
  | nil => rfl
  | cons t ts ih => rw [walkAll, ih, List.flatMap_cons]

end Invocation

namespace Walk

/-- What the frames of a stack have yet to visit. -/
def rest : List Frame → List Visit
  | [] => []
  | f :: outer =>
    Invocation.walkAll (f.depth + 1) f.ahead ++
      ((f.node.returnVisit? f.depth).toList ++ rest outer)

/-- The next visit is the first of those to come. -/
theorem rest_eq (stack : List Frame) :
    rest stack =
      match next stack with
      | none => []
      | some (v, stack') => v :: rest stack' := by
  induction stack with
  | nil => rfl
  | cons f outer ih =>
    obtain ⟨node, depth, ahead⟩ := f
    rw [next, rest]
    cases ahead with
    | cons c ahead =>
      show (c.walk (depth + 1) ++ _) ++ _ = _
      rw [Invocation.walk_eq]
      simp [rest, Frame.start]
    | nil =>
      cases h : node.returnVisit? depth with
      | some v => rfl
      -- A frame that has nothing left, not even a return, is passed over.
      | none => simpa [Invocation.walkAll] using ih

theorem drain_eq (stack : List Frame) (done : List Visit) :
    drain stack done = done.reverse ++ rest stack := by
  induction stack, done using drain.induct with
  | case1 stack done h => rw [drain, rest_eq, h, List.append_nil]
  | case2 stack done v stack' h ih =>
    rw [drain, h, rest_eq, h]
    simpa using ih

end Walk

/-- **The visits from the stack are the visits by recursion.** -/
theorem Invocation.visits_eq_walk (t : Invocation) : t.visits = t.walk 0 := by
  rw [visits, Walk.drain_eq, walk_eq]
  simp [Walk.rest, Walk.Frame.start]

/-- Visits of several trees, placed by the positions of the trees and without their places. -/
theorem map_visit_flatMap_zipIdx (visits : Invocation → List Visit) (ts : List Invocation)
    (i : Nat) :
    ((ts.zipIdx i).flatMap fun (t, i) => (visits t).map (Placed.mk i ·)).map Placed.visit =
      ts.flatMap visits := by
  induction ts generalizing i with
  | nil => rfl
  | cons t ts ih =>
    rw [List.zipIdx_cons, List.flatMap_cons, List.map_append, ih, List.map_map, List.flatMap_cons]
    exact congrArg (· ++ _) (List.map_id _)

theorem Forest.map_visit_depthFirst (f : Forest) :
    f.depthFirst.map Placed.visit = Invocation.walkAll 0 f.roots := by
  simp only [depthFirst, Invocation.visits_eq_walk, Invocation.walkAll_eq_flatMap]
  exact map_visit_flatMap_zipIdx (Invocation.walk 0) f.roots 0

/-! ### Visits of a spine -/

namespace Pending

/-- The visits of the tree that execution is in: each pending activation is called and calls before
the next one does. -/
def opening : List Pending → List Visit
  | [] => []
  | p :: outer =>
    opening outer ++ p.node.callVisit outer.length ::
      Invocation.walkAll (outer.length + 1) p.node.callees

theorem walk_node (p : Pending) (depth : Nat) :
    p.node.walk depth = p.node.callVisit depth :: Invocation.walkAll (depth + 1) p.node.callees := by
  rw [Invocation.walk_eq, Invocation.returnVisit?, p.left_eq]
  exact congrArg _ (List.append_nil _)

theorem walk_leave (p : Pending) (sample : Sample) (depth : Nat) :
    (p.leave sample).walk depth =
      p.node.walk depth ++ [⟨depth, .leave, p.node.function, sample⟩] := by
  rw [walk_node, Invocation.walk_eq]
  rfl

theorem opening_cons (p : Pending) (outer : List Pending) :
    opening (p :: outer) = opening outer ++ p.node.walk outer.length := by
  rw [opening, walk_node]

theorem walk_rebuild (t : Invocation) (outer : List Pending) :
    (Cursor.rebuild t (outer.map Pending.node)).walk 0 = opening outer ++ t.walk outer.length := by
  induction outer generalizing t with
  | nil => rfl
  | cons p outer ih =>
    have hpush : (p.node.push t).walk outer.length =
        p.node.walk outer.length ++ t.walk (outer.length + 1) := by
      rw [walk_node, Invocation.walk_eq, Invocation.returnVisit?]
      show _ :: (Invocation.walkAll _ (p.node.callees ++ [t]) ++ (p.node.left.map _).toList) = _
      rw [p.left_eq, Invocation.walkAll_append, Invocation.walkAll_singleton]
      simp [Invocation.callVisit, Invocation.push]
    rw [List.map_cons, Cursor.rebuild, ih, hpush, opening_cons, List.length_cons, List.append_assoc]

end Pending

namespace Spine

/-- The visits of the forest of a spine. -/
def visited (S : Spine) : List Placed :=
  (S.trees.zipIdx.flatMap fun (t, i) => (t.walk 0).map (⟨i, ·⟩)) ++
    (Pending.opening S.pending).map (⟨S.trees.length, ·⟩)

theorem depthFirst_forest (rule : Option Retention) (S : Spine) :
    (S.forest rule).depthFirst = S.visited := by
  simp only [Forest.depthFirst, Invocation.visits_eq_walk, forest]
  cases h : S.pending with
  | nil => simp [roots_of_nil h, visited, h, Pending.opening]
  | cons p outer =>
    rw [roots_of_cons h, visited, h, Pending.opening_cons, List.zipIdx_append, List.flatMap_append]
    simp [Pending.walk_rebuild]

/-- The events of the visits, without their places. -/
theorem map_crossing_visited (S : Spine) :
    S.visited.map Placed.crossing =
      (Invocation.walkAll 0 S.trees).map Visit.crossing ++
        (Pending.opening S.pending).map Visit.crossing := by
  have htrees := map_visit_flatMap_zipIdx (Invocation.walk 0) S.trees 0
  have hvisit : S.visited.map Placed.visit =
      Invocation.walkAll 0 S.trees ++ Pending.opening S.pending := by
    rw [visited, List.map_append, htrees, List.map_map, Invocation.walkAll_eq_flatMap]
    exact congrArg (_ ++ ·) (List.map_id _)
  rw [← List.map_append, ← hvisit, List.map_map]
  rfl

theorem visited_enter (S : Spine) (function : Nat) (sample : Sample) :
    (S.enter function sample).visited =
      S.visited ++ [⟨S.trees.length, ⟨S.pending.length, .enter, function, sample⟩⟩] := by
  simp [visited, enter, Pending.opening, Pending.enter, Invocation.enter, Invocation.callVisit,
    Invocation.walkAll]

/-- A return that keeps is the next visit, whether what it completes is a tree or a callee. -/
theorem visited_leave {S : Spine} {p : Pending} {outer : List Pending} (h : S.pending = p :: outer)
    (sample : Sample) :
    (S.leave p outer sample .kept).visited =
      S.visited ++ [⟨S.trees.length, ⟨outer.length, .leave, p.node.function, sample⟩⟩] := by
  rw [visited, visited, h, Pending.opening_cons]
  -- Either one more tree is complete, or one more callee of the activation that waited.
  cases outer with
  | nil =>
    simp only [leave, settle]
    rw [List.zipIdx_append, List.flatMap_append]
    simp [Pending.walk_leave, Pending.opening]
  | cons q outer =>
    simp only [leave, settle]
    have hadd : Pending.opening (q.add [p.leave sample] (by simpa using p.settled_leave sample)
        :: outer) = Pending.opening (q :: outer) ++ (p.leave sample).walk (outer.length + 1) := by
      rw [Pending.opening, Pending.opening]
      simp [Pending.add, Invocation.callVisit, Invocation.walkAll_append,
        Invocation.walkAll_singleton]
    rw [hadd, Pending.walk_leave]
    simp

theorem length_trees_leave (S : Spine) (p : Pending) (outer : List Pending) (sample : Sample) :
    (S.leave p outer sample .kept).trees.length =
      if outer.isEmpty then S.trees.length + 1 else S.trees.length := by
  cases outer with
  | nil => simp [leave, settle]
  | cons q outer => rfl

end Spine

/-! ### Where an event stands -/

namespace Nesting

/-- The calls open around an event, its own not among them. -/
def around (calls : List Crossing) (e : Crossing) : List Crossing :=
  match e.boundary with
  | .enter => calls
  | .leave => calls.tail

/-- An event with the number of trees complete before it and the number of calls open around it. -/
def place (done : Nat) (calls : List Crossing) (e : Crossing) : Placed :=
  ⟨done, (around calls e).length, e.boundary, e.function, e.sample⟩

/-- The events of a well-nested history, each in its place.  A tree is complete when no call is
open any more. -/
def placed (done : Nat) (calls : List Crossing) : List Crossing → List Placed
  | [] => []
  | e :: es =>
    place done calls e ::
      placed (if (next calls e).isEmpty then done + 1 else done) (next calls e) es

theorem map_crossing_placed (done : Nat) (calls es : List Crossing) :
    (placed done calls es).map Placed.crossing = es := by
  induction es generalizing done calls with
  | nil => rfl
  | cons e es ih =>
    rw [placed, List.map_cons, ih]
    rfl

end Nesting

namespace Spine

/-- **An event taken in is one more visit**, in its place. -/
theorem visited_observe {S S' : Spine} {e : Crossing} (h : S.observe none e = .ok S') :
    S'.visited = S.visited ++ [Nesting.place S.trees.length S.calls e] ∧
      S'.calls = Nesting.next S.calls e ∧
      S'.trees.length =
        if (Nesting.next S.calls e).isEmpty then S.trees.length + 1 else S.trees.length := by
  obtain ⟨he, rfl⟩ | ⟨p, outer, v, hp, he, hv, rfl⟩ := observe_cases h
  · rw [he]
    refine ⟨?_, rfl, rfl⟩
    rw [visited_enter, calls, Nesting.place, Nesting.around, List.length_map]
  · cases hv
    have hcalls : S.calls = p.call :: outer.map Pending.call := by
      rw [calls, hp, List.map_cons]
    rw [he, hcalls]
    refine ⟨?_, calls_leave S p outer _ _, ?_⟩
    · rw [visited_leave hp]
      simp [Nesting.place, Nesting.around]
    · rw [length_trees_leave]
      cases outer <;> rfl

/-- The visits after a history are those before it and the events taken in, in their places. -/
theorem visited_final (S : Spine) (es : List Crossing) :
    (History.final (observe none) S es).visited =
      S.visited ++
        Nesting.placed S.trees.length S.calls (History.accepted (observe none) S es) := by
  induction es generalizing S with
  | nil => exact (List.append_nil _).symm
  | cons e es ih =>
    rw [History.final, History.accepted]
    cases h : S.observe none e with
    | error fault =>
      dsimp only
      split
      · exact (List.append_nil _).symm
      · exact ih S
    | ok S' =>
      obtain ⟨hvisited, hcalls, hlength⟩ := visited_observe h
      rw [Nesting.placed, ← hlength, ← hcalls]
      refine (ih S').trans ?_
      rw [hvisited, List.append_assoc]
      rfl

end Spine

namespace Forest

/-- Without a rule the visits of the trees show the events taken in, in their order. -/
theorem map_crossing_walkAll_run (es : List Crossing) :
    (Invocation.walkAll 0 ((empty none).run es).roots).map Visit.crossing =
      (empty none).accepted es := by
  have hvisited : (Spine.ofHistory none es).visited.map Placed.crossing =
      History.accepted (Spine.observe none) .empty es := by
    rw [Spine.ofHistory, Spine.visited_final]
    exact Nesting.map_crossing_placed 0 [] _
  rw [accepted_empty, ← hvisited, ← map_visit_depthFirst, run_empty, Spine.depthFirst_forest,
    List.map_map]
  rfl

theorem map_crossing_walkAll_of_foldlM {es : List Crossing} {f : Forest}
    (h : es.foldlM feed (empty none) = .ok f) :
    (Invocation.walkAll 0 f.roots).map Visit.crossing = es := by
  have hrun : (empty none).run es = f := by rw [run_eq_final, History.final_of_foldlM h]
  rw [← hrun, map_crossing_walkAll_run, accepted_eq]
  exact History.accepted_of_foldlM h

/-- **Depth-first visits replay the history.**  After any history, the visits of a forest without a
rule are the events it took in, in their order, each with the number of the tree that it belongs to
and the number of calls open around it. -/
theorem depthFirst_run_empty (es : List Crossing) :
    let f := (empty none).run es
    f.depthFirst.map Placed.crossing = (empty none).accepted es ∧
    f.depthFirst = Nesting.placed 0 [] ((empty none).accepted es) := by
  intro f
  have h : f.depthFirst = Nesting.placed 0 [] ((empty none).accepted es) := by
    change ((empty none).run es).depthFirst = _
    rw [run_empty, Spine.depthFirst_forest, accepted_empty, Spine.ofHistory, Spine.visited_final]
    rfl
  refine ⟨?_, h⟩
  rw [h, Nesting.map_crossing_placed]

/-- Two nested calls and, once both have returned, one more. -/
example (s : Sample) :
    (Nesting.placed 0 []
        [⟨.enter, 7, s⟩, ⟨.enter, 8, s⟩, ⟨.leave, 8, s⟩, ⟨.leave, 7, s⟩, ⟨.enter, 9, s⟩]).map
      (fun v => (v.width, v.visit.depth)) = [(0, 0), (0, 1), (0, 1), (0, 0), (1, 0)] :=
  rfl

end Forest

end CallForest
