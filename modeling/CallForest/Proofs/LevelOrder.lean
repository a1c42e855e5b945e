import CallForest.Proofs.DepthFirst

/-!
# Width-first visits are the level order

The width-first visits of a forest come from one search through every tree for every level.  Here
they are read off the trees by recursion and compared with the depth-first visits.

* `Invocation.level_eq`: what the search through a tree finds is its activations at one depth, each
  with its call and, if it has returned, its return;
* `Invocation.filter_walkAll`: these are also the depth-first visits at that depth, in their order;
* `Forest.widthFirst_eq_levels`: the width-first visits are those of the activations at depth
  `0`, `1`, …, numbered within each level across all trees.
-/

namespace CallForest

namespace Invocation

/-- The activations some levels below this one, from left to right. -/
def atDepth : Nat → Invocation → List Invocation
  | 0, t => [t]
  | depth + 1, t => t.callees.flatMap (atDepth depth)

/-- The visits of an activation without those of its callees. -/
def ownVisits (depth : Nat) (t : Invocation) : List Visit :=
  t.callVisit depth :: (t.returnVisit? depth).toList

end Invocation

/-! ### The search through one tree -/

namespace Level

variable (goal : Nat)

/-- The activations that a search has yet to find. -/
def ahead (stack : List (Invocation × Nat)) : List Invocation :=
  stack.flatMap fun (t, depth) => if depth ≤ goal then t.atDepth (goal - depth) else []

/-- Above the goal an activation has ahead of it what its callees have. -/
theorem ahead_below (t : Invocation) {depth : Nat} (h : depth ≠ goal) :
    ahead goal (below t depth) = if depth ≤ goal then t.atDepth (goal - depth) else [] := by
  rw [ahead, below, List.flatMap_map]
  by_cases hle : depth ≤ goal
  · obtain ⟨k, rfl⟩ : ∃ k, goal = depth + 1 + k := ⟨goal - depth - 1, by omega⟩
    have hk : depth + 1 + k - depth = k + 1 := by omega
    simp [hk, Invocation.atDepth, show depth ≤ depth + 1 + k by omega]
  · have hlt : ¬depth + 1 ≤ goal := by omega
    simp [hle, hlt]

/-- What a search finds next is the first of what it has ahead. -/
theorem ahead_eq (stack : List (Invocation × Nat)) :
    ahead goal stack =
      match seek goal stack with
      | none => []
      | some (t, stack') => t :: ahead goal stack' := by
  fun_induction seek goal stack with
  | case1 => rfl
  | case2 t stack => simp [ahead, Invocation.atDepth]
  | case3 t depth stack h ih =>
    rw [← ih]
    have hbelow := ahead_below goal t h
    simp only [ahead, List.flatMap_append, List.flatMap_cons] at hbelow ⊢
    rw [hbelow]

/-- The visits that a search has yet to make. -/
def rest (s : Search) : List Visit :=
  s.owed.toList ++ (ahead goal s.stack).flatMap (Invocation.ownVisits goal)

/-- The next visit is the first of those to come. -/
theorem rest_eq (s : Search) :
    rest goal s =
      match next goal s with
      | none => []
      | some (v, s') => v :: rest goal s' := by
  obtain ⟨stack, owed⟩ := s
  cases owed with
  | some v => rfl
  | none =>
    rw [rest, next, ahead_eq]
    cases seek goal stack with
    | none => rfl
    | some found => rfl

theorem drain_eq (s : Search) (done : List Visit) :
    drain goal s done = done.reverse ++ rest goal s := by
  induction s, done using drain.induct goal with
  | case1 s done h => rw [drain, rest_eq, h, List.append_nil]
  | case2 s done v s' h ih =>
    rw [drain, h, rest_eq, h]
    simpa using ih

end Level

namespace Invocation

/-- **The search finds the activations at one depth**, from left to right. -/
theorem level_eq (t : Invocation) (depth : Nat) :
    t.level depth = (t.atDepth depth).flatMap (ownVisits depth) := by
  rw [level, Level.drain_eq]
  simp [Level.rest, Level.ahead]

/-! ### The depth-first visits at one depth -/

theorem le_depth_of_mem_walkAll {v : Visit} {depth : Nat} {ts : List Invocation}
    (h : v ∈ walkAll depth ts) : depth ≤ v.depth := by
  induction ts using listInduction generalizing depth with
  | nil => cases h
  | cons t ts callees ih =>
    rw [walkAll, walk_eq, List.mem_append, List.mem_cons, List.mem_append] at h
    obtain (rfl | h | h) | h := h
    · exact Nat.le_refl depth
    · exact Nat.le_of_succ_le (callees h)
    · obtain ⟨s, -, rfl⟩ := Option.map_eq_some_iff.1 (Option.mem_toList.1 h)
      exact Nat.le_refl depth
    · exact ih h

theorem depth_of_mem_ownVisits {v : Visit} {depth : Nat} {t : Invocation}
    (h : v ∈ t.ownVisits depth) : v.depth = depth := by
  obtain rfl | h := List.mem_cons.1 h
  · rfl
  · obtain ⟨s, -, rfl⟩ := Option.map_eq_some_iff.1 (Option.mem_toList.1 h)
    rfl

/-- Of the own visits of activations, the calls are one for each. -/
theorem filter_enter_ownVisits (ts : List Invocation) (depth : Nat) :
    (ts.flatMap (ownVisits depth)).filter (·.boundary = .enter) = ts.map (·.callVisit depth) := by
  induction ts with
  | nil => rfl
  | cons t ts ih =>
    rw [List.flatMap_cons, List.filter_append, ih, List.map_cons, ownVisits, returnVisit?]
    cases t.left <;> simp [callVisit]

/-- Of the visits of a tree, those at the depth of its root are its own. -/
theorem filter_walk_zero (t : Invocation) (depth : Nat) :
    (t.walk depth).filter (·.depth = depth) = t.ownVisits depth := by
  have hcallees : (walkAll (depth + 1) t.callees).filter (·.depth = depth) = [] := by
    rw [List.filter_eq_nil_iff]
    intro v hv
    have := le_depth_of_mem_walkAll hv
    simp only [decide_eq_true_eq]
    omega
  have hreturn : (t.returnVisit? depth).toList.filter (·.depth = depth) =
      (t.returnVisit? depth).toList := by
    rw [List.filter_eq_self]
    intro v hv
    rw [decide_eq_true_eq]
    exact depth_of_mem_ownVisits (List.mem_cons_of_mem _ hv)
  rw [walk_eq, List.filter_cons_of_pos (by simp [callVisit]), List.filter_append, hcallees,
    hreturn]
  rfl

/-- Of the visits of a tree, those below its root are the ones of its callees. -/
theorem filter_walk_succ (t : Invocation) (depth k : Nat) :
    (t.walk depth).filter (·.depth = depth + (k + 1)) =
      (walkAll (depth + 1) t.callees).filter (·.depth = depth + (k + 1)) := by
  have hown : ∀ v ∈ t.ownVisits depth, ¬v.depth = depth + (k + 1) := by
    intro v hv
    rw [depth_of_mem_ownVisits hv]
    omega
  obtain ⟨hcall, hreturn⟩ := List.forall_mem_cons.1 hown
  have hnil : (t.returnVisit? depth).toList.filter (·.depth = depth + (k + 1)) = [] := by
    simpa [List.filter_eq_nil_iff] using hreturn
  rw [walk_eq, List.filter_cons_of_neg (by simpa using hcall), List.filter_append, hnil,
    List.append_nil]

/-- **The depth-first visits at one depth** are those of the activations there, from left to
right. -/
theorem filter_walkAll (ts : List Invocation) (depth k : Nat) :
    (walkAll depth ts).filter (·.depth = depth + k) =
      (ts.flatMap (atDepth k)).flatMap (ownVisits (depth + k)) := by
  -- On the trees and, below the first of them, on its callees, one level down.
  induction ts using listInduction generalizing depth k with
  | nil => rfl
  | cons t ts callees ih =>
    have htree : (t.walk depth).filter (·.depth = depth + k) =
        (t.atDepth k).flatMap (ownVisits (depth + k)) := by
      cases k with
      | zero =>
        rw [Nat.add_zero, filter_walk_zero, atDepth, List.flatMap_singleton]
      | succ k =>
        rw [filter_walk_succ, atDepth, Nat.add_comm k 1, ← Nat.add_assoc]
        exact callees (depth + 1) k
    rw [walkAll, List.filter_append, htree, ih, List.flatMap_cons, List.flatMap_append]

end Invocation

/-! ### The numbers within a level -/

namespace Forest

/-- The numbering as a running count of the calls, less one.  It fails where the count is zero. -/
def numbered? (seen : Nat) : List Visit → Option (List Placed)
  | [] => some []
  | v :: vs =>
    let seen := if v.boundary = .enter then seen + 1 else seen
    if seen = 0 then none else (numbered? seen vs).map (⟨seen - 1, v⟩ :: ·)

/-- The own visits of activations, each with the position of its activation. -/
def numberedOwn (depth seen : Nat) (ts : List Invocation) : List Placed :=
  (ts.zipIdx seen).flatMap fun (t, i) => (t.ownVisits depth).map (⟨i, ·⟩)

/-- Where the running count is never zero, nothing is cut off. -/
theorem numbered_of_numbered? {seen : Nat} {vs : List Visit} {ps : List Placed}
    (h : numbered? seen vs = some ps) : numbered seen vs = ps := by
  induction vs generalizing seen ps with
  | nil => exact Option.some.inj h
  | cons v vs ih =>
    rw [numbered?] at h
    rw [numbered]
    cases hv : v.boundary with
    | enter =>
      simp only [hv, if_true, Nat.add_one_ne_zero, if_false, Option.map_eq_some_iff] at h
      obtain ⟨qs, hqs, rfl⟩ := h
      exact congrArg (⟨seen, v⟩ :: ·) (ih hqs)
    | leave =>
      simp only [hv, reduceCtorEq, if_false, Option.ite_none_left_eq_some,
        Option.map_eq_some_iff] at h
      obtain ⟨-, qs, hqs, rfl⟩ := h
      exact congrArg (⟨seen - 1, v⟩ :: ·) (ih hqs)

/-- The running count is never zero, because a return comes directly after its call. -/
theorem numbered?_flatMap_ownVisits (depth seen : Nat) (ts : List Invocation) :
    numbered? seen (ts.flatMap (Invocation.ownVisits depth)) =
      some (numberedOwn depth seen ts) := by
  induction ts generalizing seen with
  | nil => rfl
  | cons t ts ih =>
    rw [List.flatMap_cons, numberedOwn, List.zipIdx_cons, List.flatMap_cons, ← numberedOwn]
    cases hleft : t.left with
    | none =>
      simp [Invocation.ownVisits, Invocation.returnVisit?, hleft, numbered?, Invocation.callVisit,
        ih]
    | some s =>
      simp [Invocation.ownVisits, Invocation.returnVisit?, hleft, numbered?, Invocation.callVisit,
        ih]

variable (f : Forest)

/-- The activations at one depth, across all trees from left to right. -/
def atDepth (depth : Nat) : List Invocation := f.roots.flatMap (Invocation.atDepth depth)

theorem levelVisits_eq (depth : Nat) :
    f.roots.flatMap (·.level depth) = (f.atDepth depth).flatMap (Invocation.ownVisits depth) := by
  simp only [atDepth, Invocation.level_eq, List.flatMap_assoc]

theorem level_eq_numberedOwn (depth : Nat) :
    f.level depth = numberedOwn depth 0 (f.atDepth depth) := by
  rw [level, levelVisits_eq]
  exact numbered_of_numbered? (numbered?_flatMap_ownVisits depth 0 _)

/-! ### All levels -/

theorem map_visit_level_eq (depth : Nat) :
    (f.level depth).map Placed.visit = (f.atDepth depth).flatMap (Invocation.ownVisits depth) := by
  rw [level_eq_numberedOwn]
  exact map_visit_flatMap_zipIdx (Invocation.ownVisits depth) (f.atDepth depth) 0

/-- A level holds the depth-first visits at its depth, in their order. -/
theorem map_visit_level (depth : Nat) :
    (f.level depth).map Placed.visit =
      (f.depthFirst.map Placed.visit).filter (·.depth = depth) := by
  have hwalk := Invocation.filter_walkAll f.roots 0 depth
  rw [Nat.zero_add] at hwalk
  rw [map_visit_level_eq, map_visit_depthFirst, hwalk, atDepth]

/-- The number of levels of the deepest tree, none without trees. -/
def levelCount : Nat := f.maxDepth.toOption.getD 0

theorem widthFirst_eq_flatMap : f.widthFirst = (List.range f.levelCount).flatMap f.level := by
  rw [widthFirst, levelCount]
  cases f.maxDepth <;> rfl

end Forest

theorem Invocation.depth_lt_maxDepth {t : Invocation} {v : Visit} (h : v ∈ t.visits) :
    v.depth < t.maxDepth := by
  have hv : v.depth ∈ t.visits.map (·.depth) := List.mem_map_of_mem h
  rw [maxDepth]
  cases hmax : (t.visits.map (·.depth)).max? with
  | none => simp [List.max?_eq_none_iff.1 hmax] at hv
  | some depth =>
    exact Nat.lt_succ_of_le ((List.max?_eq_some_iff.1 hmax).2 _ hv)

/-- The number of levels of a tree is one more than the depth of a visit. -/
theorem Invocation.exists_depth_eq_maxDepth (t : Invocation) :
    ∃ v ∈ t.visits, v.depth + 1 = t.maxDepth := by
  rw [maxDepth]
  cases hmax : (t.visits.map (·.depth)).max? with
  | none =>
    rw [List.max?_eq_none_iff, List.map_eq_nil_iff, visits_eq_walk, walk_eq] at hmax
    cases hmax
  | some depth =>
    obtain ⟨v, hv, rfl⟩ := List.mem_map.1 (List.max?_eq_some_iff.1 hmax).1
    exact ⟨v, hv, rfl⟩

namespace Forest

theorem maxDepth_le_levelCount {f : Forest} {t : Invocation} (h : t ∈ f.roots) :
    t.maxDepth ≤ f.levelCount := by
  have ht : t.maxDepth ∈ f.roots.map Invocation.maxDepth := List.mem_map_of_mem h
  rw [levelCount, maxDepth]
  cases hmax : (f.roots.map Invocation.maxDepth).max? with
  | none => simp [List.max?_eq_none_iff.1 hmax] at ht
  | some depth => exact (List.max?_eq_some_iff.1 hmax).2 _ ht

variable (f : Forest)

/-- No visit is below the last level. -/
theorem depth_lt_levelCount {v : Visit} (h : v ∈ f.depthFirst.map Placed.visit) :
    v.depth < f.levelCount := by
  rw [map_visit_depthFirst, Invocation.walkAll_eq_flatMap] at h
  obtain ⟨t, ht, hv⟩ := List.mem_flatMap.1 h
  rw [← Invocation.visits_eq_walk] at hv
  exact Nat.lt_of_lt_of_le (Invocation.depth_lt_maxDepth hv) (maxDepth_le_levelCount ht)

/-- The visits up to some depth, level by level, are a permutation of those in depth-first order. -/
theorem perm_filter_lt (vs : List Visit) (n : Nat) :
    ((List.range n).flatMap fun depth => vs.filter (·.depth = depth)).Perm
      (vs.filter (·.depth < n)) := by
  induction n with
  | zero => simp
  | succ n ih =>
    have hbelow : (vs.filter (·.depth < n + 1)).filter (·.depth < n) = vs.filter (·.depth < n) := by
      rw [List.filter_filter]
      refine List.filter_congr fun v _ => ?_
      grind
    have hlast : (vs.filter (·.depth < n + 1)).filter (fun v => !decide (v.depth < n)) =
        vs.filter (·.depth = n) := by
      rw [List.filter_filter]
      refine List.filter_congr fun v _ => ?_
      grind
    rw [List.range_succ, List.flatMap_append, List.flatMap_singleton]
    refine (ih.append_right _).trans ?_
    rw [← hbelow, ← hlast]
    exact List.filter_append_perm _ _

/-- Level by level, the visits are those in depth-first order. -/
theorem perm_visit_widthFirst :
    (f.widthFirst.map Placed.visit).Perm (f.depthFirst.map Placed.visit) := by
  have hlevels : f.widthFirst.map Placed.visit = (List.range f.levelCount).flatMap fun depth =>
      (f.depthFirst.map Placed.visit).filter (·.depth = depth) := by
    rw [widthFirst_eq_flatMap, List.map_flatMap]
    exact congrArg (List.flatMap · _) (funext f.map_visit_level)
  have hall : (f.depthFirst.map Placed.visit).filter (·.depth < f.levelCount) =
      f.depthFirst.map Placed.visit := by
    rw [List.filter_eq_self]
    intro v hv
    exact decide_eq_true (f.depth_lt_levelCount hv)
  rw [hlevels]
  refine (perm_filter_lt _ _).trans ?_
  rw [hall]

/-- The calls at one depth come in the order of the activations there. -/
theorem map_callVisit_atDepth (depth : Nat) :
    (f.atDepth depth).map (·.callVisit depth) =
      (f.depthFirst.map Placed.visit).filter fun v => v.boundary = .enter ∧ v.depth = depth := by
  have hlevel : (f.depthFirst.map Placed.visit).filter (·.depth = depth) =
      (f.atDepth depth).flatMap (Invocation.ownVisits depth) := by
    rw [← map_visit_level, map_visit_level_eq]
  rw [← Invocation.filter_enter_ownVisits, ← hlevel, List.filter_filter]
  exact List.filter_congr fun v _ => (Bool.decide_and _ _).symm

/-- **Width-first visits are the level order.**  Whatever the shape of a forest, its width-first
visits are those of its activations at depth `0`, `1`, … up to its last level, within a level in the
order in which the depth-first visits show their calls.  Each activation is visited by its call and
directly after it by its return, if it has one, both with its number among those of the level.  So
they are the depth-first visits in another order, and no number is that before the first. -/
theorem widthFirst_eq_levels :
    (∀ depth, (f.atDepth depth).map (·.callVisit depth) =
      (f.depthFirst.map Placed.visit).filter fun v => v.boundary = .enter ∧ v.depth = depth) ∧
    f.widthFirst = (List.range f.levelCount).flatMap (fun depth =>
      (f.atDepth depth).zipIdx.flatMap fun (t, i) =>
        ⟨i, t.callVisit depth⟩ :: (t.returnVisit? depth).toList.map (⟨i, ·⟩)) ∧
    (f.widthFirst.map Placed.visit).Perm (f.depthFirst.map Placed.visit) ∧
    ∀ depth, numbered? 0 (f.roots.flatMap (·.level depth)) = some (f.level depth) := by
  refine ⟨f.map_callVisit_atDepth, ?_, f.perm_visit_widthFirst, fun depth => ?_⟩
  · rw [widthFirst_eq_flatMap]
    refine congrArg (List.flatMap · _) (funext fun depth => ?_)
    exact f.level_eq_numberedOwn depth
  · rw [levelVisits_eq, numbered?_flatMap_ownVisits, level_eq_numberedOwn]

end Forest

end CallForest
