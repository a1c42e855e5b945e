import CallForest.Proofs.Conservation
import CallForest.Proofs.Widths
import Mathlib.Algebra.GroupWithZero.Nat

/-!
# Measures by recursion

The measures of a tree come from work lists and from its visits.  Here they are compared with what
recursion over the callees would give, and with each other: a tree has as many levels as there are
depths with a visit, and all levels together show every activation once.

* `Invocation.nodeCount_eq_sum`, `Invocation.leafCount_eq_sum` and `Invocation.maxDepth_eq_max`:
  each measure of a tree in terms of its callees;
* `Invocation.lt_maxDepth_iff`: the levels of a tree are those with an activation;
* `Forest.measures_eq`: the measures of trees and forests of any shape.
-/

namespace CallForest

namespace Invocation

variable (t : Invocation)

/-! ### Sums over the callees -/

theorem sizes_eq_sum (ts : List Invocation) : sizes ts = (ts.map nodeCount).sum := by
  induction ts with
  | nil => rfl
  | cons t ts ih => rw [sizes_cons, ih, List.map_cons, List.sum_cons, nodeCount_eq_size]

theorem nodeCount_eq_sum : t.nodeCount = 1 + (t.callees.map nodeCount).sum := by
  rw [nodeCount_eq_size, size_eq, sizes_eq_sum, Nat.add_comm]

theorem leavesAll_eq_sum (ts : List Invocation) : leavesAll ts = (ts.map leafCount).sum := by
  induction ts with
  | nil => rfl
  | cons t ts ih =>
    rw [List.map_cons, List.sum_cons, ← ih, leafCount_eq, leavesAll_cons, leavesAll_cons,
      leavesAll_nil, Nat.add_zero]

theorem leafCount_eq_sum :
    t.leafCount = if t.callees = [] then 1 else (t.callees.map leafCount).sum := by
  rw [leafCount_eq, leavesAll_cons, leavesAll_nil, Nat.add_zero, leavesAll_eq_sum]

/-! ### Levels -/

theorem level_ne_nil_iff (depth : Nat) : t.level depth ≠ [] ↔ t.atDepth depth ≠ [] := by
  rw [level_eq, ne_eq, ne_eq, List.flatMap_eq_nil_iff, List.eq_nil_iff_forall_not_mem]
  exact not_congr (forall₂_congr fun u _ => by simp [ownVisits])

/-- A level of a tree shows the depth-first visits at its depth. -/
theorem level_eq_filter (depth : Nat) : t.level depth = t.visits.filter (·.depth = depth) := by
  have hwalk := filter_walkAll [t] 0 depth
  rw [walkAll_singleton, Nat.zero_add, List.flatMap_singleton] at hwalk
  rw [level_eq, visits_eq_walk, hwalk]

theorem atDepth_succ_ne_nil_iff (depth : Nat) :
    t.atDepth (depth + 1) ≠ [] ↔ ∃ c ∈ t.callees, c.atDepth depth ≠ [] := by
  rw [atDepth, ne_eq, List.flatMap_eq_nil_iff]
  simp

/-- Above an activation there is one at every depth. -/
theorem atDepth_ne_nil_of_le {i j : Nat} (hij : i ≤ j) (h : t.atDepth j ≠ []) :
    t.atDepth i ≠ [] := by
  induction i generalizing t j with
  | zero => exact List.cons_ne_nil t []
  | succ i ih =>
    obtain ⟨k, rfl⟩ : ∃ k, j = k + 1 := ⟨j - 1, by omega⟩
    obtain ⟨c, hc, hk⟩ := (t.atDepth_succ_ne_nil_iff k).1 h
    exact (t.atDepth_succ_ne_nil_iff i).2 ⟨c, hc, ih c (by omega) hk⟩

/-- **The levels of a tree are those with an activation.** -/
theorem lt_maxDepth_iff (depth : Nat) : depth < t.maxDepth ↔ t.atDepth depth ≠ [] := by
  constructor
  · intro h
    obtain ⟨v, hv, hdeepest⟩ := t.exists_depth_eq_maxDepth
    have hlevel : v ∈ t.level v.depth := by
      rw [level_eq_filter]
      exact List.mem_filter.2 ⟨hv, decide_eq_true rfl⟩
    have hat : t.atDepth v.depth ≠ [] :=
      (t.level_ne_nil_iff v.depth).1 (List.ne_nil_of_mem hlevel)
    exact t.atDepth_ne_nil_of_le (by omega) hat
  · intro h
    obtain ⟨v, hv⟩ := List.exists_mem_of_ne_nil _ ((t.level_ne_nil_iff depth).2 h)
    rw [level_eq_filter, List.mem_filter, decide_eq_true_iff] at hv
    rw [← hv.2]
    exact depth_lt_maxDepth hv.1

theorem lt_foldr_max_iff (depth : Nat) (ts : List Invocation) :
    depth < (ts.map maxDepth).foldr max 0 ↔ ∃ t ∈ ts, depth < t.maxDepth := by
  induction ts with
  | nil => simp
  | cons t ts ih =>
    simp only [List.map_cons, List.foldr_cons, List.mem_cons, exists_eq_or_imp, ← ih]
    omega

theorem maxDepth_eq_max : t.maxDepth = 1 + (t.callees.map maxDepth).foldr max 0 := by
  -- Both sides are above the same depths.
  have hsame : ∀ depth, depth < t.maxDepth ↔
      depth < 1 + (t.callees.map maxDepth).foldr max 0 := by
    intro depth
    rw [lt_maxDepth_iff]
    cases depth with
    | zero =>
      refine iff_of_true (List.cons_ne_nil t []) ?_
      omega
    | succ depth =>
      have hbelow := lt_foldr_max_iff depth t.callees
      simp only [lt_maxDepth_iff] at hbelow
      rw [atDepth_succ_ne_nil_iff, ← hbelow]
      omega
  have hleft := hsame t.maxDepth
  have hright := hsame (1 + (t.callees.map maxDepth).foldr max 0)
  omega

/-! ### Calls among the visits -/

theorem nodeCount_eq_countP_visits : t.nodeCount = t.visits.countP (·.boundary = .enter) := by
  rw [visits_eq_walk, ← walkAll_singleton, countP_enter_walkAll, nodeCount_eq_size, sizes_cons,
    sizes_nil, Nat.add_zero]

/-- The levels together show what the depth-first visits show. -/
theorem countP_visits_eq_sum (test : Visit → Bool) :
    t.visits.countP test =
      ((List.range t.maxDepth).map fun depth => (t.level depth).countP test).sum := by
  have hall : t.visits.filter (·.depth < t.maxDepth) = t.visits := by
    rw [List.filter_eq_self]
    intro v hv
    exact decide_eq_true (depth_lt_maxDepth hv)
  have hperm := Forest.perm_filter_lt t.visits t.maxDepth
  rw [hall] at hperm
  rw [← hperm.countP_eq, List.countP_flatMap]
  simp only [level_eq_filter]
  rfl

end Invocation

namespace Forest

variable (f : Forest)

theorem maxDepth_eq_error_iff : f.maxDepth = .error .emptyForest ↔ f.roots = [] := by
  rw [maxDepth]
  cases hmax : (f.roots.map Invocation.maxDepth).max? with
  | none => simpa using hmax
  | some depth =>
    refine iff_of_false (fun hempty => ?_) fun hroots => ?_
    · cases hempty
    · rw [hroots] at hmax
      cases hmax

theorem maxDepth_eq_ok_iff (depth : Nat) :
    f.maxDepth = .ok depth ↔
      (∃ t ∈ f.roots, t.maxDepth = depth) ∧ ∀ t ∈ f.roots, t.maxDepth ≤ depth := by
  have hmost : (f.roots.map Invocation.maxDepth).max? = some depth ↔
      depth ∈ f.roots.map Invocation.maxDepth ∧
        ∀ most ∈ f.roots.map Invocation.maxDepth, most ≤ depth := List.max?_eq_some_iff
  rw [List.mem_map, List.forall_mem_map] at hmost
  rw [← hmost, maxDepth]
  cases (f.roots.map Invocation.maxDepth).max? <;> simp

/-- **The measures are those of the recursion.**  The activations of a tree of any shape are itself
and those of its callees, its leaves are those of its callees or else itself, and it has one level
more than the callee with the most.  Its levels are exactly those that show a visit.  The
activations are as many as the calls among the depth-first visits, and as many as those of all
levels together.  A forest has the levels of the tree with the most, and no number of levels just if
it has no tree. -/
theorem measures_eq :
    (∀ t : Invocation,
      t.nodeCount = 1 + (t.callees.map Invocation.nodeCount).sum ∧
      t.leafCount = (if t.callees = [] then 1 else (t.callees.map Invocation.leafCount).sum) ∧
      t.maxDepth = 1 + (t.callees.map Invocation.maxDepth).foldr max 0 ∧
      (∀ depth, t.level depth ≠ [] ↔ depth < t.maxDepth) ∧
      t.nodeCount = t.visits.countP (·.boundary = .enter) ∧
      t.nodeCount = ((List.range t.maxDepth).map fun depth =>
        (t.level depth).countP (·.boundary = .enter)).sum) ∧
    ∀ f : Forest,
      (f.maxDepth = .error .emptyForest ↔ f.roots = []) ∧
      ∀ depth, f.maxDepth = .ok depth ↔
        (∃ t ∈ f.roots, t.maxDepth = depth) ∧ ∀ t ∈ f.roots, t.maxDepth ≤ depth := by
  refine ⟨fun t => ?_, fun f => ⟨f.maxDepth_eq_error_iff, f.maxDepth_eq_ok_iff⟩⟩
  refine ⟨t.nodeCount_eq_sum, t.leafCount_eq_sum, t.maxDepth_eq_max, fun depth => ?_,
    t.nodeCount_eq_countP_visits, ?_⟩
  · rw [t.level_ne_nil_iff, t.lt_maxDepth_iff]
  · rw [t.nodeCount_eq_countP_visits]
    exact t.countP_visits_eq_sum _

end Forest

end CallForest
