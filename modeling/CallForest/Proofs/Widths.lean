import CallForest.Proofs.Enumeration
import CallForest.Proofs.LevelOrder

/-!
# Widths

The width of a forest is the number of its leaves, while a visit is placed by the number of its tree
or by its number within a level.  Trees are as many as level `0` has activations, and no level has
more of them than there are leaves: below every activation there is a leaf, and what is on one level
shares no leaf.

* `Forest.maxWidth_eq`: the work lists count the leaves;
* `Invocation.length_atDepth_le`: no level of some trees is longer than their leaves are many;
* `Forest.width_lt_maxWidth`: every visit of either order is placed below the width of the forest.
-/

namespace CallForest

/-- The activation at the spot made no call. -/
def Spot.isLeaf (s : Spot) : Bool := s.node.callees.isEmpty

namespace Invocation

/-! ### Leaves -/

/-- The number of leaves of several trees. -/
def leavesAll (ts : List Invocation) : Nat := (spotsAll [] ts).countP Spot.isLeaf

theorem leavesAll_nil : leavesAll [] = 0 := rfl

theorem countP_isLeaf_spotsAll (around ts : List Invocation) :
    (spotsAll around ts).countP Spot.isLeaf = leavesAll ts := by
  have hnode : Spot.isLeaf = (fun t : Invocation => t.callees.isEmpty) ∘ Spot.node := rfl
  rw [leavesAll, hnode, ← List.countP_map, ← List.countP_map, map_node_spotsAll around []]

theorem leavesAll_cons (t : Invocation) (ts : List Invocation) :
    leavesAll (t :: ts) = (if t.callees = [] then 1 else leavesAll t.callees) + leavesAll ts := by
  rw [leavesAll, spotsAll, spots_eq, List.countP_append, List.countP_cons, countP_isLeaf_spotsAll,
    countP_isLeaf_spotsAll]
  cases hcallees : t.callees with
  | nil => simp [Spot.isLeaf, hcallees, leavesAll_nil]
  | cons c cs => simp [Spot.isLeaf, hcallees]

theorem foldl_leaf (n : Nat) (ts : List Invocation) :
    ts.foldl (fun n t => if t.callees.isEmpty then n + 1 else n) n =
      n + ts.countP fun t => t.callees.isEmpty := by
  induction ts generalizing n with
  | nil => rfl
  | cons t ts ih =>
    rw [List.foldl_cons, ih, List.countP_cons]
    cases t.callees.isEmpty with
    | true => rw [if_pos rfl, if_pos rfl, Nat.add_assoc, Nat.add_comm 1]
    | false => rw [if_neg Bool.false_ne_true, if_neg Bool.false_ne_true, Nat.add_zero]

theorem leafCount_eq (t : Invocation) : t.leafCount = leavesAll [t] := by
  rw [leafCount, foldNodes_eq_foldl _ _ [], foldl_leaf, Nat.zero_add, List.countP_map]
  rfl

/-! ### Levels -/

/-- **No level is longer than the leaves are many.** -/
theorem length_atDepth_le (depth : Nat) (ts : List Invocation) :
    (ts.flatMap (atDepth depth)).length ≤ leavesAll ts := by
  induction ts using listInduction generalizing depth with
  | nil => exact Nat.le_refl 0
  | cons t ts callees ih =>
    have htree : (t.atDepth depth).length ≤ if t.callees = [] then 1 else leavesAll t.callees := by
      cases hcallees : t.callees with
      | nil => cases depth <;> simp [atDepth, hcallees]
      | cons c cs =>
        rw [hcallees] at callees
        rw [if_neg (List.cons_ne_nil c cs)]
        cases depth with
        -- The activation itself is outnumbered by those that it called.
        | zero =>
          have hlevel := callees 0
          simp only [atDepth, List.flatMap_singleton', List.length_cons] at hlevel
          rw [atDepth, List.length_singleton]
          omega
        | succ depth =>
          rw [atDepth, hcallees]
          exact callees depth
    rw [List.flatMap_cons, List.length_append, leavesAll_cons]
    exact Nat.add_le_add htree (ih depth)

theorem length_le_leavesAll (ts : List Invocation) : ts.length ≤ leavesAll ts := by
  have hlevel := length_atDepth_le 0 ts
  simpa only [atDepth, List.flatMap_singleton'] using hlevel

end Invocation

namespace Forest

variable (f : Forest)

/-- The width of a forest is the number of its leaves. -/
theorem maxWidth_eq : f.maxWidth = Invocation.leavesAll f.roots := by
  have htotal : ∀ ts : List Invocation,
      ts.foldr (fun t n => t.leafCount + n) 0 = Invocation.leavesAll ts := by
    intro ts
    induction ts with
    | nil => rfl
    | cons t ts ih =>
      rw [List.foldr_cons, ih, Invocation.leafCount_eq, Invocation.leavesAll_cons,
        Invocation.leavesAll_cons, Invocation.leavesAll_nil, Nat.add_zero]
  exact htotal f.roots

variable {f} {p : Placed}

theorem width_lt_of_mem_level {depth : Nat} (h : p ∈ f.level depth) :
    p.width < (f.atDepth depth).length := by
  rw [level_eq_numberedOwn, numberedOwn] at h
  obtain ⟨⟨t, i⟩, hi, hp⟩ := List.mem_flatMap.1 h
  obtain ⟨v, -, rfl⟩ := List.mem_map.1 hp
  exact (List.getElem?_eq_some_iff.1 (List.mk_mem_zipIdx_iff_getElem?.1 hi)).1

theorem width_lt_of_mem_depthFirst (h : p ∈ f.depthFirst) : p.width < f.roots.length := by
  obtain ⟨⟨t, i⟩, hi, hp⟩ := List.mem_flatMap.1 h
  obtain ⟨v, -, rfl⟩ := List.mem_map.1 hp
  exact (List.getElem?_eq_some_iff.1 (List.mk_mem_zipIdx_iff_getElem?.1 hi)).1

/-- **Visits stay inside the width of their forest.**  Whatever the shape of a forest, however
uneven its trees and whatever is open in it, its width is the number of the activations in it that
made no call, and every visit of either order is placed below it. -/
theorem width_lt_maxWidth (f : Forest) :
    f.maxWidth = (Invocation.spotsAll [] f.roots).countP (fun s => s.node.callees.isEmpty) ∧
    (∀ p ∈ f.widthFirst, p.width < f.maxWidth) ∧ ∀ p ∈ f.depthFirst, p.width < f.maxWidth := by
  refine ⟨f.maxWidth_eq, fun p hp => ?_, fun p hp => ?_⟩
  · rw [widthFirst_eq_flatMap] at hp
    obtain ⟨depth, -, hp⟩ := List.mem_flatMap.1 hp
    rw [maxWidth_eq]
    exact Nat.lt_of_lt_of_le (width_lt_of_mem_level hp) (Invocation.length_atDepth_le depth f.roots)
  · rw [maxWidth_eq]
    exact Nat.lt_of_lt_of_le (width_lt_of_mem_depthFirst hp)
      (Invocation.length_le_leavesAll f.roots)

/-- A call that made two, and beside it an open one: the return of the second of the two is placed
at `1`, and there are three leaves. -/
theorem width_lt_maxWidth_uneven :
    let f : Forest := (empty none).run
      [⟨.enter, 7, .zero⟩, ⟨.enter, 8, .zero⟩, ⟨.leave, 8, .zero⟩, ⟨.enter, 9, .zero⟩,
        ⟨.leave, 9, .zero⟩, ⟨.leave, 7, .zero⟩, ⟨.enter, 7, .zero⟩]
    let p : Placed := ⟨1, 1, .leave, 9, .zero⟩
    p ∈ f.widthFirst ∧ p.width < f.maxWidth ∧ f.maxWidth = 3 := by
  intro f p
  have hroots : f.roots =
      [⟨7, .zero, some .zero, [⟨8, .zero, some .zero, []⟩, ⟨9, .zero, some .zero, []⟩]⟩,
        ⟨7, .zero, none, []⟩] := by
    change ((empty none).run _).roots = _
    rw [run_empty]
    rfl
  have hlevels : 1 < f.levelCount := by
    refine f.depth_lt_levelCount (v := p.visit) ?_
    rw [map_visit_depthFirst, hroots]
    decide
  have hp : p ∈ f.widthFirst := by
    rw [widthFirst_eq_flatMap]
    refine List.mem_flatMap.2 ⟨1, List.mem_range.2 hlevels, ?_⟩
    rw [level_eq_numberedOwn, atDepth, hroots]
    decide
  obtain ⟨hwidth, hwidthFirst, -⟩ := width_lt_maxWidth f
  rw [hroots] at hwidth
  exact ⟨hp, hwidthFirst p hp, hwidth⟩

end Forest

end CallForest
