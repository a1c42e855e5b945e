import CallForest.Forest

/-!
# The activations of a forest, one by one

The measures of a tree fold over its activations with a work list.  Here the activations are listed
by recursion, each with the activations around it.

* `Invocation.foldNodes_eq_foldl`: the work list meets the activations in the order of their calls;
* `Invocation.nodeCount_eq_size`, `Forest.nodeCount_eq_sizes`: so the measure counts each of them
  once.
-/

namespace CallForest

/-- An activation where it stands. -/
structure Spot where
  node : Invocation
  /-- The activations around it, the innermost first. -/
  around : List Invocation

namespace Invocation

mutual

/-- The spots of a tree that stands inside `around`, in the order of the calls. -/
def spots (around : List Invocation) : Invocation → List Spot
  | ⟨function, entered, left, callees⟩ =>
    ⟨⟨function, entered, left, callees⟩, around⟩ ::
      spotsAll (⟨function, entered, left, callees⟩ :: around) callees

/-- The spots of several trees that stand inside `around`. -/
def spotsAll (around : List Invocation) : List Invocation → List Spot
  | [] => []
  | t :: ts => t.spots around ++ spotsAll around ts

end

theorem spots_eq (around : List Invocation) (t : Invocation) :
    t.spots around = ⟨t, around⟩ :: spotsAll (t :: around) t.callees := by
  cases t
  rfl

theorem spotsAll_append (around ts us : List Invocation) :
    spotsAll around (ts ++ us) = spotsAll around ts ++ spotsAll around us := by
  induction ts with
  | nil => rfl
  | cons t ts ih => rw [List.cons_append, spotsAll, ih, spotsAll, List.append_assoc]

/-- What stands at the spots does not depend on what the trees stand in. -/
theorem map_node_spotsAll (around around' ts : List Invocation) :
    (spotsAll around ts).map Spot.node = (spotsAll around' ts).map Spot.node := by
  induction ts using listInduction generalizing around around' with
  | nil => rfl
  | cons t ts callees ih =>
    rw [spotsAll, spotsAll, spots_eq, spots_eq, List.map_append, List.map_append, List.map_cons,
      List.map_cons, callees (t :: around) (t :: around'), ih around around']

/-- **The work list meets every activation once**, in the order of the calls. -/
theorem foldNodes_eq_foldl {β : Type} (f : β → Invocation → β) (b : β)
    (around ts : List Invocation) :
    foldNodes f b ts = ((spotsAll around ts).map Spot.node).foldl f b := by
  induction b, ts using foldNodes.induct (f := f) with
  | case1 b => rw [foldNodes]; rfl
  | case2 b t ts ih =>
    -- The callees come before the trees that the list holds already.
    rw [foldNodes, ih, spotsAll_append, spotsAll, spots_eq, List.map_append, List.map_append,
      List.map_cons, map_node_spotsAll (t :: around) around]
    rfl

theorem length_spotsAll (around ts : List Invocation) :
    (spotsAll around ts).length = sizes ts := by
  induction ts using listInduction generalizing around with
  | nil => rfl
  | cons t ts callees ih =>
    rw [spotsAll, spots_eq, List.length_append, List.length_cons, callees, ih, sizes_cons, size_eq]

theorem nodeCount_eq_size (t : Invocation) : t.nodeCount = t.size := by
  rw [nodeCount, foldNodes_eq_foldl _ _ [], List.foldl_add_const, List.length_map,
    length_spotsAll]
  simp

end Invocation

/-- The number of activations of a forest is that of its trees together. -/
theorem Forest.nodeCount_eq_sizes (f : Forest) : f.nodeCount = Invocation.sizes f.roots := by
  have htotal : ∀ ts : List Invocation,
      ts.foldr (fun t n => t.nodeCount + n) 0 = Invocation.sizes ts := by
    intro ts
    induction ts with
    | nil => rfl
    | cons t ts ih =>
      rw [List.foldr_cons, ih, Invocation.nodeCount_eq_size, Invocation.sizes_cons]
  exact htotal f.roots

end CallForest
