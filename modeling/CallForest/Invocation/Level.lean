import CallForest.Invocation.Walk

/-!
# The visits of one level

The activations at one depth below the root from left to right, each with its call and, if it has
one, its return directly after it.  The search goes down to that depth and no further; the
activations not yet looked at are on a stack.
-/

namespace CallForest

namespace Level

/-- A search part way through. -/
structure Search where
  /-- The activations to look at with their depths, the leftmost first. -/
  stack : List (Invocation × Nat)
  /-- A return to visit next. -/
  owed : Option Visit

/-- The number of activations below those on the stack, these included. -/
def weight (stack : List (Invocation × Nat)) : Nat :=
  Invocation.sizes (stack.map (·.1))

/-- The callees of an activation at `depth`, with their own depth. -/
def below (t : Invocation) (depth : Nat) : List (Invocation × Nat) :=
  t.callees.map (·, depth + 1)

theorem weight_below_append (t : Invocation) (depth : Nat) (stack : List (Invocation × Nat)) :
    weight (below t depth ++ stack) = Invocation.sizes t.callees + weight stack := by
  simp [weight, below, Function.comp_def]

theorem weight_cons (t : Invocation) (depth : Nat) (stack : List (Invocation × Nat)) :
    weight ((t, depth) :: stack) = Invocation.sizes t.callees + 1 + weight stack := by
  simp [weight, Invocation.size_eq t]

/-- Looks for the next activation at depth `goal`. -/
def seek (goal : Nat) (stack : List (Invocation × Nat)) :
    Option (Invocation × List (Invocation × Nat)) :=
  match stack with
  | [] => none
  | (t, depth) :: stack =>
    if depth = goal then some (t, stack)
    else seek goal (below t depth ++ stack)
termination_by weight stack
decreasing_by
  rw [weight_below_append, weight_cons]
  omega

/-- The next visit and the search after it. -/
def next (goal : Nat) (s : Search) : Option (Visit × Search) :=
  match s.owed with
  | some v => some (v, { s with owed := none })
  | none => (seek goal s.stack).map fun (t, stack) =>
      (t.callVisit goal, ⟨stack, t.returnVisit? goal⟩)

theorem weight_seek {goal : Nat} {stack stack' : List (Invocation × Nat)} {t : Invocation}
    (h : seek goal stack = some (t, stack')) : weight stack' < weight stack := by
  fun_induction seek goal stack with
  | case1 => simp at h
  | case2 u stack =>
    simp only [Option.some.injEq, Prod.mk.injEq] at h
    obtain ⟨rfl, rfl⟩ := h
    rw [weight_cons]
    omega
  | case3 u depth stack _ ih =>
    have := ih h
    rw [weight_below_append] at this
    rw [weight_cons]
    omega

/-- A bound on the visits to come. -/
def pending (s : Search) : Nat := 2 * weight s.stack + s.owed.toList.length

theorem pending_next {goal : Nat} {s s' : Search} {v : Visit} (h : next goal s = some (v, s')) :
    pending s' < pending s := by
  obtain ⟨stack, owed⟩ := s
  cases owed with
  | some w =>
    simp only [next, Option.some.injEq, Prod.mk.injEq] at h
    obtain ⟨-, rfl⟩ := h
    simp [pending]
  | none =>
    simp only [next, Option.map_eq_some_iff, Prod.exists, Prod.mk.injEq] at h
    obtain ⟨t, rest, hs, -, rfl⟩ := h
    have := weight_seek hs
    have hl : (t.returnVisit? goal).toList.length ≤ 1 := by
      cases t.returnVisit? goal <;> simp
    simp only [pending, Option.toList_none, List.length_nil]
    omega

/-- The visits to come, after those already made, which are given last first. -/
def drain (goal : Nat) (s : Search) (done : List Visit) : List Visit :=
  match _h : next goal s with
  | none => done.reverse
  | some (v, s) => drain goal s (v :: done)
termination_by pending s
decreasing_by exact pending_next _h

end Level

/-- The visits of the activations `depth` below this one. -/
def Invocation.level (t : Invocation) (depth : Nat) : List Visit :=
  Level.drain depth ⟨[(t, 0)], none⟩ []

end CallForest
