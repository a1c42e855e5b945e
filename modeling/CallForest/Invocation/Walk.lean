import CallForest.Invocation.Basic

/-!
# Depth-first visits

The visits of a tree in the order of its events: an activation's call, the visits of its callees,
then its return if it has one.  The walk keeps its own stack of activations part way through, so
its depth is bounded by memory only.
-/

namespace CallForest

/-- One event of a tree, seen at its depth below the root. -/
structure Visit where
  depth : Nat
  boundary : Boundary
  function : Nat
  sample : Sample
  deriving DecidableEq, Repr

namespace Invocation

variable (t : Invocation)

/-- The visit of a call. -/
def callVisit (depth : Nat) : Visit := ⟨depth, .enter, t.function, t.entered⟩

/-- The visit of a return, if there is one. -/
def returnVisit? (depth : Nat) : Option Visit :=
  t.left.map fun s => ⟨depth, .leave, t.function, s⟩

end Invocation

namespace Walk

/-- An activation part way through: its call is visited, and `ahead` are its callees still to
visit. -/
structure Frame where
  node : Invocation
  depth : Nat
  ahead : List Invocation

/-- The frame of an activation whose call is visited. -/
def Frame.start (t : Invocation) (depth : Nat) : Frame := ⟨t, depth, t.callees⟩

/-- The next visit and the stack after it. -/
def next : List Frame → Option (Visit × List Frame)
  | [] => none
  | f :: outer =>
    match f.ahead with
    | c :: ahead =>
      some (c.callVisit (f.depth + 1), .start c (f.depth + 1) :: { f with ahead } :: outer)
    | [] =>
      match f.node.returnVisit? f.depth with
      | some v => some (v, outer)
      | none => next outer

/-- A bound on the visits to come. -/
def pending : List Frame → Nat
  | [] => 0
  | f :: outer => 2 * Invocation.sizes f.ahead + 1 + pending outer

theorem pending_next {stack stack' : List Frame} {v : Visit} (h : next stack = some (v, stack')) :
    pending stack' < pending stack := by
  induction stack with
  | nil => simp [next] at h
  | cons f outer ih =>
    rw [next] at h
    split at h
    · rename_i c ahead hf
      simp only [Option.some.injEq, Prod.mk.injEq] at h
      obtain ⟨-, rfl⟩ := h
      simp only [pending, hf, Frame.start, Invocation.sizes_cons, Invocation.size_eq c]
      omega
    · split at h
      · simp only [Option.some.injEq, Prod.mk.injEq] at h
        obtain ⟨-, rfl⟩ := h
        simp only [pending]
        omega
      · have := ih h
        simp only [pending]
        omega

/-- The visits to come, after those already made, which are given last first. -/
def drain (stack : List Frame) (done : List Visit) : List Visit :=
  match _h : next stack with
  | none => done.reverse
  | some (v, stack) => drain stack (v :: done)
termination_by pending stack
decreasing_by exact pending_next _h

end Walk

/-- The visits of a tree in the order of its events. -/
def Invocation.visits (t : Invocation) : List Visit :=
  Walk.drain [.start t 0] [t.callVisit 0]

end CallForest
