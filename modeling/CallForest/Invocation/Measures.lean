import CallForest.Invocation.Routing
import CallForest.Invocation.Walk

/-!
# Measures of a tree

The number of activations, the number of leaves and the number of levels, and the check that a
tree has the shape that events give it.  All but the number of levels fold over the activations of
a work list.
-/

namespace CallForest

namespace Invocation

/-- Folds over the activations of several trees, each before those it called. -/
def foldNodes {β : Type} (f : β → Invocation → β) (b : β) (ts : List Invocation) : β :=
  match ts with
  | [] => b
  | t :: ts => foldNodes f (f b t) (t.callees ++ ts)
termination_by sizes ts
decreasing_by
  simp only [sizes_append, sizes_cons, size_eq t]
  omega

variable (t : Invocation)

/-- The number of activations, this one included. -/
def nodeCount : Nat := foldNodes (fun n _ => n + 1) 0 [t]

/-- The number of activations without callees. -/
def leafCount : Nat := foldNodes (fun n u => if u.callees.isEmpty then n + 1 else n) 0 [t]

/-- The number of levels. -/
def maxDepth : Nat :=
  match (t.visits.map (·.depth)).max? with
  | none => 1
  | some depth => depth + 1

/-- Of the callees of a closed activation none is open, of those of an open one at most the last. -/
def inOrder : Bool :=
  let opened := t.callees.countP isOpen
  opened == 0 || (t.isOpen && opened == 1 && t.openCallee.isSome)

/-- Every activation is in order. -/
def integrity : Bool := foldNodes (fun b u => b && u.inOrder) true [t]

end Invocation

end CallForest
