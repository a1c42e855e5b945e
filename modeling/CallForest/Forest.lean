import CallForest.Invocation.Level
import CallForest.Invocation.Measures

/-!
# Forests

The top-level activations of one thread of control, built event by event.  At most the last tree
is open, and every event goes to it.

* `Forest.take` takes one event in, and an event that does not fit is refused with a fault;
  `Forest.observe` is the forest after an event that fits;
* `Forest.depthFirst` and `Forest.widthFirst` are the two orders in which a forest is reported.
-/

namespace CallForest

/-- The order in which the events of a forest are reported. -/
inductive Order where
  /-- In the order of the events. -/
  | depth
  /-- Level by level. -/
  | width
  deriving DecidableEq, Repr, Inhabited

/-- A visit with its place across the page: the number of its tree in depth-first order, the number
of its activation within the level in width-first order. -/
structure Placed where
  width : Nat
  visit : Visit
  deriving DecidableEq, Repr

/-- The trees of one thread of control. -/
structure Forest where
  /-- The trees in the order of their calls. -/
  roots : List Invocation
  /-- What is kept; everything if there is no rule. -/
  rule : Option Retention
  /-- The number of activations dropped by the rule. -/
  droppedCount : Nat

namespace Forest

/-- The forest without trees. -/
def empty (rule : Option Retention) : Forest := ⟨[], rule, 0⟩

variable (f : Forest)

/-- The last tree, if it is open. -/
def openRoot : Option Invocation := f.roots.getLast?.filter Invocation.isOpen

/-- The last tree is open. -/
def isOpen : Bool := f.openRoot.isSome

/-- The forest with another last tree. -/
def setLast (t : Invocation) : Forest := { f with roots := f.roots.dropLast ++ [t] }

/-- A call, made in the open tree or beginning a new one. -/
def takeCall (function : Nat) (sample : Sample) : EStateM.Result Fault Forest Unit :=
  match f.openRoot with
  | none => .ok () { f with roots := f.roots ++ [.enter function sample] }
  | some t =>
    match t.takeCall function sample with
    | .ok _ t => .ok () (f.setLast t)
    | .error fault t => .error fault (f.setLast t)

/-- A return, which the open tree must take in. -/
def takeRet (function : Nat) (sample : Sample) : EStateM.Result Fault Forest Unit :=
  match f.openRoot with
  | none => .error (.leaveOutside function) f
  | some t =>
    match t.takeRet function sample f.rule with
    | .ok .kept t => .ok () (f.setLast t)
    | .ok .dropped t =>
      let f := { f with droppedCount := f.droppedCount + 1 }
      .ok () (if t.isOpen then f.setLast t else { f with roots := f.roots.dropLast })
    | .error fault t => .error fault (f.setLast t)

/-- An event, with the forest as it is afterwards, also when there is a fault. -/
def take (boundary : Boundary) (function : Nat) (sample : Sample) :
    EStateM.Result Fault Forest Unit :=
  match boundary with
  | .enter => f.takeCall function sample
  | .leave => f.takeRet function sample

/-- The forest after an event. -/
def observe (boundary : Boundary) (function : Nat) (sample : Sample) : Except Fault Forest :=
  match f.take boundary function sample with
  | .ok _ f => .ok f
  | .error fault _ => .error fault

/-! ### Measures -/

/-- A count summed over the trees. -/
def total (count : Invocation → Nat) : Nat := f.roots.foldr (fun t n => count t + n) 0

/-- The number of activations. -/
def nodeCount : Nat := f.total Invocation.nodeCount

/-- The number of levels of the deepest tree. -/
def maxDepth : Except Fault Nat :=
  match (f.roots.map Invocation.maxDepth).max? with
  | none => .error .emptyForest
  | some depth => .ok depth

/-- The number of leaves. -/
def maxWidth : Nat := f.total Invocation.leafCount

/-- Every tree is in order, and at most the last one is open. -/
def integrity : Bool :=
  let opened := f.roots.countP Invocation.isOpen
  (opened == 0 || (opened == 1 && f.isOpen)) && f.roots.all Invocation.integrity

/-! ### Visits -/

/-- The visits in the order of the events. -/
def depthFirst : List Placed :=
  f.roots.zipIdx.flatMap fun (t, i) => t.visits.map (⟨i, ·⟩)

/-- Numbers the activations of one level, of which `seen` are numbered already.  A return belongs
to the call before it. -/
def numbered (seen : Nat) : List Visit → List Placed
  | [] => []
  | v :: vs =>
    match v.boundary with
    | .enter => ⟨seen, v⟩ :: numbered (seen + 1) vs
    | .leave => ⟨seen - 1, v⟩ :: numbered seen vs

/-- The visits at one depth. -/
def level (depth : Nat) : List Placed := numbered 0 (f.roots.flatMap (·.level depth))

/-- The visits level by level. -/
def widthFirst : List Placed :=
  match f.maxDepth with
  | .ok depth => (List.range depth).flatMap f.level
  | .error _ => []

/-- The visits in a given order. -/
def visits : Order → List Placed
  | .depth => f.depthFirst
  | .width => f.widthFirst

/-- A forest in full, for descriptions of values. -/
def describe : String :=
  "CallSequence \x7b function_trees: [" ++ ", ".intercalate (f.roots.map Invocation.describe) ++
    "], filter: " ++ (match f.rule with | none => "None" | some r => "Some(" ++ r.describe ++ ")") ++
    ", filtered_function_count: " ++ toString f.droppedCount ++ " \x7d"

end Forest

end CallForest
