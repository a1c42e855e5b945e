import CallForest.Proofs.Conservation
import Mathlib.Algebra.GroupWithZero.Nat

/-!
# A census of activations

The activations of a forest are open or closed.  The open ones are those on the way down to where
execution is, and the closed ones are those that are visited twice, at their call and at their
return.  Every event taken in opens one or closes one, and a rule can only take closed ones away.

* `Invocation.census`: the number of open or of closed activations of several trees;
* `Invocation.countP_leave_walkAll`: the closed ones are those with a return among the visits;
* `Spine.census_roots`: the complete trees and the pending activations are counted apart;
* `Spine.Census.of_foldlM`: what events taken in make of the numbers of activations;
* `Forest.openCount`, `Forest.closedCount`: the numbers of activations of a forest.
-/

namespace CallForest

/-- What stands at a boundary is at the one or at the other. -/
theorem Boundary.length_eq_add {α : Type} (boundary : α → Boundary) (as : List α) :
    as.length = as.countP (boundary · = .enter) + as.countP (boundary · = .leave) := by
  rw [List.length_eq_countP_add_countP (boundary · = .enter)]
  refine congrArg _ (List.countP_congr fun a _ => ?_)
  rcases boundary a with _ | _ <;> simp

namespace Invocation

/-- The number of activations of several trees that are open, or that are not. -/
def census (opened : Bool) (ts : List Invocation) : Nat :=
  ((spotsAll [] ts).map Spot.node).countP (·.isOpen == opened)

variable (opened : Bool)

@[simp] theorem census_nil : census opened [] = 0 := rfl

theorem census_append (ts us : List Invocation) :
    census opened (ts ++ us) = census opened ts + census opened us := by
  rw [census, spotsAll_append, List.map_append, List.countP_append, census, census]

theorem census_cons (t : Invocation) (ts : List Invocation) :
    census opened (t :: ts) =
      (if t.isOpen = opened then 1 else 0) + census opened t.callees + census opened ts := by
  rw [census, spotsAll, spots_eq, List.map_append, List.countP_append, List.map_cons,
    List.countP_cons, map_node_spotsAll [t] [], census, census, Nat.add_comm (List.countP _ _)]
  simp only [beq_iff_eq]

theorem census_singleton (t : Invocation) :
    census opened [t] = (if t.isOpen = opened then 1 else 0) + census opened t.callees := by
  rw [census_cons, census_nil, Nat.add_zero]

/-- An activation is open or it is not. -/
theorem census_add_census (ts : List Invocation) : census true ts + census false ts = sizes ts := by
  rw [← length_spotsAll [] ts, ← List.length_map Spot.node,
    List.length_eq_countP_add_countP (·.isOpen == true)]
  refine congrArg _ (List.countP_congr fun t _ => ?_)
  rcases t.isOpen with _ | _ <;> simp

/-- In trees that have returned nothing is open. -/
theorem census_of_settled {ts : List Invocation} (h : ∀ t ∈ ts, t.Settled) :
    census true ts = 0 := by
  induction ts using listInduction with
  | nil => rfl
  | cons t ts callees ih =>
    obtain ⟨ht, hts⟩ := List.forall_mem_cons.1 h
    rw [census_cons, ht.isOpen_eq, callees ht.callees, ih hts]
    rfl

/-- The returns among the visits of trees are one for each closed activation. -/
theorem countP_leave_walkAll (depth : Nat) (ts : List Invocation) :
    (walkAll depth ts).countP (·.boundary = .leave) = census false ts := by
  induction ts using listInduction generalizing depth with
  | nil => rfl
  | cons t ts callees ih =>
    have hreturn : (t.returnVisit? depth).toList.countP (·.boundary = .leave) =
        if t.isOpen = false then 1 else 0 := by
      rw [returnVisit?, isOpen]
      rcases t.left with _ | sample <;> rfl
    rw [walkAll, walk_eq, List.countP_append, List.countP_cons, List.countP_append, callees, ih,
      hreturn, census_cons]
    simp [callVisit, Nat.add_comm]

end Invocation

/-! ### Pending activations -/

namespace Pending

variable (p : Pending)

theorem census_add (opened : Bool) (ts : List Invocation) (h : ∀ t ∈ ts, t.Settled) :
    Invocation.census opened [(p.add ts h).node] =
      Invocation.census opened [p.node] + Invocation.census opened ts := by
  have hopen : (p.add ts h).node.isOpen = p.node.isOpen := rfl
  have hcallees : (p.add ts h).node.callees = p.node.callees ++ ts := rfl
  rw [Invocation.census_singleton, hopen, hcallees, Invocation.census_append,
    Invocation.census_singleton, Nat.add_assoc]

/-- A pending activation is the only open one, until there is one below it. -/
theorem census_true : Invocation.census true [p.node] = 1 := by
  rw [Invocation.census_singleton, p.isOpen, Invocation.census_of_settled p.settled]
  rfl

theorem census_false_leave (sample : Sample) :
    Invocation.census false [p.leave sample] = Invocation.census false [p.node] + 1 := by
  have hopen : (p.leave sample).isOpen = false := rfl
  have hcallees : (p.leave sample).callees = p.node.callees := rfl
  rw [Invocation.census_singleton, Invocation.census_singleton, hopen, hcallees, p.isOpen,
    if_pos rfl, if_neg Bool.false_ne_true.symm, Nat.zero_add, Nat.add_comm]

end Pending

theorem Cursor.census_rebuild (opened : Bool) (t : Invocation) (outer : List Pending) :
    Invocation.census opened [rebuild t (outer.map Pending.node)] =
      Invocation.census opened [t] +
        (outer.map fun p => Invocation.census opened [p.node]).sum := by
  induction outer generalizing t with
  | nil => rfl
  | cons p outer ih =>
    have hopen : (p.node.push t).isOpen = p.node.isOpen := rfl
    have hcallees : (p.node.push t).callees = p.node.callees ++ [t] := rfl
    rw [List.map_cons, rebuild, ih, Invocation.census_singleton opened (p.node.push t), hopen,
      hcallees, Invocation.census_append, List.map_cons, List.sum_cons,
      Invocation.census_singleton opened p.node]
    omega

/-! ### Events -/

namespace Spine

variable {S S' : Spine} {rule : Option Retention}

theorem census_roots (opened : Bool) (S : Spine) :
    Invocation.census opened S.roots =
      Invocation.census opened S.trees +
        (S.pending.map fun p => Invocation.census opened [p.node]).sum := by
  rcases h : S.pending with _ | ⟨p, outer⟩
  · rw [roots_of_nil h]
    rfl
  · rw [roots_of_cons h, Invocation.census_append, Cursor.census_rebuild]
    rfl

/-- **The open activations are the pending ones.** -/
theorem census_true_roots (S : Spine) : Invocation.census true S.roots = S.pending.length := by
  have hpending : (S.pending.map fun p => Invocation.census true [p.node]) =
      S.pending.map fun _ => 1 := List.map_congr_left fun p _ => p.census_true
  rw [census_roots, Invocation.census_of_settled S.settled, hpending, List.map_const',
    List.sum_replicate_nat, Nat.zero_add, Nat.mul_one]

theorem census_settle (opened : Bool) (S : Spine) (ts : List Invocation)
    (h : ∀ t ∈ ts, t.Settled) :
    Invocation.census opened (S.settle ts h).roots =
      Invocation.census opened S.roots + Invocation.census opened ts := by
  rw [census_roots, census_roots, settle]
  rcases S.pending with _ | ⟨p, outer⟩
  · rw [Invocation.census_append]
    rfl
  · dsimp only
    rw [List.map_cons, List.map_cons, Pending.census_add, List.sum_cons, List.sum_cons]
    omega

/-- With the innermost pending activation goes what has returned below it. -/
theorem census_roots_of_cons (opened : Bool) {p : Pending} {outer : List Pending}
    (h : S.pending = p :: outer) :
    Invocation.census opened S.roots =
      Invocation.census opened ({ S with pending := outer } : Spine).roots +
        Invocation.census opened [p.node] := by
  rw [census_roots, census_roots, h, List.map_cons, List.sum_cons,
    Nat.add_comm (Invocation.census opened [p.node]), ← Nat.add_assoc]

/-- A return that keeps puts the activation back once it is closed. -/
theorem census_leave (opened : Bool) (S : Spine) (p : Pending) (outer : List Pending)
    (sample : Sample) (v : Verdict) :
    Invocation.census opened (S.leave p outer sample v).roots =
      Invocation.census opened ({ S with pending := outer } : Spine).roots +
        if v = .kept then Invocation.census opened [p.leave sample] else 0 := by
  rcases v with _ | _
  · exact census_settle opened _ _ _
  · rfl

/-- What events taken in do to the numbers of activations: a call opens one, and a return closes
one, which a rule may drop together with what it called. -/
structure Census (rule : Option Retention) (S S' : Spine) (es : List Crossing) : Prop where
  opened : Invocation.census true S.roots + es.countP (·.boundary = .enter) =
    Invocation.census true S'.roots + es.countP (·.boundary = .leave)
  closed : Invocation.census false S'.roots + S'.dropped ≤
    Invocation.census false S.roots + S.dropped + es.countP (·.boundary = .leave)
  all : rule = none → Invocation.census false S'.roots =
    Invocation.census false S.roots + es.countP (·.boundary = .leave)

theorem Census.of_observe {e : Crossing} (h : S.observe rule e = .ok S') :
    Census rule S S' [e] := by
  obtain ⟨he, rfl⟩ | ⟨p, outer, v, hp, he, hv, rfl⟩ := observe_cases h
  · have hclosed : Invocation.census false (S.enter e.function e.sample).roots =
        Invocation.census false S.roots := by
      rw [census_roots, census_roots, enter, List.map_cons, List.sum_cons]
      exact congrArg _ (Nat.zero_add _)
    rw [he]
    refine ⟨?_, ?_, ?_⟩
    · rw [census_true_roots, census_true_roots]
      rfl
    · rw [hclosed]
      exact Nat.le_refl _
    · intro _
      exact hclosed
  · have hopened := census_roots_of_cons true hp
    have hclosed := census_roots_of_cons false hp
    have hsettled : Invocation.census true [p.leave e.sample] = 0 :=
      Invocation.census_of_settled (by simpa using p.settled_leave e.sample)
    rw [p.census_true] at hopened
    rw [he]
    refine ⟨?_, ?_, ?_⟩
    · rw [census_leave, hsettled, hopened]
      simp
    · rw [census_leave, dropped_leave, hclosed, p.census_false_leave]
      rcases v with _ | _ <;> simp <;> omega
    · rintro rfl
      cases hv
      rw [census_leave, hclosed, p.census_false_leave]
      simp [Nat.add_assoc]

theorem Census.refl (rule : Option Retention) (S : Spine) : Census rule S S [] :=
  ⟨rfl, Nat.le_refl _, fun _ => rfl⟩

theorem Census.trans {S₁ S₂ S₃ : Spine} {es es' : List Crossing} (h : Census rule S₁ S₂ es)
    (h' : Census rule S₂ S₃ es') : Census rule S₁ S₃ (es ++ es') := by
  obtain ⟨opened, closed, all⟩ := h
  obtain ⟨opened', closed', all'⟩ := h'
  refine ⟨?_, ?_, ?_⟩
  · rw [List.countP_append, List.countP_append]
    omega
  · rw [List.countP_append]
    omega
  · intro hrule
    rw [all' hrule, all hrule, List.countP_append, Nat.add_assoc]

/-- **A census after several events** can be had from the one before and the events taken in. -/
theorem Census.of_foldlM {es : List Crossing} (h : es.foldlM (observe rule) S = .ok S') :
    Census rule S S' es := by
  induction es generalizing S with
  | nil =>
    cases h
    exact .refl rule _
  | cons e es ih =>
    obtain ⟨S₁, hS₁, h⟩ := History.exists_of_foldlM_cons h
    exact (Census.of_observe hS₁).trans (ih h)

end Spine

namespace Forest

variable (f : Forest)

/-- The number of activations that have not returned. -/
def openCount : Nat := Invocation.census true f.roots

/-- The number of activations that have returned. -/
def closedCount : Nat := Invocation.census false f.roots

theorem openCount_add_closedCount : f.openCount + f.closedCount = f.nodeCount := by
  rw [nodeCount_eq_sizes, openCount, closedCount, Invocation.census_add_census]

end Forest

end CallForest
