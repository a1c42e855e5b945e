import CallForest.CostTable
import CallForest.Proofs.DepthFirst

/-!
# Every activation is charged with its own cost

The costs of a forest are added up along its depth-first visits, with the samples of the calls on a
stack: a return is charged against the call on top.  A call that never returns leaves its sample on
the stack.  Since nothing that has returned encloses or follows such a call, no return meets it.

* `Invocation.spansAll` lists the activations that have returned, in the order of their returns;
* `CostTable.foldlM_chargeVisit_walkAll`: trees that have returned are charged activation by
  activation and give the stack back as it was;
* `CostTable.ofForest_run_empty`: the costs of every forest that events can build are those of its
  activations, each charged with the difference of its own two samples.
-/

namespace CallForest

/-- An activation that has returned, without those it made. -/
structure Span where
  function : Nat
  entered : Sample
  left : Sample
  deriving DecidableEq, Repr

/-- The return of a span. -/
def Span.crossing (s : Span) : Crossing := ⟨.leave, s.function, s.left⟩

/-! ### The spans of trees -/

namespace Invocation

/-- The span of an activation, once it has returned. -/
def span? (t : Invocation) : Option Span := t.left.map fun s => ⟨t.function, t.entered, s⟩

mutual

/-- The spans of a tree, in the order of the returns. -/
def spans : Invocation → List Span
  | ⟨function, entered, left, callees⟩ =>
    spansAll callees ++ (span? ⟨function, entered, left, callees⟩).toList

/-- The spans of several trees, in the order of the returns. -/
def spansAll : List Invocation → List Span
  | [] => []
  | t :: ts => t.spans ++ spansAll ts

end

theorem spans_eq (t : Invocation) : t.spans = spansAll t.callees ++ t.span?.toList := by
  cases t
  rfl

theorem spansAll_append (ts us : List Invocation) :
    spansAll (ts ++ us) = spansAll ts ++ spansAll us := by
  induction ts with
  | nil => rfl
  | cons t ts ih => rw [List.cons_append, spansAll, ih, spansAll, List.append_assoc]

theorem spansAll_singleton (t : Invocation) : spansAll [t] = t.spans := by
  rw [spansAll, spansAll, List.append_nil]

/-- The returns of the spans are the returns among the visits. -/
theorem map_crossing_spansAll (depth : Nat) (ts : List Invocation) :
    (spansAll ts).map Span.crossing =
      ((walkAll depth ts).map Visit.crossing).filter (·.boundary = .leave) := by
  induction ts using listInduction generalizing depth with
  | nil => rfl
  | cons t ts callees ih =>
    have hreturn : t.span?.toList.map Span.crossing =
        ((t.returnVisit? depth).toList.map Visit.crossing).filter (·.boundary = .leave) := by
      rw [span?, returnVisit?]
      cases t.left <;> rfl
    have hcall : (t.callVisit depth).crossing.boundary ≠ .leave := Boundary.noConfusion
    rw [spansAll, spans_eq, walkAll, walk_eq]
    simp only [List.map_append, List.map_cons, List.filter_append, callees (depth + 1), ih depth,
      hreturn, List.filter_cons, hcall, decide_false, Bool.false_eq_true, if_false]

end Invocation

/-- The spans below pending activations. -/
def Pending.spans : List Pending → List Span
  | [] => []
  | p :: outer => spans outer ++ Invocation.spansAll p.node.callees

theorem Cursor.spans_rebuild (t : Invocation) (outer : List Pending) :
    (rebuild t (outer.map Pending.node)).spans = Pending.spans outer ++ t.spans := by
  induction outer generalizing t with
  | nil => rfl
  | cons p outer ih =>
    have hpush : (p.node.push t).spans = Invocation.spansAll p.node.callees ++ t.spans := by
      rw [Invocation.spans_eq, Invocation.span?]
      show Invocation.spansAll (p.node.callees ++ [t]) ++ (p.node.left.map _).toList = _
      rw [p.left_eq, Invocation.spansAll_append, Invocation.spansAll_singleton]
      exact List.append_nil _
    rw [List.map_cons, rebuild, ih, hpush, Pending.spans, List.append_assoc]

theorem Spine.spansAll_roots (S : Spine) :
    Invocation.spansAll S.roots = Invocation.spansAll S.trees ++ Pending.spans S.pending := by
  cases h : S.pending with
  | nil => rw [roots_of_nil h, Pending.spans, List.append_nil]
  | cons p outer =>
    have hnode : p.node.spans = Invocation.spansAll p.node.callees := by
      rw [Invocation.spans_eq, Invocation.span?, p.left_eq]
      exact List.append_nil _
    rw [roots_of_cons h, Invocation.spansAll_append, Invocation.spansAll_singleton,
      Cursor.spans_rebuild, hnode, Pending.spans]

theorem Spine.walkAll_roots (S : Spine) :
    Invocation.walkAll 0 S.roots = Invocation.walkAll 0 S.trees ++ Pending.opening S.pending := by
  cases h : S.pending with
  | nil => rw [roots_of_nil h, Pending.opening, List.append_nil]
  | cons p outer =>
    rw [roots_of_cons h, Invocation.walkAll_append, Invocation.walkAll_singleton,
      Pending.walk_rebuild, Pending.opening_cons]

/-! ### Charging -/

namespace CostTable

/-- The table with the cost of one more span. -/
def chargeSpan (t : CostTable) (s : Span) : Except Overflow CostTable :=
  (s.left.sub s.entered).bind (t.charge s.function)

variable (t : CostTable) (stack : List Sample)

/-- A return charges the span that its call on top of the stack makes with it. -/
theorem chargeVisit_leave (entered : Sample) (depth function : Nat) (sample : Sample) :
    chargeVisit (t, entered :: stack) ⟨depth, .leave, function, sample⟩ =
      (t.chargeSpan ⟨function, entered, sample⟩).map (·, stack) := by
  simp only [chargeVisit, chargeSpan]
  cases sample.sub entered <;> rfl

/-- **Trees that have returned are charged span by span**, and the stack is afterwards as it was. -/
theorem foldlM_chargeVisit_walkAll (depth : Nat) {ts : List Invocation}
    (h : ∀ u ∈ ts, u.Settled) :
    (Invocation.walkAll depth ts).foldlM chargeVisit (t, stack) =
      ((Invocation.spansAll ts).foldlM chargeSpan t).map (·, stack) := by
  induction ts using Invocation.listInduction generalizing depth t stack with
  | nil => rfl
  | cons u us callees ih =>
    obtain ⟨hu, hus⟩ := List.forall_mem_cons.1 h
    obtain ⟨s, hs⟩ := Option.isSome_iff_exists.1 hu.left
    have hcall : chargeVisit (t, stack) (u.callVisit depth) = .ok (t, u.entered :: stack) := rfl
    have hreturn : u.returnVisit? depth = some ⟨depth, .leave, u.function, s⟩ := by
      rw [Invocation.returnVisit?, hs]
      rfl
    have hspan : u.span? = some ⟨u.function, u.entered, s⟩ := by
      rw [Invocation.span?, hs]
      rfl
    rw [Invocation.walkAll, Invocation.walk_eq, Invocation.spansAll, Invocation.spans_eq, hreturn,
      hspan]
    simp only [List.cons_append, List.foldlM_cons, List.foldlM_append, hcall]
    show Except.bind (Except.bind (List.foldlM _ _ _) _) _ = _
    rw [callees t (u.entered :: stack) (depth + 1) hu.callees]
    -- First the callees, then the return of `u` itself, then the trees after it.
    cases (Invocation.spansAll u.callees).foldlM chargeSpan t with
    | error o => rfl
    | ok t₁ =>
      show Except.bind (Except.bind (chargeVisit (t₁, u.entered :: stack) _) _) _ = _
      rw [chargeVisit_leave]
      show _ = Except.map _ (Except.bind (Except.bind (t₁.chargeSpan _) _) _)
      cases t₁.chargeSpan ⟨u.function, u.entered, s⟩ with
      | error o => rfl
      | ok t₂ => exact ih t₂ stack depth hus

/-- Pending activations leave their samples on the stack, the innermost on top. -/
theorem foldlM_chargeVisit_opening (path : List Pending) :
    (Pending.opening path).foldlM chargeVisit (t, stack) =
      ((Pending.spans path).foldlM chargeSpan t).map
        (·, path.map (·.node.entered) ++ stack) := by
  induction path with
  | nil => rfl
  | cons p outer ih =>
    rw [Pending.opening, Pending.spans, List.foldlM_append, ih, List.foldlM_append]
    cases (Pending.spans outer).foldlM chargeSpan t with
    | error o => rfl
    | ok t₁ =>
      show (p.node.callVisit outer.length :: Invocation.walkAll (outer.length + 1)
        p.node.callees).foldlM chargeVisit (t₁, outer.map (·.node.entered) ++ stack) = _
      rw [List.foldlM_cons]
      exact foldlM_chargeVisit_walkAll t₁ _ _ p.settled

/-- The trees of a spine are charged span by span; what is on the stack then is not charged. -/
theorem foldlM_chargeVisit_roots (S : Spine) :
    (Invocation.walkAll 0 S.roots).foldlM chargeVisit (t, []) =
      ((Invocation.spansAll S.roots).foldlM chargeSpan t).map
        (·, S.pending.map (·.node.entered)) := by
  rw [Spine.walkAll_roots, Spine.spansAll_roots, List.foldlM_append, List.foldlM_append,
    foldlM_chargeVisit_walkAll t [] 0 S.settled]
  cases (Invocation.spansAll S.trees).foldlM chargeSpan t with
  | error o => rfl
  | ok t₁ => exact (foldlM_chargeVisit_opening t₁ [] S.pending).trans (by rw [List.append_nil]; rfl)

/-- The costs of a forest are charged along the visits of its trees. -/
theorem ofForest_eq_foldlM (f : Forest) :
    ofForest f =
      ((Invocation.walkAll 0 f.roots).foldlM chargeVisit (empty, [])).map Prod.fst := by
  rw [← Forest.map_visit_depthFirst, List.foldlM_map]
  rfl

/-- **Every activation is charged with its own cost.**  The costs of a forest after any history are
those of its activations that have returned, charged one by one in the order of their returns, each
with the difference of its own two samples; a result out of range is the same on both sides.  What
is still open is not charged. -/
theorem ofForest_run_empty (rule : Option Retention) (es : List Crossing) :
    let f := (Forest.empty rule).run es
    ofForest f = (Invocation.spansAll f.roots).foldlM chargeSpan empty ∧
    (Invocation.spansAll f.roots).map Span.crossing =
      (f.depthFirst.map Placed.crossing).filter (·.boundary = .leave) := by
  intro f
  have hvisits : f.depthFirst.map Placed.visit = Invocation.walkAll 0 f.roots :=
    f.map_visit_depthFirst
  refine ⟨?_, ?_⟩
  · have hroots : f.roots = (Spine.ofHistory rule es).roots :=
      congrArg Forest.roots (Forest.run_empty rule es)
    have hfold : f.depthFirst.foldlM (fun state p => chargeVisit state p.visit) (empty, []) =
        (Invocation.walkAll 0 f.roots).foldlM chargeVisit (empty, []) := by
      rw [← hvisits, List.foldlM_map]
    rw [ofForest, hfold, hroots, foldlM_chargeVisit_roots]
    cases (Invocation.spansAll (Spine.ofHistory rule es).roots).foldlM chargeSpan empty <;> rfl
  · rw [Invocation.map_crossing_spansAll 0, ← hvisits, List.map_map]
    rfl

end CostTable

end CallForest
