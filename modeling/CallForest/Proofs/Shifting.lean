import CallForest.Proofs.Charging
import CallForest.Proofs.Widths
import Mathlib.Data.List.Forall2

/-!
# Memory matters through differences only

Two histories that differ in one fixed amount of memory, added to every sample, are taken in alike.
The rules with thresholds ask for the cost of an invocation and costs are charged as differences, so
the amount cancels wherever a memory is used; it shows in the samples of the forest and nowhere
else.

* `Sample.Shifted`, `Invocation.Shifted`: the same with `c` bytes more in every sample, as integers,
  so that both are in range;
* `Retention.byCost_of_ofThresholds`: rules with thresholds look at the cost only;
* `Spine.shifted_observe`: shifted events keep spines shifted, with the same answers;
* `Forest.run_shifted`: what shifted histories have in common.
-/

namespace CallForest

/-! ### Machines that run in parallel -/

namespace History

/-- Two results that are the same failure, or successes in a relation. -/
inductive Related {ε σ τ : Type} (R : σ → τ → Prop) : Except ε σ → Except ε τ → Prop where
  | ok {s : σ} {t : τ} (states : R s t) : Related R (.ok s) (.ok t)
  | error (e : ε) : Related R (.error e) (.error e)

section

variable {α β ε σ τ : Type} {R : σ → τ → Prop} {E : α → β → Prop}

/-- Two folds whose steps are related are related. -/
theorem related_foldlM {f : σ → α → Except ε σ} {g : τ → β → Except ε τ}
    (h : ∀ s t a b, R s t → E a b → Related R (f s a) (g t b)) {as : List α} {bs : List β}
    (hE : List.Forall₂ E as bs) {s : σ} {t : τ} (hR : R s t) :
    Related R (as.foldlM f s) (bs.foldlM g t) := by
  induction hE generalizing s t with
  | nil => exact .ok hR
  | @cons a b as bs hab _ ih =>
    have hstep := h s t a b hR hab
    rw [List.foldlM_cons, List.foldlM_cons]
    generalize f s a = x at hstep ⊢
    generalize g t b = y at hstep ⊢
    cases hstep with
    | ok states => exact ih states
    | error e => exact .error e

end

section

variable {σ τ : Type} {R : σ → τ → Prop} {E : Crossing → Crossing → Prop}
  {step : σ → Crossing → Except Fault σ} {step' : τ → Crossing → Except Fault τ}

/-- **Two machines whose steps are related** stay related over related histories, and give the same
answers. -/
theorem related_final (h : ∀ s t e e', R s t → E e e' → Related R (step s e) (step' t e'))
    {es es' : List Crossing} (hE : List.Forall₂ E es es') {s : σ} {t : τ} (hR : R s t) :
    R (final step s es) (final step' t es') ∧ answers step' t es' = answers step s es := by
  induction hE generalizing s t with
  | nil => exact ⟨hR, rfl⟩
  | @cons e e' es es' he _ ih =>
    have hstep := h s t e e' hR he
    rw [final, final, answers, answers]
    generalize step s e = x at hstep ⊢
    generalize step' t e' = y at hstep ⊢
    cases hstep with
    | ok states =>
      obtain ⟨hfinal, hanswers⟩ := ih states
      exact ⟨hfinal, congrArg (_ :: ·) hanswers⟩
    | error fault =>
      dsimp only
      split
      · exact ⟨hR, rfl⟩
      · obtain ⟨hfinal, hanswers⟩ := ih hR
        exact ⟨hfinal, congrArg (_ :: ·) hanswers⟩

end

end History

/-! ### Shifted samples, events and trees -/

/-- Two samples of one time, the second with `c` bytes more. -/
structure Sample.Shifted (c : Int) (a b : Sample) : Prop where
  time : b.time = a.time
  memory : b.memory.toInt = a.memory.toInt + c

/-- Two events that differ in `c` bytes. -/
structure Crossing.Shifted (c : Int) (e e' : Crossing) : Prop where
  boundary : e'.boundary = e.boundary
  function : e'.function = e.function
  sample : e.sample.Shifted c e'.sample

/-- Two visits that differ in `c` bytes. -/
structure Visit.Shifted (c : Int) (v w : Visit) : Prop where
  depth : w.depth = v.depth
  boundary : w.boundary = v.boundary
  function : w.function = v.function
  sample : v.sample.Shifted c w.sample

/-- Two trees of one shape that differ in `c` bytes at every call and at every return. -/
inductive Invocation.Shifted (c : Int) : Invocation → Invocation → Prop where
  | intro {t u : Invocation} (function : u.function = t.function)
      (entered : t.entered.Shifted c u.entered)
      (left : Option.Rel (Sample.Shifted c) t.left u.left)
      (callees : List.Forall₂ (Invocation.Shifted c) t.callees u.callees) : t.Shifted c u

variable {c : Int}

/-- The amount cancels in a difference. -/
theorem Sample.Shifted.sub_eq {a a' b b' : Sample} (ha : a.Shifted c a') (hb : b.Shifted c b') :
    b'.sub a' = b.sub a := by
  have hmemory : b'.memory.toInt - a'.memory.toInt = b.memory.toInt - a.memory.toInt := by
    rw [ha.memory, hb.memory]
    omega
  rw [Sample.sub, Sample.sub, Checked.sub, Checked.sub, hmemory, ha.time, hb.time]

/-! ### Rules -/

namespace Retention

/-- A rule that looks at the cost of an invocation and at nothing else. -/
def ByCost (rule : Option Retention) : Prop :=
  ∀ {a b a' b' : Sample}, b'.sub a' = b.sub a →
    Invocation.judge rule a' b' = Invocation.judge rule a b

/-- Rules with thresholds look at the cost only. -/
theorem byCost_of_ofThresholds {ms kb : Int64} {rule : Option Retention}
    (h : ofThresholds ms kb = .ok rule) : ByCost rule := by
  intro a b a' b' hcost
  cases rule with
  | none => rfl
  | some r =>
    have hkeeps : r.keeps a' b' = r.keeps a b := by
      rcases rule_of_ofThresholds h with rfl | rfl | rfl
      · simp only [minMemory, memoryReached, hcost]
      · simp only [minTime, timeReached, hcost]
      · simp only [either, memoryReached, timeReached, hcost]
    rw [Invocation.judge, Invocation.judge, hkeeps]

end Retention

/-! ### Trees -/

namespace Invocation

variable {t u : Invocation} {ts us : List Invocation}

theorem Shifted.function (h : t.Shifted c u) : u.function = t.function := by
  cases h with
  | intro function _ _ _ => exact function

theorem Shifted.entered (h : t.Shifted c u) : t.entered.Shifted c u.entered := by
  cases h with
  | intro _ entered _ _ => exact entered

theorem Shifted.left (h : t.Shifted c u) : Option.Rel (Sample.Shifted c) t.left u.left := by
  cases h with
  | intro _ _ left _ => exact left

theorem Shifted.callees (h : t.Shifted c u) :
    List.Forall₂ (Invocation.Shifted c) t.callees u.callees := by
  cases h with
  | intro _ _ _ callees => exact callees

theorem shifted_enter {a b : Sample} (function : Nat) (h : a.Shifted c b) :
    (enter function a).Shifted c (enter function b) :=
  .intro rfl h .none .nil

theorem Shifted.leave {a b : Sample} (h : t.Shifted c u) (hab : a.Shifted c b) :
    ({ t with left := some a } : Invocation).Shifted c { u with left := some b } :=
  .intro h.function h.entered (.some hab) h.callees

theorem Shifted.add (h : t.Shifted c u) (hs : List.Forall₂ (Invocation.Shifted c) ts us) :
    ({ t with callees := t.callees ++ ts } : Invocation).Shifted c
      { u with callees := u.callees ++ us } :=
  .intro h.function h.entered h.left (List.rel_append h.callees hs)

theorem shifted_callVisit (h : t.Shifted c u) (depth : Nat) :
    (t.callVisit depth).Shifted c (u.callVisit depth) :=
  ⟨rfl, rfl, h.function, h.entered⟩

theorem shifted_returnVisit? (h : t.Shifted c u) (depth : Nat) :
    List.Forall₂ (Visit.Shifted c) (t.returnVisit? depth).toList (u.returnVisit? depth).toList := by
  have hleft := h.left
  rw [returnVisit?, returnVisit?]
  generalize t.left = a at hleft ⊢
  generalize u.left = b at hleft ⊢
  cases hleft with
  | none => exact .nil
  | some hab => exact .cons ⟨rfl, rfl, h.function, hab⟩ .nil

/-- Shifted trees have the same visits, in the same order, up to the amount. -/
theorem shifted_walkAll (h : List.Forall₂ (Invocation.Shifted c) ts us) (depth : Nat) :
    List.Forall₂ (Visit.Shifted c) (walkAll depth ts) (walkAll depth us) := by
  induction ts using listInduction generalizing us depth with
  | nil =>
    cases h
    exact .nil
  | cons t ts callees ih =>
    cases h with
    | cons ht hts =>
      rw [walkAll, walkAll, walk_eq, walk_eq]
      exact List.rel_append
        (.cons (shifted_callVisit ht depth)
          (List.rel_append (callees ht.callees (depth + 1)) (shifted_returnVisit? ht depth)))
        (ih hts depth)

/-- The amount does not show in the number of levels. -/
theorem Shifted.maxDepth_eq (h : t.Shifted c u) : u.maxDepth = t.maxDepth := by
  have hvisits := shifted_walkAll (.cons h .nil) 0
  rw [walkAll_singleton, walkAll_singleton, ← visits_eq_walk, ← visits_eq_walk] at hvisits
  have hdepths : List.Forall₂ (· = ·) (u.visits.map (·.depth)) (t.visits.map (·.depth)) :=
    List.rel_map (fun _ _ hv => hv.depth) hvisits.flip
  rw [List.forall₂_eq_eq_eq] at hdepths
  rw [maxDepth, maxDepth, hdepths]

/-- The amount does not show in the number of leaves. -/
theorem leavesAll_of_shifted (h : List.Forall₂ (Invocation.Shifted c) ts us) :
    leavesAll us = leavesAll ts := by
  induction ts using listInduction generalizing us with
  | nil =>
    cases h
    rfl
  | cons t ts callees ih =>
    cases h with
    | @cons _ u _ us ht hts =>
      have hleaf : u.callees = [] ↔ t.callees = [] := by
        rw [← List.length_eq_zero_iff, ← List.length_eq_zero_iff, ht.callees.length_eq]
      simp only [leavesAll_cons, hleaf, callees ht.callees, ih hts]

end Invocation

theorem Cursor.shifted_rebuild {t u : Invocation} {ps qs : List Invocation}
    (h : t.Shifted c u) (hs : List.Forall₂ (Invocation.Shifted c) ps qs) :
    (rebuild t ps).Shifted c (rebuild u qs) := by
  induction hs generalizing t u with
  | nil => exact h
  | cons hp _ ih => exact ih (hp.add (.cons h .nil))

/-! ### Forests under construction -/

/-- Two spines that differ in `c` bytes. -/
structure Spine.Shifted (c : Int) (S T : Spine) : Prop where
  trees : List.Forall₂ (Invocation.Shifted c) S.trees T.trees
  pending : List.Forall₂ (Invocation.Shifted c) (S.pending.map Pending.node)
    (T.pending.map Pending.node)
  dropped : T.dropped = S.dropped

namespace Spine

open History (Related)

variable {S T : Spine} {rule : Option Retention} {e e' : Crossing}

theorem shifted_empty : empty.Shifted c empty := ⟨.nil, .nil, rfl⟩

/-- Two spines that differ in a fixed amount are both complete, or have activations of one shape at
their ends. -/
theorem Shifted.pending_cases (h : S.Shifted c T) :
    (S.pending = [] ∧ T.pending = []) ∨
      ∃ p outer q outer', S.pending = p :: outer ∧ T.pending = q :: outer' ∧
        p.node.Shifted c q.node ∧
        List.Forall₂ (Invocation.Shifted c) (outer.map Pending.node)
          (outer'.map Pending.node) := by
  have hpending := h.pending
  generalize S.pending = ps at hpending ⊢
  generalize T.pending = qs at hpending ⊢
  cases ps with
  | nil => exact .inl ⟨rfl, List.map_eq_nil_iff.1 (List.forall₂_nil_left_iff.1 hpending)⟩
  | cons p outer =>
    cases qs with
    | nil => cases hpending
    | cons q outer' =>
      cases hpending with
      | cons hnode houter => exact .inr ⟨p, outer, q, outer', rfl, rfl, hnode, houter⟩

theorem Shifted.roots (h : S.Shifted c T) :
    List.Forall₂ (Invocation.Shifted c) S.roots T.roots := by
  rcases h.pending_cases with ⟨hS, hT⟩ | ⟨p, outer, q, outer', hS, hT, hnode, houter⟩
  · rw [roots_of_nil hS, roots_of_nil hT]
    exact h.trees
  · rw [roots_of_cons hS, roots_of_cons hT]
    exact List.rel_append h.trees (.cons (Cursor.shifted_rebuild hnode houter) .nil)

theorem shifted_settle (h : S.Shifted c T) {ts us : List Invocation}
    (hts : ∀ t ∈ ts, t.Settled) (hus : ∀ u ∈ us, u.Settled)
    (htrees : List.Forall₂ (Invocation.Shifted c) ts us) :
    (S.settle ts hts).Shifted c (T.settle us hus) := by
  rcases h.pending_cases with ⟨hS, hT⟩ | ⟨p, outer, q, outer', hS, hT, hnode, houter⟩
  · simp only [settle, hS, hT]
    exact ⟨List.rel_append h.trees htrees, .nil, h.dropped⟩
  · simp only [settle, hS, hT]
    exact ⟨h.trees, .cons (hnode.add htrees) houter, h.dropped⟩

theorem shifted_leave (h : S.Shifted c T) {p q : Pending} {outer outer' : List Pending}
    (hnode : p.node.Shifted c q.node)
    (houter : List.Forall₂ (Invocation.Shifted c) (outer.map Pending.node)
      (outer'.map Pending.node))
    {a b : Sample} (hab : a.Shifted c b) (v : Verdict) :
    (S.leave p outer a v).Shifted c (T.leave q outer' b v) := by
  cases v with
  | kept =>
    have hwaiting : Shifted c { S with pending := outer } { T with pending := outer' } :=
      ⟨h.trees, houter, h.dropped⟩
    exact shifted_settle hwaiting _ _ (.cons (hnode.leave hab) .nil)
  | dropped => exact ⟨h.trees, houter, congrArg (· + 1) h.dropped⟩

/-- **Shifted events keep spines shifted**, with the same answers, if the rule looks at the cost
only. -/
theorem shifted_observe (hrule : Retention.ByCost rule) (h : S.Shifted c T)
    (he : e.Shifted c e') : Related (Shifted c) (S.observe rule e) (T.observe rule e') := by
  obtain ⟨boundary, function, sample⟩ := e
  obtain ⟨boundary', function', sample'⟩ := e'
  obtain ⟨rfl, rfl, hsample⟩ := he
  cases boundary' with
  | enter =>
    exact .ok ⟨h.trees, .cons (Invocation.shifted_enter function' hsample) h.pending, h.dropped⟩
  | leave =>
    rcases h.pending_cases with ⟨hS, hT⟩ | ⟨p, outer, q, outer', hS, hT, hnode, houter⟩
    · simp only [observe, hS, hT]
      exact .error _
    · simp only [observe, hS, hT, hnode.function]
      by_cases hfunction : p.node.function = function'
      · -- the verdict is that on one cost, in which the amount has cancelled
        have hjudge : Invocation.judge rule q.node.entered sample' =
            Invocation.judge rule p.node.entered sample :=
          hrule (hnode.entered.sub_eq hsample)
        rw [if_pos hfunction, if_pos hfunction, hjudge]
        cases Invocation.judge rule p.node.entered sample with
        | error fault => exact .error fault
        | ok v => exact .ok (shifted_leave h hnode houter hsample v)
      · rw [if_neg hfunction, if_neg hfunction]
        exact .error _

end Spine

/-! ### Forests and costs -/

namespace CostTable

/-- Two states of charging that differ in `c` bytes on the stack, and not in the costs. -/
def Shifted (c : Int) (s s' : CostTable × List Sample) : Prop :=
  s'.1 = s.1 ∧ List.Forall₂ (Sample.Shifted c) s.2 s'.2

open History (Related)

theorem shifted_chargeVisit {s s' : CostTable × List Sample} {v w : Visit} (h : Shifted c s s')
    (hv : v.Shifted c w) : Related (Shifted c) (chargeVisit s v) (chargeVisit s' w) := by
  obtain ⟨t, stack⟩ := s
  obtain ⟨t', stack'⟩ := s'
  obtain ⟨depth, boundary, function, sample⟩ := v
  obtain ⟨depth', boundary', function', sample'⟩ := w
  obtain ⟨rfl, hstack⟩ := h
  obtain ⟨rfl, rfl, rfl, hsample⟩ := hv
  cases boundary' with
  | enter => exact .ok ⟨rfl, .cons hsample hstack⟩
  | leave =>
    cases hstack with
    | nil => exact .ok ⟨rfl, .nil⟩
    | @cons a b outer outer' hentered houter =>
      simp only [chargeVisit, hentered.sub_eq hsample]
      cases sample.sub a with
      | error o => exact .error o
      | ok delta =>
        simp only [Except.bind]
        cases CostTable.charge _ function' delta with
        | error o => exact .error o
        | ok t => exact .ok ⟨rfl, houter⟩

/-- The amount does not show in the costs. -/
theorem ofForest_of_shifted {f g : Forest}
    (h : List.Forall₂ (Invocation.Shifted c) f.roots g.roots) : ofForest g = ofForest f := by
  have hstep : ∀ (s s' : CostTable × List Sample) (v w : Visit), Shifted c s s' →
      v.Shifted c w → Related (Shifted c) (chargeVisit s v) (chargeVisit s' w) :=
    fun _ _ _ _ hs hv => shifted_chargeVisit hs hv
  have hstart : Shifted c (empty, []) (empty, []) := ⟨rfl, .nil⟩
  have hfold := History.related_foldlM hstep (Invocation.shifted_walkAll h 0) hstart
  rw [ofForest_eq_foldlM, ofForest_eq_foldlM]
  generalize (Invocation.walkAll 0 f.roots).foldlM chargeVisit (empty, []) = x at hfold ⊢
  generalize (Invocation.walkAll 0 g.roots).foldlM chargeVisit (empty, []) = y at hfold ⊢
  cases hfold with
  | ok states => exact congrArg Except.ok states.1
  | error o => rfl

end CostTable

namespace Forest

theorem maxDepth_of_shifted {f g : Forest}
    (h : List.Forall₂ (Invocation.Shifted c) f.roots g.roots) : g.maxDepth = f.maxDepth := by
  have hdepths : List.Forall₂ (· = ·) (g.roots.map Invocation.maxDepth)
      (f.roots.map Invocation.maxDepth) :=
    List.rel_map (fun _ _ ht => Invocation.Shifted.maxDepth_eq ht) h.flip
  rw [List.forall₂_eq_eq_eq] at hdepths
  rw [maxDepth, maxDepth, hdepths]

/-- **Memory matters through differences only.**  Add one amount to the memory of every event of a
history, all of them staying in range.  Under a rule with thresholds every event gets the answer
that it got before, an overflow of the rule included, and the forest is the one from before with the
amount added at every call and return: as many activations are dropped, it is as deep and as wide,
and the costs of the functions are the same. -/
theorem run_shifted {ms kb : Int64} {rule : Option Retention}
    (hrule : Retention.ofThresholds ms kb = .ok rule) {c : Int} {es es' : List Crossing}
    (h : List.Forall₂ (Crossing.Shifted c) es es') :
    let f := (empty rule).run es
    let g := (empty rule).run es'
    (empty rule).answers es' = (empty rule).answers es ∧
    List.Forall₂ (Invocation.Shifted c) f.roots g.roots ∧
    g.droppedCount = f.droppedCount ∧ g.maxDepth = f.maxDepth ∧ g.maxWidth = f.maxWidth ∧
    CostTable.ofForest g = CostTable.ofForest f := by
  intro f g
  have hstep : ∀ (S T : Spine) (e e' : Crossing), S.Shifted c T → e.Shifted c e' →
      History.Related (Spine.Shifted c) (S.observe rule e) (T.observe rule e') :=
    fun _ _ _ _ hS he => Spine.shifted_observe (Retention.byCost_of_ofThresholds hrule) hS he
  obtain ⟨hspines, hanswers⟩ := History.related_final hstep h Spine.shifted_empty
  have hf : f = (Spine.ofHistory rule es).forest rule := run_empty rule es
  have hg : g = (Spine.ofHistory rule es').forest rule := run_empty rule es'
  have hroots : List.Forall₂ (Invocation.Shifted c) f.roots g.roots := by
    rw [hf, hg]
    exact hspines.roots
  refine ⟨?_, hroots, ?_, maxDepth_of_shifted hroots, ?_, CostTable.ofForest_of_shifted hroots⟩
  · rw [answers_empty, answers_empty]
    exact hanswers
  · rw [hf, hg]
    exact hspines.dropped
  · rw [maxWidth_eq, maxWidth_eq]
    exact Invocation.leavesAll_of_shifted hroots

/-- A call that gains eight kilobytes around one that gains a single one, seen from `0` and seen
from the least memory there is: a threshold of four kilobytes drops the inner one both times. -/
theorem run_shifted_to_least :
    let rule : Option Retention := some (.minMemory 4)
    let es : List Crossing := [⟨.enter, 7, .zero, 0⟩, ⟨.enter, 8, .zero, 1024⟩,
      ⟨.leave, 8, .zero, 2048⟩, ⟨.leave, 7, .zero, 8192⟩]
    let es' : List Crossing := [⟨.enter, 7, .zero, -9223372036854775808⟩,
      ⟨.enter, 8, .zero, -9223372036854774784⟩, ⟨.leave, 8, .zero, -9223372036854773760⟩,
      ⟨.leave, 7, .zero, -9223372036854767616⟩]
    Retention.ofThresholds (-1) 4 = .ok rule ∧
      List.Forall₂ (Crossing.Shifted (-9223372036854775808)) es es' ∧
      List.Forall₂ (Invocation.Shifted (-9223372036854775808)) ((empty rule).run es).roots
        ((empty rule).run es').roots ∧
      ((empty rule).run es').droppedCount = 1 ∧
      CostTable.ofForest ((empty rule).run es') = CostTable.ofForest ((empty rule).run es) := by
  intro rule es es'
  have hrule : Retention.ofThresholds (-1) 4 = .ok rule := rfl
  have hes : List.Forall₂ (Crossing.Shifted (-9223372036854775808)) es es' := by
    refine .cons ⟨rfl, rfl, rfl, ?_⟩ (.cons ⟨rfl, rfl, rfl, ?_⟩ (.cons ⟨rfl, rfl, rfl, ?_⟩
      (.cons ⟨rfl, rfl, rfl, ?_⟩ .nil))) <;> decide
  obtain ⟨-, hroots, hdropped, -, -, hcosts⟩ := run_shifted hrule hes
  refine ⟨hrule, hes, hroots, ?_, hcosts⟩
  rw [hdropped, run_empty]
  rfl

end Forest

end CallForest
