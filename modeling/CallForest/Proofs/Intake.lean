import CallForest.Proofs.Exports
import CallForest.Proofs.Failures

/-!
# What a session has taken in

Operations that fail or pass an event over leave the forest and the extremes of a session alone.  So
these are made by the events taken in, one after the other, and by nothing else.

* `Session.Intake`: what an operation does to the forest and the extremes of a session;
* `Session.foldlM_feed_accepted`: the forest of a session is that of the events taken in, each with
  the number that its site has in the end;
* `Spine.sublist_crossing_visited`: the visits of a forest are events that it took in, and come in
  their order;
* `Session.exists_of_mem_visits`: so are the visits of a session, in either order.
-/

namespace CallForest

namespace Session

/-! ### One operation -/

section

variable {s s' : Session} {e : Event} {n : Nat} {fault : Fault}

/-- All that adding an event does when it succeeds. -/
theorem exists_of_add (h : s.add e = .ok n s') :
    ∃ t f, s.sites.number e.site = .ok (n, t) ∧ s.forest.observe e.boundary n e.sample = .ok f ∧
      s' = { s with sites := t, forest := f }.widen e.sample := by
  rw [add_eq] at h
  rcases hn : s.sites.number e.site with fault | ⟨m, t⟩
  · simp [hn] at h
  · rcases ho : s.forest.observe e.boundary m e.sample with fault | f
    · simp [hn, ho] at h
    · simp only [hn, ho, EStateM.Result.ok.injEq] at h
      obtain ⟨rfl, rfl⟩ := h
      exact ⟨t, f, rfl, ho, rfl⟩

/-- Adding an event that fails changes nothing but the numbers. -/
theorem exists_of_add_error (h : s.add e = .error fault s') : ∃ t, s' = { s with sites := t } := by
  rw [add_eq] at h
  rcases hn : s.sites.number e.site with fault | ⟨m, t⟩
  · simp only [hn, EStateM.Result.error.injEq] at h
    exact ⟨s.sites, h.2.symm⟩
  · rcases ho : s.forest.observe e.boundary m e.sample with fault | f
    · simp only [hn, ho, EStateM.Result.error.injEq] at h
      exact ⟨t, h.2.symm⟩
    · simp [hn, ho] at h

end

/-- What an operation does to the forest and the extremes of a session: nothing, or what the event
that it takes in does. -/
inductive Intake (s : Session) (op : Operation) : Prop where
  | nothing {sites : Site.Table} {tally : Tally} {final : Option Sample}
      (accepts : s.accepts op = none) (after : s.after op = { s with sites, tally, final })
  | event {e : Event} {n : Nat} {sites : Site.Table} {forest : Forest} {tally : Tally}
      (accepts : s.accepts op = some e) (number : s.sites.number e.site = .ok (n, sites))
      (observe : s.forest.observe e.boundary n e.sample = .ok forest)
      (after : s.after op = { ({ s with sites, forest } : Session).widen e.sample with tally })

theorem intake (s : Session) (op : Operation) : s.Intake op := by
  have hperformed := s.performed op
  generalize h : s.perform op = r at hperformed
  cases hperformed with
  | late => exact .nothing (accepts_of_error h) (after_of_error h)
  | passed _ passes => exact .nothing ((accepts_of_ok h).trans (if_pos passes)) (after_of_ok h)
  | refused _ add =>
    obtain ⟨t, rfl⟩ := exists_of_add_error add
    exact .nothing (accepts_of_error h) (after_of_error h)
  | recorded _ takes add =>
    obtain ⟨t, f, hn, ho, rfl⟩ := exists_of_add add
    exact .event ((accepts_of_ok h).trans (by rw [Operation.offered, takes]; rfl)) hn ho
      (after_of_ok h)
  | added add =>
    obtain ⟨t, f, hn, ho, rfl⟩ := exists_of_add add
    exact .event (accepts_of_ok h) hn ho (after_of_ok h)
  | inside => exact .nothing (accepts_of_error h) (after_of_error h)
  | finished => exact .nothing (accepts_of_ok h) (after_of_ok h)

variable {s : Session}

/-- The forest after an operation is that of the event taken in, with the number that its site has
in any later table. -/
theorem foldlM_feed_accepts (op : Operation) {t : Site.Table}
    (ht : (s.after op).sites.Extends t) :
    ((s.accepts op).toList.map (Event.crossing t)).foldlM Forest.feed s.forest =
      .ok (s.after op).forest := by
  rcases s.intake op with ⟨accepts, after⟩ | @⟨e, n, sites, forest, tally, accepts, number, observe,
    after⟩
  · rw [accepts, after]
    rfl
  · rw [after] at ht ⊢
    have hcrossing := crossing_eq_of_extends (Site.Table.number_spec number).1 ht
    have hfeed : s.forest.feed (e.crossing t) = .ok forest := by rw [hcrossing]; exact observe
    rw [accepts]
    exact History.foldlM_cons_of_eq_ok hfeed []

/-! ### Several operations -/

/-- **The forest of a session is that of the events taken in**, each with the number that its site
has in the end. -/
theorem foldlM_feed_accepted (ops : List Operation) :
    ((s.accepted ops).map (Event.crossing (s.run ops).sites)).foldlM Forest.feed s.forest =
      .ok (s.run ops).forest := by
  induction ops generalizing s with
  | nil => rfl
  | cons op ops ih =>
    rw [accepted, List.map_append, run]
    exact (History.foldlM_append_of_eq_ok
      (foldlM_feed_accepts op (extends_run (s.after op) ops)) _).trans ih

end Session

/-! ### The visits of a forest -/

namespace Spine

variable {S S' : Spine} {rule : Option Retention}

@[simp] theorem visited_empty : empty.visited = [] := rfl

/-- A return that drops takes with it the visits of what it ends. -/
theorem visited_of_dropped {p : Pending} {outer : List Pending} (h : S.pending = p :: outer)
    (sample : Sample) :
    S.visited = (S.leave p outer sample .dropped).visited ++
      (p.node.walk outer.length).map (⟨S.trees.length, ·⟩) := by
  rw [visited, h, Pending.opening_cons, List.map_append, ← List.append_assoc]
  rfl

/-- An event taken in adds one visit at the end, or takes some away there. -/
theorem sublist_crossing_observe {e : Crossing} (h : S.observe rule e = .ok S') :
    (S'.visited.map Placed.crossing).Sublist (S.visited.map Placed.crossing ++ [e]) := by
  obtain ⟨he, rfl⟩ | ⟨p, outer, v, hp, he, -, rfl⟩ := observe_cases h
  · rw [visited_enter, List.map_append, he]
    exact .refl _
  · rcases v with _ | _
    · rw [visited_leave hp, List.map_append, he]
      exact .refl _
    · rw [visited_of_dropped hp e.sample, List.map_append, List.append_assoc]
      exact List.sublist_append_left _ _

/-- **The visits of a forest are events that it took in**, in their order. -/
theorem sublist_crossing_visited {es : List Crossing} (h : es.foldlM (observe rule) S = .ok S') :
    (S'.visited.map Placed.crossing).Sublist (S.visited.map Placed.crossing ++ es) := by
  induction es generalizing S with
  | nil =>
    cases h
    rw [List.append_nil]
  | cons e es ih =>
    obtain ⟨S₁, hS₁, h⟩ := History.exists_of_foldlM_cons h
    have hstep := (sublist_crossing_observe hS₁).append_right es
    rw [List.append_assoc, List.singleton_append] at hstep
    exact (ih h).trans hstep

end Spine

namespace Session

variable (rule : Option Retention) (skipsSynthetic : Bool) (initial : Sample)
variable (ops : List Operation)

/-- The forest of a session has a spine, which the events taken in build. -/
theorem exists_spine_run :
    let start := start rule skipsSynthetic initial
    let s := start.run ops
    ∃ S, ((start.accepted ops).map (Event.crossing s.sites)).foldlM (Spine.observe rule) .empty =
      .ok S ∧ s.forest = S.forest rule := by
  intro start s
  have hfeed := foldlM_feed_accepted (s := start) ops
  change _ = Except.ok s.forest at hfeed
  have hempty : start.forest = .empty rule := rfl
  rw [hempty, Forest.foldlM_empty] at hfeed
  rcases hS : ((start.accepted ops).map (Event.crossing s.sites)).foldlM (Spine.observe rule)
    .empty with fault | S
  · rw [hS] at hfeed
    cases hfeed
  · rw [hS] at hfeed
    exact ⟨S, rfl, (Except.ok.inj hfeed).symm⟩

/-- The visits of a session are events that it took in, in either order. -/
theorem exists_of_mem_visits {order : Order} {p : Placed}
    (hp : p ∈ ((start rule skipsSynthetic initial).run ops).forest.visits order) :
    ∃ e ∈ (start rule skipsSynthetic initial).accepted ops,
      p.crossing = e.crossing ((start rule skipsSynthetic initial).run ops).sites := by
  obtain ⟨S, hS, hforest⟩ := exists_spine_run rule skipsSynthetic initial ops
  have hmem := ((Forest.perm_visit_visits _ order).mem_iff.1 (List.mem_map_of_mem hp))
  rw [← Forest.map_visit_depthFirst, hforest, Spine.depthFirst_forest] at hmem
  obtain ⟨q, hq, hvisit⟩ := List.mem_map.1 hmem
  have hcrossing := (Spine.sublist_crossing_visited hS).subset (List.mem_map_of_mem hq)
  rw [Spine.visited_empty, List.map_nil, List.nil_append] at hcrossing
  obtain ⟨e, he, heq⟩ := List.mem_map.1 hcrossing
  refine ⟨e, he, ?_⟩
  rw [heq, Placed.crossing, Placed.crossing, hvisit]

end Session

end CallForest
