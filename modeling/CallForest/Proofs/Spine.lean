import CallForest.Proofs.History

/-!
# The spine of a forest

A forest under construction is a list of trees that have returned and, after them, the one tree
that execution is in.  That tree is a path of pending activations, each of which waits for the next
one; all else below them has returned.  A `Spine` keeps the pending activations on a stack, so that
an event concerns its top only.

* `Spine.forest` puts the parts together again;
* `Spine.observe` is what an event does to a spine, and `Spine.feed_forest` says that it is what the
  event does to the forest;
* `Forest.run_empty`, `Forest.answers_empty` and `Forest.accepted_empty` say the same of histories:
  every forest that events can build has a spine.
-/

namespace CallForest

namespace Invocation

/-- An activation has returned, and so has everything below it. -/
inductive Settled : Invocation → Prop where
  | intro {t : Invocation} (left : t.left.isSome = true) (callees : ∀ c ∈ t.callees, c.Settled) :
      t.Settled

theorem Settled.isOpen_eq {t : Invocation} (h : t.Settled) : t.isOpen = false := by
  cases h with
  | intro left _ => rw [isOpen, Option.isNone_eq_false_iff, left]

theorem Settled.left {t : Invocation} (h : t.Settled) : t.left.isSome = true := by
  cases h with
  | intro left _ => exact left

theorem Settled.callees {t : Invocation} (h : t.Settled) : ∀ c ∈ t.callees, c.Settled := by
  cases h with
  | intro _ callees => exact callees

/-- The last of several settled trees is not open. -/
theorem filter_getLast?_of_settled {ts : List Invocation} (h : ∀ t ∈ ts, t.Settled) :
    ts.getLast?.filter isOpen = none := by
  rw [Option.filter_eq_none_iff]
  intro t ht
  rw [(h t (List.mem_of_getLast? ht)).isOpen_eq]
  exact Bool.false_ne_true

theorem openCallee_of_settled {t : Invocation} (h : ∀ c ∈ t.callees, c.Settled) :
    t.openCallee = none :=
  filter_getLast?_of_settled h

/-- An activation without its last callee and with it again. -/
theorem dropLast_push (t c : Invocation) : (t.push c).dropLast = t := by
  cases t
  simp [dropLast, push]

theorem openCallee_push {t c : Invocation} (h : c.isOpen = true) :
    (t.push c).openCallee = some c := by
  simp [openCallee, push, h]

end Invocation

/-- An activation that has not returned, while everything that it called has. -/
@[ext]
structure Pending where
  node : Invocation
  isOpen : node.isOpen = true
  settled : ∀ c ∈ node.callees, c.Settled

namespace Pending

/-- A new activation. -/
def enter (function : Nat) (sample : Sample) : Pending where
  node := .enter function sample
  isOpen := rfl
  settled := by simp [Invocation.enter]

variable (p : Pending)

/-- The activation with more callees. -/
def add (ts : List Invocation) (h : ∀ t ∈ ts, t.Settled) : Pending where
  node := { p.node with callees := p.node.callees ++ ts }
  isOpen := p.isOpen
  settled := List.forall_mem_append.2 ⟨p.settled, h⟩

theorem add_nil (h : ∀ t ∈ [], Invocation.Settled t) : p.add [] h = p := by
  ext1
  ext1 <;> simp [add]

/-- The activation once it has returned. -/
def leave (sample : Sample) : Invocation := { p.node with left := some sample }

theorem settled_leave (sample : Sample) : (p.leave sample).Settled := .intro rfl p.settled

theorem left_eq : p.node.left = none := Option.isNone_iff_eq_none.1 p.isOpen

end Pending

/-! ### The way down the pending activations -/

namespace Cursor

variable {t : Invocation}

theorem isOpen_rebuild (h : t.isOpen = true) (outer : List Pending) :
    (rebuild t (outer.map Pending.node)).isOpen = true := by
  induction outer generalizing t with
  | nil => exact h
  | cons p outer ih => exact ih p.isOpen

/-- From the root of the tree the way goes down to where it was put together. -/
theorem descend_rebuild (h : t.isOpen = true) (outer : List Pending) (waiting : List Invocation) :
    (rebuild t (outer.map Pending.node)).descend waiting =
      t.descend (outer.map Pending.node ++ waiting) := by
  induction outer generalizing t with
  | nil => rfl
  | cons p outer ih =>
    have hp : (p.node.push t).isOpen = true := p.isOpen
    -- The tree below `p` is its last callee and open, so the way goes on into it.
    rw [List.map_cons, rebuild, ih hp, Invocation.descend_of_some (Invocation.openCallee_push h),
      Invocation.dropLast_push, List.cons_append]

/-- The running activation is the innermost pending one. -/
theorem cursor_rebuild (p : Pending) (outer : List Pending) :
    (rebuild p.node (outer.map Pending.node)).cursor = ⟨p.node, outer.map Pending.node⟩ := by
  -- All that `p` called has returned, so the way ends there.
  rw [Invocation.cursor, descend_rebuild p.isOpen,
    Invocation.descend_of_none (Invocation.openCallee_of_settled p.settled), List.append_nil]

end Cursor

/-- A forest taken apart. -/
@[ext]
structure Spine where
  /-- The trees that have returned. -/
  trees : List Invocation
  settled : ∀ t ∈ trees, t.Settled
  /-- The activations that have not returned, the innermost first. -/
  pending : List Pending
  /-- The number of activations dropped. -/
  dropped : Nat

namespace Spine

/-- No events. -/
def empty : Spine := ⟨[], by simp, [], 0⟩

variable (S : Spine)

/-- The tree that execution is in. -/
def openTree : Option Invocation :=
  match S.pending with
  | [] => none
  | p :: outer => some (Cursor.rebuild p.node (outer.map Pending.node))

/-- All trees in the order of their calls. -/
def roots : List Invocation := S.trees ++ S.openTree.toList

/-- The forest put together. -/
def forest (rule : Option Retention) (S : Spine) : Forest := ⟨S.roots, rule, S.dropped⟩

@[simp] theorem rule_forest (rule : Option Retention) : (S.forest rule).rule = rule := rfl

/-! ### Events -/

/-- The spine after a call. -/
def enter (function : Nat) (sample : Sample) : Spine :=
  { S with pending := .enter function sample :: S.pending }

/-- The spine with more settled trees where execution is. -/
def settle (ts : List Invocation) (h : ∀ t ∈ ts, t.Settled) : Spine :=
  match S.pending with
  | [] => { S with trees := S.trees ++ ts, settled := List.forall_mem_append.2 ⟨S.settled, h⟩ }
  | p :: outer => { S with pending := p.add ts h :: outer }

theorem settle_nil (h : ∀ t ∈ [], Invocation.Settled t) : S.settle [] h = S := by
  obtain ⟨trees, settled, pending, dropped⟩ := S
  cases pending with
  | nil => simp [settle]
  | cons p outer => simp [settle, Pending.add_nil]

theorem settle_dropped (ts : List Invocation) (h : ∀ t ∈ ts, t.Settled) (n : Nat) :
    ({ S with dropped := n } : Spine).settle ts h = { S.settle ts h with dropped := n } := by
  obtain ⟨trees, settled, pending, dropped⟩ := S
  cases pending <;> rfl

/-- The spine after the return of `p`, for which `outer` wait. -/
def leave (p : Pending) (outer : List Pending) (sample : Sample) : Verdict → Spine
  | .kept =>
    { S with pending := outer }.settle [p.leave sample] (by simpa using p.settled_leave sample)
  | .dropped => { S with pending := outer, dropped := S.dropped + 1 }

/-- The spine after an event. -/
def observe (rule : Option Retention) (S : Spine) (e : Crossing) : Except Fault Spine :=
  match e.boundary, S.pending with
  | .enter, _ => .ok (S.enter e.function e.sample)
  | .leave, [] => .error (.leaveOutside e.function)
  | .leave, p :: outer =>
    if p.node.function = e.function then
      (Invocation.judge rule p.node.entered e.sample).map (S.leave p outer e.sample)
    else .error (.mismatch p.node.function e.function)

variable {S}

theorem openTree_of_nil (h : S.pending = []) : S.openTree = none := by
  rw [openTree, h]

theorem openTree_of_cons {p : Pending} {outer : List Pending} (h : S.pending = p :: outer) :
    S.openTree = some (Cursor.rebuild p.node (outer.map Pending.node)) := by
  rw [openTree, h]

theorem roots_of_nil (h : S.pending = []) : S.roots = S.trees := by
  rw [roots, openTree_of_nil h, Option.toList_none, List.append_nil]

theorem roots_of_cons {p : Pending} {outer : List Pending} (h : S.pending = p :: outer) :
    S.roots = S.trees ++ [Cursor.rebuild p.node (outer.map Pending.node)] := by
  rw [roots, openTree_of_cons h, Option.toList_some]

variable (S)

/-- The tree that execution is in is the open one of the forest. -/
theorem openRoot_forest (rule : Option Retention) : (S.forest rule).openRoot = S.openTree := by
  unfold Forest.openRoot forest
  cases h : S.pending with
  | nil =>
    rw [roots_of_nil h, openTree_of_nil h]
    exact Invocation.filter_getLast?_of_settled S.settled
  | cons p outer =>
    simp only [roots_of_cons h, openTree_of_cons h, List.getLast?_concat]
    rw [Option.filter_some, if_pos (Cursor.isOpen_rebuild p.isOpen outer)]

theorem isOpen_forest (rule : Option Retention) :
    (S.forest rule).isOpen = true ↔ S.pending ≠ [] := by
  rw [Forest.isOpen, openRoot_forest, openTree]
  cases S.pending <;> simp

/-- What a call does to a spine is what it does to the forest. -/
theorem takeCall_forest (rule : Option Retention) (function : Nat) (sample : Sample) :
    (S.forest rule).takeCall function sample = .ok () ((S.enter function sample).forest rule) := by
  rw [Forest.takeCall, openRoot_forest]
  cases h : S.pending with
  | nil =>
    rw [openTree_of_nil h]
    have h' : (S.enter function sample).pending = [.enter function sample] := by rw [enter, h]
    simp only [forest, roots_of_nil h, roots_of_cons h']
    rfl
  | cons p outer =>
    rw [openTree_of_cons h]
    have h' : (S.enter function sample).pending = .enter function sample :: p :: outer := by
      rw [enter, h]
    have hopen := Cursor.isOpen_rebuild p.isOpen outer
    simp only [Invocation.takeCall_eq hopen, Cursor.cursor_rebuild, Forest.setLast, forest,
      roots_of_cons h, roots_of_cons h', List.dropLast_concat]
    rfl

theorem forest_leave_kept (rule : Option Retention) (p : Pending) (outer : List Pending)
    (sample : Sample) :
    (S.leave p outer sample .kept).forest rule =
      ⟨S.trees ++ [Cursor.rebuild (p.leave sample) (outer.map Pending.node)], rule, S.dropped⟩ := by
  cases outer with
  | nil => simp [forest, leave, settle, roots, openTree, Cursor.rebuild]
  | cons q outer => rfl

theorem forest_leave_dropped (rule : Option Retention) (p : Pending) (outer : List Pending)
    (sample : Sample) :
    (S.leave p outer sample .dropped).forest rule =
      ⟨({ S with pending := outer } : Spine).roots, rule, S.dropped + 1⟩ :=
  rfl

/-- What a return does to a spine is what it does to the forest. -/
theorem observe_leave_forest (rule : Option Retention) (function : Nat) (sample : Sample) :
    (S.forest rule).observe .leave function sample =
      (S.observe rule ⟨.leave, function, sample⟩).map (forest rule) := by
  rw [Forest.observe, Forest.take, Forest.takeRet, openRoot_forest]
  cases h : S.pending with
  | nil =>
    rw [openTree_of_nil h, observe, h]
    rfl
  | cons p outer =>
    rw [openTree_of_cons h, observe, h]
    have hopen := Cursor.isOpen_rebuild p.isOpen outer
    simp only [Invocation.takeRet_eq hopen, Cursor.cursor_rebuild, Invocation.close]
    by_cases hf : p.node.function = function
    · subst hf
      rw [if_pos rfl, if_pos rfl, rule_forest]
      cases Invocation.judge rule p.node.entered sample with
      | error fault => rfl
      | ok v =>
        cases v with
        | kept =>
          simp only [Except.map, forest_leave_kept]
          simp only [forest, Forest.setLast, roots_of_cons h, List.dropLast_concat]
          rfl
        | dropped =>
          simp only [Except.map, forest_leave_dropped]
          -- With nothing waiting for it, what is dropped is the tree itself.
          cases outer with
          | nil =>
            simp only [forest, roots_of_cons h]
            simp [Cursor.resume, Invocation.isOpen, roots, openTree]
          | cons q outer =>
            have hq := Cursor.isOpen_rebuild q.isOpen outer
            simp only [List.map_cons, Cursor.resume, hq, if_true, forest, roots_of_cons h,
              Forest.setLast, List.dropLast_concat]
            rfl
    · simp only [hf, if_false]
      rfl

/-- **A spine takes an event the way its forest does.** -/
theorem feed_forest (rule : Option Retention) (e : Crossing) :
    (S.forest rule).feed e = (S.observe rule e).map (forest rule) := by
  obtain ⟨boundary, function, sample⟩ := e
  cases boundary with
  | enter =>
    rw [Forest.feed, Forest.observe, Forest.take, takeCall_forest]
    rfl
  | leave => exact S.observe_leave_forest rule function sample

/-- All that an event taken in can do. -/
theorem observe_cases {S S' : Spine} {rule : Option Retention} {e : Crossing}
    (h : S.observe rule e = .ok S') :
    (e = ⟨.enter, e.function, e.sample⟩ ∧ S' = S.enter e.function e.sample) ∨
      ∃ p outer v, S.pending = p :: outer ∧ e = ⟨.leave, p.node.function, e.sample⟩ ∧
        Invocation.judge rule p.node.entered e.sample = .ok v ∧ S' = S.leave p outer e.sample v := by
  obtain ⟨boundary, function, sample⟩ := e
  cases boundary with
  | enter =>
    cases h
    exact .inl ⟨rfl, rfl⟩
  | leave =>
    cases hp : S.pending with
    | nil => simp [observe, hp] at h
    | cons p outer =>
      simp only [observe, hp] at h
      split at h
      · rename_i hf
        subst hf
        cases hj : Invocation.judge rule p.node.entered sample with
        | error fault =>
          rw [hj] at h
          cases h
        | ok v =>
          rw [hj] at h
          cases h
          exact .inr ⟨p, outer, v, rfl, rfl, hj, rfl⟩
      · cases h

/-! ### Histories -/

/-- The spine that a history builds. -/
def ofHistory (rule : Option Retention) (es : List Crossing) : Spine :=
  History.final (observe rule) empty es

end Spine

namespace Forest

variable (rule : Option Retention) (es : List Crossing)

/-- **Every forest that events can build has a spine.** -/
theorem run_empty : (empty rule).run es = (Spine.ofHistory rule es).forest rule := by
  rw [run_eq_final]
  exact History.final_map (Spine.forest rule) (fun S e => S.feed_forest rule e) .empty es

theorem answers_empty :
    (empty rule).answers es = History.answers (Spine.observe rule) .empty es := by
  rw [answers_eq]
  exact History.answers_map (Spine.forest rule) (fun S e => S.feed_forest rule e) .empty es

theorem accepted_empty :
    (empty rule).accepted es = History.accepted (Spine.observe rule) .empty es := by
  rw [accepted_eq]
  exact History.accepted_map (Spine.forest rule) (fun S e => S.feed_forest rule e) .empty es

theorem foldlM_empty :
    es.foldlM feed (empty rule) =
      (es.foldlM (Spine.observe rule) .empty).map (Spine.forest rule) :=
  History.foldlM_map (Spine.forest rule) (fun S e => S.feed_forest rule e) .empty es

end Forest

end CallForest
