import CallForest.Proofs.Enumeration
import CallForest.Proofs.Spine

/-!
# The shape of a forest

Events come in at one end of a forest: what is open lies on the way from the last tree along the
last callees, from the root of that tree down to the running activation.

* `Invocation.InShape` says this of a tree activation by activation, and
  `Invocation.integrity_iff` that it is what the check of a tree finds out;
* `Invocation.exists_openUpTo`: read along the paths, the open activations of trees in shape are an
  initial segment of the path along the last callees;
* `Invocation.Grown.after`: events keep a tree in shape, whatever rule each of them comes with;
* `Forest.inShape_of_events`: so every forest and every tree that events build is in shape.
-/

namespace CallForest

namespace Invocation

/-- Of several trees none but the last is open. -/
def OnlyLastOpen (ts : List Invocation) : Prop := ∀ t ∈ ts.dropLast, t.isOpen = false

/-- Of the callees of every activation none but the last is open, and not even that one if the
activation has returned. -/
inductive InShape : Invocation → Prop where
  | intro {t : Invocation} (last : OnlyLastOpen t.callees)
      (closed : t.isOpen = false → ∀ c ∈ t.callees, c.isOpen = false)
      (callees : ∀ c ∈ t.callees, c.InShape) : t.InShape

/-- A path of positions that leads from each activation to its last callee. -/
def FollowsLast : Invocation → List Nat → Prop
  | _, [] => True
  | t, i :: path =>
    i + 1 = t.callees.length ∧ ∃ c, t.callees[i]? = some c ∧ c.FollowsLast path

/-! ### The check -/

/-- Counting the open ones of several trees shows whether none but the last is. -/
theorem onlyLastOpen_iff (ts : List Invocation) :
    OnlyLastOpen ts ↔
      ts.countP isOpen = 0 ∨ ts.countP isOpen = 1 ∧ (ts.getLast?.filter isOpen).isSome = true := by
  rcases List.eq_nil_or_concat ts with rfl | ⟨us, t, rfl⟩
  · simp [OnlyLastOpen]
  · rw [List.concat_eq_append]
    have hus : OnlyLastOpen (us ++ [t]) ↔ us.countP isOpen = 0 := by
      rw [OnlyLastOpen, List.dropLast_concat, List.countP_eq_zero]
      exact forall₂_congr fun u _ => by rw [Bool.not_eq_true]
    rw [hus, List.countP_append, List.getLast?_concat, Option.filter_some]
    cases ht : t.isOpen with
    | false => simp [ht]
    | true => simp [ht]

theorem inOrder_iff (t : Invocation) :
    t.inOrder = true ↔
      OnlyLastOpen t.callees ∧ (t.isOpen = false → ∀ c ∈ t.callees, c.isOpen = false) := by
  have hnone : (∀ c ∈ t.callees, c.isOpen = false) ↔ t.callees.countP isOpen = 0 := by
    rw [List.countP_eq_zero]
    exact forall₂_congr fun c _ => by rw [Bool.not_eq_true]
  rw [onlyLastOpen_iff, hnone, inOrder, ← openCallee]
  simp only [Bool.or_eq_true, Bool.and_eq_true, beq_iff_eq]
  cases t.isOpen with
  | false => grind
  | true => simp

theorem foldl_inOrder (b : Bool) (ts : List Invocation) :
    ts.foldl (fun b t => b && t.inOrder) b = (b && ts.all inOrder) := by
  induction ts generalizing b with
  | nil => exact (Bool.and_true b).symm
  | cons t ts ih => rw [List.foldl_cons, ih, List.all_cons, Bool.and_assoc]

theorem inShape_iff {t : Invocation} :
    t.InShape ↔ t.inOrder = true ∧ ∀ c ∈ t.callees, c.InShape := by
  rw [inOrder_iff]
  exact ⟨fun ⟨last, closed, callees⟩ => ⟨⟨last, closed⟩, callees⟩,
    fun ⟨⟨last, closed⟩, callees⟩ => ⟨last, closed, callees⟩⟩

/-- Every activation of several trees is in order just if the trees are in shape. -/
theorem all_inOrder_iff (around ts : List Invocation) :
    ((spotsAll around ts).map Spot.node).all inOrder = true ↔ ∀ t ∈ ts, t.InShape := by
  induction ts using listInduction generalizing around with
  | nil => simp [spotsAll]
  | cons t ts callees ih =>
    rw [spotsAll, spots_eq, List.map_append, List.all_append, List.map_cons, List.all_cons,
      Bool.and_eq_true, Bool.and_eq_true, callees, ih, List.forall_mem_cons, inShape_iff]

/-- **The check of a tree finds out whether it is in shape.** -/
theorem integrity_iff (t : Invocation) : t.integrity = true ↔ t.InShape := by
  rw [integrity, foldNodes_eq_foldl _ _ [], foldl_inOrder, Bool.true_and, all_inOrder_iff]
  simp

end Invocation

/-- The check of a forest finds out whether its trees are in shape and at most the last is open. -/
theorem Forest.integrity_iff (f : Forest) :
    f.integrity = true ↔
      Invocation.OnlyLastOpen f.roots ∧ ∀ t ∈ f.roots, t.InShape := by
  rw [Invocation.onlyLastOpen_iff, integrity]
  simp only [Bool.or_eq_true, Bool.and_eq_true, beq_iff_eq, List.all_eq_true,
    Invocation.integrity_iff]
  rfl

namespace Invocation

/-! ### Paths -/

/-- A tree in shape whose root has returned has returned as a whole. -/
theorem InShape.settled {t : Invocation} (h : t.InShape) (hclosed : t.isOpen = false) :
    t.Settled := by
  induction h with
  | @intro t last closed callees ih =>
    refine .intro (Option.isNone_eq_false_iff.1 hclosed) fun c hc => ?_
    exact ih c hc (closed hclosed c hc)

theorem at?_cons_eq_some_iff {t u : Invocation} {i : Nat} {path : List Nat} :
    t.at? (i :: path) = some u ↔ ∃ c, t.callees[i]? = some c ∧ c.at? path = some u :=
  Option.bind_eq_some_iff

theorem InShape.of_at? {t u : Invocation} (h : t.InShape) {path : List Nat}
    (hu : t.at? path = some u) : u.InShape := by
  induction path generalizing t with
  | nil =>
    cases hu
    exact h
  | cons i path ih =>
    obtain ⟨c, hc, hu⟩ := at?_cons_eq_some_iff.1 hu
    cases h with
    | intro last closed callees => exact ih (callees c (List.mem_of_getElem? hc)) hu

theorem Settled.of_at? {t u : Invocation} (h : t.Settled) {path : List Nat}
    (hu : t.at? path = some u) : u.Settled := by
  induction path generalizing t with
  | nil =>
    cases hu
    exact h
  | cons i path ih =>
    obtain ⟨c, hc, hu⟩ := at?_cons_eq_some_iff.1 hu
    exact ih (h.callees c (List.mem_of_getElem? hc)) hu

/-- The open activations of a tree are the first `n` on the path along the last callees. -/
def OpenUpTo (t : Invocation) (n : Nat) : Prop :=
  ∀ path u, t.at? path = some u → (u.isOpen = true ↔ path.length < n ∧ t.FollowsLast path)

theorem openUpTo_zero {t : Invocation} (h : t.Settled) : t.OpenUpTo 0 := by
  intro path u hu
  have := (h.of_at? hu).isOpen_eq
  simp [this]

/-- The open activations of several trees, of which at most the last is open. -/
theorem exists_openUpTo_of_onlyLastOpen {ts : List Invocation} (last : OnlyLastOpen ts)
    (hshape : ∀ t ∈ ts, t.InShape) (hopen : ∀ t ∈ ts, ∃ n, t.OpenUpTo n) :
    ∃ n, ∀ i t path u, ts[i]? = some t → t.at? path = some u →
      (u.isOpen = true ↔ path.length < n ∧ i + 1 = ts.length ∧ t.FollowsLast path) := by
  rcases List.eq_nil_or_concat ts with rfl | ⟨us, d, rfl⟩
  · exact ⟨0, by simp⟩
  · rw [List.concat_eq_append] at *
    obtain ⟨n, hn⟩ := hopen d (by simp)
    refine ⟨n, fun i t path u ht hu => ?_⟩
    have hi : i < us.length + 1 := by simpa using (List.getElem?_eq_some_iff.1 ht).1
    rw [List.length_append, List.length_singleton]
    obtain hi | rfl := Nat.lt_succ_iff_lt_or_eq.1 hi
    -- A tree before the last one has returned, and so has all below it.
    · rw [List.getElem?_append_left hi] at ht
      have hmem : t ∈ us := List.mem_of_getElem? ht
      have hclosed : t.isOpen = false := last t (by rwa [List.dropLast_concat])
      have hsettled := (hshape t (List.mem_append_left _ hmem)).settled hclosed
      have hu := (hsettled.of_at? hu).isOpen_eq
      simp only [hu, Bool.false_eq_true, false_iff]
      omega
    · rw [List.getElem?_concat_length, Option.some.injEq] at ht
      subst ht
      simp [hn path u hu]

theorem openUpTo_succ {t : Invocation} (hopen : t.isOpen = true) {n : Nat}
    (hn : ∀ i c path u, t.callees[i]? = some c → c.at? path = some u →
      (u.isOpen = true ↔ path.length < n ∧ i + 1 = t.callees.length ∧ c.FollowsLast path)) :
    t.OpenUpTo (n + 1) := by
  intro path u hu
  cases path with
  | nil =>
    cases hu
    simp [hopen, FollowsLast]
  | cons i path =>
    obtain ⟨c, hc, hu⟩ := at?_cons_eq_some_iff.1 hu
    have hfollows : t.FollowsLast (i :: path) ↔
        i + 1 = t.callees.length ∧ c.FollowsLast path := by
      simp [FollowsLast, hc]
    rw [hn i c path u hc hu, hfollows, List.length_cons, Nat.add_lt_add_iff_right]

/-- **The open activations of a tree in shape are an initial segment** of the path along the last
callees. -/
theorem InShape.exists_openUpTo {t : Invocation} (h : t.InShape) : ∃ n, t.OpenUpTo n := by
  induction h with
  | @intro t last closed callees ih =>
    cases hopen : t.isOpen with
    | false => exact ⟨0, openUpTo_zero (InShape.settled ⟨last, closed, callees⟩ hopen)⟩
    | true =>
      obtain ⟨n, hn⟩ := exists_openUpTo_of_onlyLastOpen last callees ih
      exact ⟨n + 1, openUpTo_succ hopen hn⟩

/-! ### Trees that events build -/

theorem OnlyLastOpen.of_forall {ts : List Invocation} (h : ∀ t ∈ ts, t.isOpen = false) :
    OnlyLastOpen ts :=
  fun t ht => h t (List.dropLast_subset ts ht)

theorem Settled.inShape {t : Invocation} (h : t.Settled) : t.InShape := by
  induction h with
  | @intro t left callees ih =>
    have hclosed : ∀ c ∈ t.callees, c.isOpen = false := fun c hc => (callees c hc).isOpen_eq
    exact .intro (.of_forall hclosed) (fun _ => hclosed) ih

/-- An activation that waits for a tree in shape is in shape. -/
theorem inShape_push {t : Invocation} (h : t.InShape) (p : Pending) : (p.node.push t).InShape := by
  have hcallees : (p.node.push t).callees = p.node.callees ++ [t] := rfl
  have hopen : (p.node.push t).isOpen = true := p.isOpen
  refine .intro ?_ ?_ ?_
  · rw [hcallees, OnlyLastOpen, List.dropLast_concat]
    exact fun c hc => (p.settled c hc).isOpen_eq
  · rw [hopen]
    exact fun hclosed => nomatch hclosed
  · rw [hcallees]
    exact List.forall_mem_append.2 ⟨fun c hc => (p.settled c hc).inShape, by simpa using h⟩

theorem inShape_rebuild {t : Invocation} (h : t.InShape) (outer : List Pending) :
    (Cursor.rebuild t (outer.map Pending.node)).InShape := by
  induction outer generalizing t with
  | nil => exact h
  | cons p outer ih => exact ih (inShape_push h p)

theorem inShape_node (p : Pending) : p.node.InShape := by
  have hclosed : ∀ c ∈ p.node.callees, c.isOpen = false := fun c hc => (p.settled c hc).isOpen_eq
  exact .intro (.of_forall hclosed) (fun _ => hclosed) fun c hc => (p.settled c hc).inShape

/-- A tree that has returned, or the one that execution is in. -/
inductive Grown : Invocation → Prop where
  | settled {t : Invocation} (h : t.Settled) : t.Grown
  | running (p : Pending) (outer : List Pending) :
      (Cursor.rebuild p.node (outer.map Pending.node)).Grown

theorem Grown.inShape {t : Invocation} (h : t.Grown) : t.InShape := by
  cases h with
  | settled h => exact h.inShape
  | running p outer => exact inShape_rebuild (inShape_node p) outer

/-- The tree once its running activation has returned and stays. -/
theorem grown_leave (p : Pending) (outer : List Pending) (sample : Sample) :
    (Cursor.rebuild (p.leave sample) (outer.map Pending.node)).Grown := by
  cases outer with
  | nil => exact .settled (p.settled_leave sample)
  | cons q outer =>
    exact .running (q.add [p.leave sample] (by simpa using p.settled_leave sample)) outer

/-- A tree after an event under a rule, whatever becomes of the event.  A tree that is dropped stays
as it is when it has returned. -/
def after (rule : Option Retention) (t : Invocation) (e : Crossing) : Invocation :=
  match e.boundary with
  | .enter =>
    match t.takeCall e.function e.sample with
    | .ok _ u | .error _ u => u
  | .leave =>
    match t.takeRet e.function e.sample rule with
    | .ok _ u | .error _ u => u

/-- A tree after events that each come with a rule of their own. -/
def run (t : Invocation) (es : List (Crossing × Option Retention)) : Invocation :=
  es.foldl (fun t (e, rule) => t.after rule e) t

/-- **Events keep a tree in shape**, also one that is refused or that the rule has no answer to. -/
theorem Grown.after {t : Invocation} (h : t.Grown) (rule : Option Retention) (e : Crossing) :
    (t.after rule e).Grown := by
  obtain ⟨boundary, function, sample⟩ := e
  cases h with
  | settled h =>
    -- A tree that has returned refuses every event.
    have hclosed := h.isOpen_eq
    cases boundary with
    | enter =>
      simp only [Invocation.after, takeCall_of_closed hclosed]
      exact .settled h
    | leave =>
      simp only [Invocation.after, takeRet_of_closed hclosed]
      exact .settled h
  | running p outer =>
    have hopen := Cursor.isOpen_rebuild p.isOpen outer
    cases boundary with
    | enter =>
      simp only [Invocation.after, takeCall_eq hopen, Cursor.cursor_rebuild]
      exact .running (.enter function sample) (p :: outer)
    | leave =>
      simp only [Invocation.after, takeRet_eq hopen, Cursor.cursor_rebuild, close]
      by_cases hf : p.node.function = function
      · rw [if_pos hf]
        rcases judge rule p.node.entered sample with fault | _ | _
        -- Without an answer of the rule the activation has returned all the same.
        · exact grown_leave p outer sample
        · exact grown_leave p outer sample
        -- What is dropped is the tree itself, or leaves the activation that waits for it.
        · cases outer with
          | nil => exact .settled (p.settled_leave sample)
          | cons q outer => exact .running q outer
      · rw [if_neg hf]
        exact .running p outer

theorem Grown.run {t : Invocation} (h : t.Grown) (es : List (Crossing × Option Retention)) :
    (t.run es).Grown := by
  induction es generalizing t with
  | nil => exact h
  | cons e es ih => exact ih (h.after e.2 e.1)

theorem grown_enter (function : Nat) (sample : Sample) : (enter function sample).Grown :=
  .running (.enter function sample) []

end Invocation

/-! ### Forests that events build -/

namespace Spine

variable (S : Spine)

theorem inShape_roots : ∀ t ∈ S.roots, t.InShape := by
  have htrees : ∀ t ∈ S.trees, t.InShape := fun t ht => (S.settled t ht).inShape
  cases h : S.pending with
  | nil => rwa [roots_of_nil h]
  | cons p outer =>
    rw [roots_of_cons h]
    refine List.forall_mem_append.2 ⟨htrees, ?_⟩
    simpa using Invocation.inShape_rebuild (Invocation.inShape_node p) outer

theorem onlyLastOpen_roots : Invocation.OnlyLastOpen S.roots := by
  have htrees : ∀ t ∈ S.trees, t.isOpen = false := fun t ht => (S.settled t ht).isOpen_eq
  cases h : S.pending with
  | nil =>
    rw [roots_of_nil h]
    exact .of_forall htrees
  | cons p outer =>
    rwa [roots_of_cons h, Invocation.OnlyLastOpen, List.dropLast_concat]

end Spine

namespace Forest

/-- The open activations of a forest are the first `n` on the path from its last tree along the last
callees. -/
def OpenUpTo (f : Forest) (n : Nat) : Prop :=
  ∀ i (t : Invocation) path u, f.roots[i]? = some t → t.at? path = some u →
    (u.isOpen = true ↔ path.length < n ∧ i + 1 = f.roots.length ∧ t.FollowsLast path)

/-- **Whatever the events, the shape stays.**  After any history, and under any rule, the check of a
forest succeeds, its open activations are an initial segment of the path from its last tree along
the last callees, and all others have returned with everything below them.  The same holds of one
tree that starts as a single activation, even if every event comes with a rule of its own and some of
these rules have no answer. -/
theorem inShape_of_events :
    (∀ (rule : Option Retention) (es : List Crossing),
      let f := (empty rule).run es
      f.integrity = true ∧
      (∃ n, f.OpenUpTo n) ∧
      ∀ t ∈ f.roots, ∀ path u, t.at? path = some u → u.isOpen = false → u.Settled) ∧
    ∀ (function : Nat) (sample : Sample) (es : List (Crossing × Option Retention)),
      let t := (Invocation.enter function sample).run es
      t.integrity = true ∧
      (∃ n, t.OpenUpTo n) ∧
      ∀ path u, t.at? path = some u → u.isOpen = false → u.Settled := by
  refine ⟨fun rule es => ?_, fun function sample es => ?_⟩
  · intro f
    have hf : f = (Spine.ofHistory rule es).forest rule := run_empty rule es
    have hshape : ∀ t ∈ f.roots, t.InShape := by
      rw [hf]
      exact Spine.inShape_roots _
    have hlast : Invocation.OnlyLastOpen f.roots := by
      rw [hf]
      exact Spine.onlyLastOpen_roots _
    refine ⟨f.integrity_iff.2 ⟨hlast, hshape⟩, ?_, fun t ht path u hu hclosed => ?_⟩
    · exact Invocation.exists_openUpTo_of_onlyLastOpen hlast hshape
        fun t ht => (hshape t ht).exists_openUpTo
    · exact ((hshape t ht).of_at? hu).settled hclosed
  · intro t
    have hshape : t.InShape := ((Invocation.grown_enter function sample).run es).inShape
    exact ⟨t.integrity_iff.2 hshape, hshape.exists_openUpTo,
      fun path u hu hclosed => (hshape.of_at? hu).settled hclosed⟩

/-- A forest whose second tree is open: its rule drops what takes no memory, as the callee of that
tree did before the one that is running was called. -/
theorem inShape_nested :
    let rule : Retention := .ofTest "memory" fun a b => decide (a.memory < b.memory)
    let f := (empty (some rule)).run
      [⟨.enter, 0, ⟨.zero, 1⟩⟩, ⟨.leave, 0, ⟨.zero, 2⟩⟩, ⟨.enter, 1, ⟨.zero, 2⟩⟩,
        ⟨.enter, 2, ⟨.zero, 3⟩⟩, ⟨.leave, 2, ⟨.zero, 3⟩⟩, ⟨.enter, 3, ⟨.zero, 4⟩⟩]
    ∃ t u, f.roots[1]? = some t ∧ t.at? [0] = some u ∧ u.isOpen = true ∧ u.function = 3 ∧
      t.FollowsLast [0] := by
  intro rule f
  obtain ⟨-, ⟨n, hn⟩, -⟩ := inShape_of_events.1 (some rule)
    [⟨.enter, 0, ⟨.zero, 1⟩⟩, ⟨.leave, 0, ⟨.zero, 2⟩⟩, ⟨.enter, 1, ⟨.zero, 2⟩⟩,
      ⟨.enter, 2, ⟨.zero, 3⟩⟩, ⟨.leave, 2, ⟨.zero, 3⟩⟩, ⟨.enter, 3, ⟨.zero, 4⟩⟩]
  have hroots : f.roots =
      [⟨0, ⟨.zero, 1⟩, some ⟨.zero, 2⟩, []⟩,
        ⟨1, ⟨.zero, 2⟩, none, [⟨3, ⟨.zero, 4⟩, none, []⟩]⟩] := by
    change ((empty (some rule)).run _).roots = _
    rw [run_empty]
    rfl
  refine ⟨_, _, by rw [hroots]; rfl, rfl, rfl, rfl, ?_⟩
  exact ((hn 1 _ [0] _ (by rw [hroots]; rfl) rfl).1 rfl).2.2

end Forest

end CallForest
