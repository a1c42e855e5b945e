import CallForest.Forest

/-!
# The way down

An event goes to the running activation, at the end of the open last callees.  Here that way is
taken one activation at a time, in trees of any shape, reachable or not.

* `Invocation.tree_cursor`: the way down and up again changes nothing;
* `Invocation.descend_seekCaller`: the loop that looks ahead comes to the caller of the activation
  that the cursor comes to, so that `Invocation.takeRet_eq`: a return closes what is at the cursor;
* `Invocation.eq_of_takeRet_error` and `Forest.eq_of_take_error`: an event refused leaves the tree
  and the forest as they were;
* `Invocation.takeRet_none_of_overflow` and `Forest.take_none_of_overflow`: a rule without an answer
  leaves them as no rule would.
-/

namespace CallForest

namespace Invocation

/-- Induction along the open last callees. -/
@[elab_as_elim]
theorem openInduction {motive : Invocation → Prop}
    (none : ∀ t, t.openCallee = none → motive t)
    (some : ∀ t c, t.openCallee = some c → motive c → motive t) (t : Invocation) : motive t :=
  match h : t.openCallee with
  | .none => none t h
  | .some c => some t c h (openInduction none some c)
termination_by t.size
decreasing_by exact size_lt_of_mem (mem_of_openCallee h)

variable {t c : Invocation}

/-- A case distinction on the open last callee goes the way that one has. -/
theorem match_of_none {α : Type} (h : t.openCallee = none) (a : α)
    (f : ∀ c, t.openCallee = some c → α) :
    (match hc : t.openCallee with
      | none => a
      | some c => f c hc) = a := by
  split
  · rfl
  · rename_i c hc
    rw [h] at hc
    cases hc

theorem match_of_some {α : Type} (h : t.openCallee = some c) (a : α)
    (f : ∀ c, t.openCallee = some c → α) :
    (match hc : t.openCallee with
      | none => a
      | some c => f c hc) = f c h := by
  split
  · rename_i hn
    rw [h] at hn
    cases hn
  · rename_i d hd
    rw [h] at hd
    cases hd
    rfl

theorem isOpen_of_openCallee (h : t.openCallee = some c) : c.isOpen = true :=
  (Option.filter_eq_some_iff.1 h).2

/-- An activation with the last callee that it has. -/
theorem setLast_of_openCallee (h : t.openCallee = some c) : t.setLast c = t := by
  obtain ⟨others, hcallees⟩ := List.getLast?_eq_some_iff.1 (Option.filter_eq_some_iff.1 h).1
  ext1
  · rfl
  · rfl
  · rfl
  · rw [setLast, dropLast, push, hcallees, List.dropLast_concat]

end Invocation

/-! ### The cursor -/

namespace Cursor

theorem rebuild_append (t : Invocation) (inner outer : List Invocation) :
    rebuild t (inner ++ outer) = rebuild (rebuild t inner) outer := by
  induction inner generalizing t with
  | nil => rfl
  | cons p inner ih => exact ih (p.push t)

theorem rebuild_concat (t p : Invocation) (inner : List Invocation) :
    rebuild t (inner ++ [p]) = p.push (rebuild t inner) :=
  rebuild_append t inner [p]

/-- The tree when the running activation has become `t` by its return.  Dropped, it leaves those
that wait for it, or stays alone if none does. -/
def resume (t : Invocation) (waiting : List Invocation) : Verdict → Invocation
  | .kept => rebuild t waiting
  | .dropped =>
    match waiting with
    | [] => t
    | p :: outer => rebuild p outer

end Cursor

namespace Invocation

open Cursor (rebuild rebuild_concat resume)

variable {t c : Invocation}

theorem descend_of_none (h : t.openCallee = none) (waiting : List Invocation) :
    t.descend waiting = ⟨t, waiting⟩ := by
  rw [descend]
  exact match_of_none h _ _

theorem descend_of_some (h : t.openCallee = some c) (waiting : List Invocation) :
    t.descend waiting = c.descend (t.dropLast :: waiting) := by
  rw [descend]
  exact match_of_some h _ _

/-- What waits already waits outside of what comes to wait on the way. -/
theorem descend_eq (t : Invocation) (waiting : List Invocation) :
    t.descend waiting = ⟨t.cursor.running, t.cursor.waiting ++ waiting⟩ := by
  induction t using openInduction generalizing waiting with
  | none t h => rw [cursor, descend_of_none h, descend_of_none h, List.nil_append]
  | some t c h ih =>
    rw [cursor, descend_of_some h, descend_of_some h, ih, ih [t.dropLast], List.append_assoc]
    rfl

theorem cursor_of_none (h : t.openCallee = none) : t.cursor = ⟨t, []⟩ := descend_of_none h []

theorem cursor_of_some (h : t.openCallee = some c) :
    t.cursor = ⟨c.cursor.running, c.cursor.waiting ++ [t.dropLast]⟩ := by
  rw [cursor, descend_of_some h, descend_eq]

/-- **The way down and up again changes nothing.** -/
theorem tree_cursor (t : Invocation) : t.cursor.tree = t := by
  induction t using openInduction with
  | none t h =>
    rw [cursor_of_none h]
    rfl
  | some t c h ih =>
    rw [cursor_of_some h, Cursor.tree, rebuild_concat]
    exact (congrArg t.setLast ih).trans (setLast_of_openCallee h)

/-- Those that wait are open, the root of the tree among them. -/
theorem isOpen_rebuild_waiting (hopen : t.isOpen = true) {p : Invocation} {outer : List Invocation}
    (h : t.cursor.waiting = p :: outer) : (rebuild p outer).isOpen = true := by
  cases hcallee : t.openCallee with
  | none =>
    rw [cursor_of_none hcallee] at h
    cases h
  | some c =>
    rw [cursor_of_some hcallee] at h
    rcases hwaiting : c.cursor.waiting with _ | ⟨q, inner⟩
    · rw [hwaiting] at h
      cases h
      exact hopen
    · rw [hwaiting, List.cons_append, List.cons.injEq] at h
      obtain ⟨rfl, rfl⟩ := h
      rw [rebuild_concat]
      exact hopen

/-! ### Looking ahead -/

theorem seekCaller_of_none (h : t.openCallee = some c) (hc : c.openCallee = none)
    (waiting : List Invocation) : t.seekCaller c h waiting = ⟨t, c, waiting, h⟩ := by
  rw [seekCaller]
  exact match_of_none hc _ _

theorem seekCaller_of_some (h : t.openCallee = some c) {d : Invocation}
    (hd : c.openCallee = some d) (waiting : List Invocation) :
    t.seekCaller c h waiting = c.seekCaller d hd (t.dropLast :: waiting) := by
  rw [seekCaller]
  exact match_of_some hd _ _

/-- **Looking ahead stops one activation short of the cursor.**  At every step the activation ahead
is the open last callee, so that the way leads through the same activations, and what it ends at is
the caller of the one that the cursor is at. -/
theorem descend_seekCaller (h : t.openCallee = some c) (waiting : List Invocation) :
    let k := t.seekCaller c h waiting
    t.descend waiting = ⟨k.running, k.caller.dropLast :: k.waiting⟩ := by
  induction c using openInduction generalizing t waiting with
  | none c hc => rw [seekCaller_of_none h hc, descend_of_some h, descend_of_none hc]
  | some c d hc ih => rw [seekCaller_of_some h hc, descend_of_some h, ih hc]

/-! ### Verdicts -/

variable {function : Nat} {sample entered left : Sample} {rule : Option Retention} {fault : Fault}

/-- The only fault of a rule is that it has no answer. -/
theorem isOverflow_of_judge (h : judge rule entered left = .error fault) :
    fault.isOverflow = true := by
  cases rule with
  | none => cases h
  | some r =>
    simp only [judge] at h
    split at h <;> cases h
    rfl

/-- What a return ends has the return from then on, and is the same otherwise. -/
theorem eq_of_close {v : Verdict} (h : t.close function sample rule = .ok v c) :
    c = { t with left := some sample } := by
  rw [close] at h
  split at h
  · split at h <;> cases h
    rfl
  · cases h

theorem eq_of_close_error (h : t.close function sample rule = .error fault c)
    (hfault : fault.isOverflow = false) : c = t := by
  rw [close] at h
  split at h
  · split at h <;> cases h
    rename_i hjudge
    rw [isOverflow_of_judge hjudge] at hfault
    cases hfault
  · cases h
    rfl

/-- A rule without an answer is asked too late to keep the activation open. -/
theorem close_none_of_overflow {cause : Overflow}
    (h : t.close function sample rule = .error (.overflow cause) c) :
    t.close function sample none = .ok .kept c := by
  rw [close] at h
  split at h
  · rename_i hf
    split at h <;> cases h
    rw [close, if_pos hf]
    rfl
  · cases h

/-! ### Events in a tree -/

theorem takeCall_of_closed (h : t.isOpen = false) :
    t.takeCall function sample = .error .enterClosed t := by
  rw [takeCall, h, if_neg Bool.false_ne_true]

theorem takeRet_of_closed (h : t.isOpen = false) :
    t.takeRet function sample rule = .error .leaveClosed t := by
  rw [takeRet, h, if_neg Bool.false_ne_true]

theorem takeCall_eq (hopen : t.isOpen = true) :
    t.takeCall function sample =
      .ok () (rebuild (t.cursor.running.push (enter function sample)) t.cursor.waiting) := by
  rw [takeCall, if_pos hopen]

/-- **A return closes what is at the cursor**, and takes it out if it is dropped. -/
theorem takeRet_eq (hopen : t.isOpen = true) :
    t.takeRet function sample rule =
      match t.cursor.running.close function sample rule with
      | .ok v u => .ok v (resume u t.cursor.waiting v)
      | .error fault u => .error fault (rebuild u t.cursor.waiting) := by
  rw [takeRet, if_pos hopen]
  rcases Option.eq_none_or_eq_some t.openCallee with h | ⟨c, h⟩
  · rw [cursor_of_none h]
    refine (match_of_none h _ _).trans ?_
    rcases t.close function sample rule with ⟨_ | _, u⟩ | ⟨fault, u⟩ <;> rfl
  · rw [cursor, descend_seekCaller h]
    refine (match_of_some h _ _).trans ?_
    dsimp only
    rcases (t.seekCaller c h []).running.close function sample rule with
      ⟨_ | _, u⟩ | ⟨fault, u⟩ <;> rfl

variable {u : Invocation}

theorem eq_of_takeCall_error (h : t.takeCall function sample = .error fault u) : u = t := by
  cases hopen : t.isOpen with
  | true =>
    rw [takeCall_eq hopen] at h
    cases h
  | false =>
    rw [takeCall_of_closed hopen] at h
    cases h
    rfl

/-- No rule is asked about a call. -/
theorem takeCall_ne_overflow {cause : Overflow} :
    t.takeCall function sample ≠ .error (.overflow cause) u := by
  intro h
  cases hopen : t.isOpen with
  | true =>
    rw [takeCall_eq hopen] at h
    cases h
  | false =>
    rw [takeCall_of_closed hopen] at h
    cases h

/-- **A refused return leaves the tree as it was.** -/
theorem eq_of_takeRet_error (h : t.takeRet function sample rule = .error fault u)
    (hfault : fault.isOverflow = false) : u = t := by
  cases hopen : t.isOpen with
  | true =>
    rw [takeRet_eq hopen] at h
    cases hclose : t.cursor.running.close function sample rule with
    | ok v c =>
      rw [hclose] at h
      cases h
    | error fault' c =>
      rw [hclose] at h
      cases h
      rw [eq_of_close_error hclose hfault]
      exact t.tree_cursor
  | false =>
    rw [takeRet_of_closed hopen] at h
    cases h
    rfl

/-- **A rule without an answer leaves the tree as no rule would**: the running activation is closed
and stays. -/
theorem takeRet_none_of_overflow {cause : Overflow}
    (h : t.takeRet function sample rule = .error (.overflow cause) u) :
    t.takeRet function sample none = .ok .kept u := by
  cases hopen : t.isOpen with
  | true =>
    rw [takeRet_eq hopen] at h ⊢
    cases hclose : t.cursor.running.close function sample rule with
    | ok v c =>
      rw [hclose] at h
      cases h
    | error fault c =>
      rw [hclose] at h
      cases h
      rw [close_none_of_overflow hclose]
      rfl
  | false =>
    rw [takeRet_of_closed hopen] at h
    cases h

end Invocation

/-! ### Events in a forest -/

namespace Forest

variable {f f' : Forest} {t : Invocation} {boundary : Boundary} {function : Nat} {sample : Sample}
  {fault : Fault}

theorem setLast_of_openRoot (h : f.openRoot = some t) : f.setLast t = f := by
  obtain ⟨others, hroots⟩ := List.getLast?_eq_some_iff.1 (Option.filter_eq_some_iff.1 h).1
  rw [setLast, hroots, List.dropLast_concat, ← hroots]

/-- **A refused event leaves the forest as it was.** -/
theorem eq_of_take_error (h : f.take boundary function sample = .error fault f')
    (hfault : fault.isOverflow = false) : f' = f := by
  cases boundary with
  | enter =>
    rw [take, takeCall] at h
    split at h
    · cases h
    · rename_i t ht
      split at h <;> cases h
      rename_i u hu
      rw [Invocation.eq_of_takeCall_error hu]
      exact setLast_of_openRoot ht
  | leave =>
    rw [take, takeRet] at h
    split at h
    · cases h
      rfl
    · rename_i t ht
      split at h <;> cases h
      rename_i u hu
      rw [Invocation.eq_of_takeRet_error hu hfault]
      exact setLast_of_openRoot ht

/-- **A rule without an answer leaves the forest as no rule would.** -/
theorem take_none_of_overflow {cause : Overflow}
    (h : f.take boundary function sample = .error (.overflow cause) f') :
    ({ f with rule := none } : Forest).take boundary function sample =
      .ok () { f' with rule := none } := by
  cases boundary with
  | enter =>
    rw [take, takeCall] at h
    split at h
    · cases h
    · split at h <;> cases h
      rename_i hu
      exact absurd hu Invocation.takeCall_ne_overflow
  | leave =>
    rw [take, takeRet] at h
    split at h
    · cases h
    · rename_i t ht
      split at h <;> cases h
      rename_i u hu
      have ht' : ({ f with rule := none } : Forest).openRoot = some t := ht
      rw [take, takeRet, ht']
      simp only [Invocation.takeRet_none_of_overflow hu]
      rfl

end Forest

end CallForest
