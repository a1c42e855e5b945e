import CallForest.Proofs.Shape

/-!
# Delegation

An event goes to the running activation, which a loop finds and which those waiting for it are put
around again.  Said of one activation at a time: it takes the event itself unless its last callee is
open, and hands it to that callee otherwise.  Here the loops and the recursion are compared on trees
of any shape, reachable or not.

* `Invocation.delegateCall` and `Invocation.delegateRet` are the recursion, with the tree as it is
  afterwards;
* `Invocation.takeCall_of_some` and `Invocation.takeRet_of_some`: what the loop does to a tree is
  what it does to the open last callee, put back;
* `Invocation.SameBut`: two trees that differ at one path only;
* `Invocation.delegate_eq`: the loops and the recursion agree, a refused event changes nothing, and
  what an event taken in changes is at the running activation.
-/

namespace CallForest

namespace Invocation

open Cursor (rebuild rebuild_concat resume)

/-- The activation once its last callee took in a return.  The callee leaves if it is the one that
returned and is dropped. -/
def takeBack (t c : Invocation) : Verdict → Invocation
  | .kept => t.setLast c
  | .dropped => if c.isOpen then t.setLast c else t.dropLast

/-- A call by delegation. -/
def delegateCall (function : Nat) (sample : Sample) (t : Invocation) :
    EStateM.Result Fault Invocation Unit :=
  if t.isOpen then
    match _h : t.openCallee with
    | none => .ok () (t.push (enter function sample))
    | some c =>
      match c.delegateCall function sample with
      | .ok _ c' => .ok () (t.setLast c')
      | .error fault c' => .error fault (t.setLast c')
  else .error .enterClosed t
termination_by t.size
decreasing_by exact size_lt_of_mem (mem_of_openCallee _h)

/-- A return by delegation.  The activation that it ends is kept if there is no rule or the rule
says so; the rule is asked when it has returned. -/
def delegateRet (function : Nat) (sample : Sample) (rule : Option Retention) (t : Invocation) :
    EStateM.Result Fault Invocation Verdict :=
  if t.isOpen then
    match _h : t.openCallee with
    | none =>
      if t.function = function then
        let ended := { t with left := some sample }
        match rule with
        | none => .ok .kept ended
        | some r =>
          match r.keeps t.entered sample with
          | .ok keep => .ok (if keep then .kept else .dropped) ended
          | .error cause => .error (.overflow cause) ended
      else .error (.mismatch t.function function) t
    | some c =>
      match c.delegateRet function sample rule with
      | .ok v c' => .ok v (t.takeBack c' v)
      | .error fault c' => .error fault (t.setLast c')
  else .error .leaveClosed t
termination_by t.size
decreasing_by exact size_lt_of_mem (mem_of_openCallee _h)

variable {t c : Invocation} {function : Nat} {sample : Sample} {rule : Option Retention}

/-! ### Events, one activation at a time -/

theorem call_eq_ok_iff {u : Invocation} :
    t.call function sample = .ok u ↔ t.takeCall function sample = .ok () u := by
  rw [call]
  cases t.takeCall function sample <;> simp

theorem ret_eq_ok_iff {u : Invocation} {v : Verdict} :
    t.ret function sample rule = .ok (u, v) ↔ t.takeRet function sample rule = .ok v u := by
  rw [ret]
  cases t.takeRet function sample rule with
  | ok w x => simp [and_comm]
  | error fault x => simp

theorem isOpen_of_takeCall {u : Invocation} (h : t.takeCall function sample = .ok () u) :
    t.isOpen = true := by
  cases hopen : t.isOpen with
  | true => rfl
  | false =>
    rw [takeCall_of_closed hopen] at h
    cases h

theorem isOpen_of_takeRet {u : Invocation} {v : Verdict}
    (h : t.takeRet function sample rule = .ok v u) : t.isOpen = true := by
  cases hopen : t.isOpen with
  | true => rfl
  | false =>
    rw [takeRet_of_closed hopen] at h
    cases h

section

variable (hopen : t.isOpen = true)
include hopen

theorem takeCall_of_none (h : t.openCallee = none) :
    t.takeCall function sample = .ok () (t.push (enter function sample)) := by
  rw [takeCall_eq hopen, cursor_of_none h]
  rfl

/-- A call in a tree is one in its open last callee. -/
theorem takeCall_of_some (h : t.openCallee = some c) :
    t.takeCall function sample =
      match c.takeCall function sample with
      | .ok _ c' => .ok () (t.setLast c')
      | .error fault c' => .error fault (t.setLast c') := by
  rw [takeCall_eq hopen, takeCall_eq (isOpen_of_openCallee h), cursor_of_some h]
  exact congrArg (EStateM.Result.ok ()) (rebuild_concat _ _ _)

theorem takeRet_of_none (h : t.openCallee = none) :
    t.takeRet function sample rule = t.close function sample rule := by
  rw [takeRet_eq hopen, cursor_of_none h]
  dsimp only
  rcases t.close function sample rule with ⟨_ | _, u⟩ | ⟨fault, u⟩ <;> rfl

/-- A return in a tree is one in its open last callee, which is then taken back. -/
theorem takeRet_of_some (h : t.openCallee = some c) :
    t.takeRet function sample rule =
      match c.takeRet function sample rule with
      | .ok v c' => .ok v (t.takeBack c' v)
      | .error fault c' => .error fault (t.setLast c') := by
  have hc : c.isOpen = true := isOpen_of_openCallee h
  rw [takeRet_eq hopen, takeRet_eq hc, cursor_of_some h]
  cases hclose : c.cursor.running.close function sample rule with
  | error fault u => simp only [rebuild_concat, setLast]
  | ok v u =>
    cases v with
    | kept => simp only [resume, takeBack, rebuild_concat, setLast]
    | dropped =>
      rcases hwaiting : c.cursor.waiting with _ | ⟨p, outer⟩
      -- Nothing below `t` waits, so what is dropped is its last callee.
      · have hended : u.isOpen = false := by
          rw [eq_of_close hclose]
          rfl
        simp [resume, takeBack, hended, rebuild]
      · have hp : (rebuild p outer).isOpen = true := isOpen_rebuild_waiting hc hwaiting
        simp [resume, takeBack, hp, rebuild_concat, setLast]

end

/-! ### The recursion -/

theorem delegateCall_of_closed (h : t.isOpen = false) :
    delegateCall function sample t = .error .enterClosed t := by
  rw [delegateCall, h, if_neg Bool.false_ne_true]

theorem delegateRet_of_closed (h : t.isOpen = false) :
    delegateRet function sample rule t = .error .leaveClosed t := by
  rw [delegateRet, h, if_neg Bool.false_ne_true]

section

variable (hopen : t.isOpen = true)
include hopen

theorem delegateCall_of_none (h : t.openCallee = none) :
    delegateCall function sample t = .ok () (t.push (enter function sample)) := by
  rw [delegateCall, if_pos hopen]
  exact match_of_none h _ _

theorem delegateCall_of_some (h : t.openCallee = some c) :
    delegateCall function sample t =
      match delegateCall function sample c with
      | .ok _ c' => .ok () (t.setLast c')
      | .error fault c' => .error fault (t.setLast c') := by
  rw [delegateCall, if_pos hopen]
  exact match_of_some h _ _

/-- Where the recursion ends, the verdict is that of the rule. -/
theorem delegateRet_of_none (h : t.openCallee = none) :
    delegateRet function sample rule t = t.close function sample rule := by
  rw [delegateRet, if_pos hopen]
  refine (match_of_none h _ _).trans ?_
  rw [close]
  by_cases hf : t.function = function
  · rw [if_pos hf, if_pos hf]
    cases rule with
    | none => rfl
    | some r =>
      dsimp only [judge]
      rcases r.keeps t.entered sample with cause | _ | _ <;> rfl
  · rw [if_neg hf, if_neg hf]

theorem delegateRet_of_some (h : t.openCallee = some c) :
    delegateRet function sample rule t =
      match delegateRet function sample rule c with
      | .ok v c' => .ok v (t.takeBack c' v)
      | .error fault c' => .error fault (t.setLast c') := by
  rw [delegateRet, if_pos hopen]
  exact match_of_some h _ _

end

/-- **A call by delegation is the call.** -/
theorem delegateCall_eq (function : Nat) (sample : Sample) (t : Invocation) :
    delegateCall function sample t = t.takeCall function sample := by
  induction t using openInduction with
  | none t h =>
    by_cases hopen : t.isOpen = true
    · rw [delegateCall_of_none hopen h, takeCall_of_none hopen h]
    · rw [Bool.not_eq_true] at hopen
      rw [delegateCall_of_closed hopen, takeCall_of_closed hopen]
  | some t c h ih =>
    by_cases hopen : t.isOpen = true
    · rw [delegateCall_of_some hopen h, takeCall_of_some hopen h, ih]
    · rw [Bool.not_eq_true] at hopen
      rw [delegateCall_of_closed hopen, takeCall_of_closed hopen]

/-- **A return by delegation is the return.** -/
theorem delegateRet_eq (function : Nat) (sample : Sample) (rule : Option Retention)
    (t : Invocation) :
    delegateRet function sample rule t = t.takeRet function sample rule := by
  induction t using openInduction with
  | none t h =>
    by_cases hopen : t.isOpen = true
    · rw [delegateRet_of_none hopen h, takeRet_of_none hopen h]
    · rw [Bool.not_eq_true] at hopen
      rw [delegateRet_of_closed hopen, takeRet_of_closed hopen]
  | some t c h ih =>
    by_cases hopen : t.isOpen = true
    · rw [delegateRet_of_some hopen h, takeRet_of_some hopen h, ih]
    · rw [Bool.not_eq_true] at hopen
      rw [delegateRet_of_closed hopen, takeRet_of_closed hopen]

/-! ### Where a tree changes -/

/-- The positions that lead along the open last callees to the running activation. -/
def openPath (t : Invocation) : List Nat :=
  match _h : t.openCallee with
  | none => []
  | some c => (t.callees.length - 1) :: c.openPath
termination_by t.size
decreasing_by exact size_lt_of_mem (mem_of_openCallee _h)

theorem openPath_of_none (h : t.openCallee = none) : t.openPath = [] := by
  rw [openPath]
  exact match_of_none h _ _

theorem openPath_of_some (h : t.openCallee = some c) :
    t.openPath = (t.callees.length - 1) :: c.openPath := by
  rw [openPath]
  exact match_of_some h _ _

/-- The activation itself is the same, whatever it called. -/
structure SameSelf (t u : Invocation) : Prop where
  function : u.function = t.function
  entered : u.entered = t.entered
  left : u.left = t.left

/-- Two trees differ at `path` and below it only: what is aside of the path is the same, and what
is above its end is the same itself. -/
structure SameBut (path : List Nat) (t u : Invocation) : Prop where
  aside : ∀ q, ¬q <+: path → ¬path <+: q → u.at? q = t.at? q
  above : ∀ q w, q <+: path → q ≠ path → t.at? q = some w → ∃ w', u.at? q = some w' ∧ w.SameSelf w'

/-- At the root and below it is everything. -/
theorem SameBut.root (t u : Invocation) : SameBut [] t u :=
  ⟨fun _ _ h => absurd List.nil_prefix h, fun _ _ h hne => absurd (List.prefix_nil.1 h) hne⟩

/-- Trees that differ at one callee only. -/
theorem SameBut.single {u : Invocation} {i : Nat} (hself : t.SameSelf u)
    (hrest : ∀ j q, j ≠ i → u.at? (j :: q) = t.at? (j :: q)) : SameBut [i] t u := by
  refine ⟨fun q hq hi => ?_, fun q w hq hne hw => ?_⟩
  · rcases q with _ | ⟨j, q⟩
    · exact absurd List.nil_prefix hq
    · refine hrest j q fun hj => hi ?_
      rw [hj]
      exact List.cons_prefix_cons.2 ⟨rfl, List.nil_prefix⟩
  · rcases List.prefix_cons_iff.1 hq with rfl | ⟨q', rfl, hq'⟩
    · cases hw
      exact ⟨u, rfl, hself⟩
    · rw [List.prefix_nil.1 hq'] at hne
      exact absurd rfl hne

/-- Trees that differ in one callee only differ where that callee does. -/
theorem SameBut.cons {u c' : Invocation} {i : Nat} {path : List Nat} (hself : t.SameSelf u)
    (hrest : ∀ j q, j ≠ i → u.at? (j :: q) = t.at? (j :: q)) (hc : t.callees[i]? = some c)
    (hc' : u.callees[i]? = some c') (h : SameBut path c c') : SameBut (i :: path) t u := by
  have ht : ∀ q, t.at? (i :: q) = c.at? q := fun q => by rw [at?, hc, Option.bind_some]
  have hu : ∀ q, u.at? (i :: q) = c'.at? q := fun q => by rw [at?, hc', Option.bind_some]
  refine ⟨fun q hq hi => ?_, fun q w hq hne hw => ?_⟩
  · rcases q with _ | ⟨j, q⟩
    · exact absurd List.nil_prefix hq
    · by_cases hj : j = i
      · subst hj
        rw [ht, hu]
        exact h.aside q (fun hp => hq (List.cons_prefix_cons.2 ⟨rfl, hp⟩))
          fun hp => hi (List.cons_prefix_cons.2 ⟨rfl, hp⟩)
      · exact hrest j q hj
  · rcases List.prefix_cons_iff.1 hq with rfl | ⟨q', rfl, hq'⟩
    · cases hw
      exact ⟨u, rfl, hself⟩
    · rw [ht] at hw
      rw [hu]
      exact h.above q' w hq' (fun hp => hne (congrArg _ hp)) hw

/-! ### Callees put in and taken out -/

theorem getElem?_callees_push (t c : Invocation) (j : Nat) :
    (t.push c).callees[j]? = if j = t.callees.length then some c else t.callees[j]? := by
  change (t.callees ++ [c])[j]? = _
  by_cases hj : j = t.callees.length
  · rw [if_pos hj, hj, List.getElem?_concat_length]
  · rw [if_neg hj, List.getElem?_append]
    by_cases hlt : j < t.callees.length
    · rw [if_pos hlt]
    · rw [if_neg hlt, List.getElem?_eq_none (by simp; omega), List.getElem?_eq_none (by omega)]

theorem getElem?_callees_dropLast (t : Invocation) (j : Nat) :
    t.dropLast.callees[j]? = if j < t.callees.length - 1 then t.callees[j]? else none :=
  List.getElem?_dropLast

/-- The position of the open last callee. -/
theorem getElem?_of_openCallee (h : t.openCallee = some c) :
    t.callees[t.callees.length - 1]? = some c := by
  rw [← List.getLast?_eq_getElem?]
  exact (Option.filter_eq_some_iff.1 h).1

theorem getElem?_callees_setLast (t c : Invocation) :
    (t.setLast c).callees[t.callees.length - 1]? = some c := by
  have hlength : t.dropLast.callees.length = t.callees.length - 1 := List.length_dropLast
  rw [setLast, getElem?_callees_push, hlength, if_pos rfl]

theorem at?_cons_setLast (t c : Invocation) (q : List Nat) :
    (t.setLast c).at? ((t.callees.length - 1) :: q) = c.at? q := by
  rw [at?, getElem?_callees_setLast, Option.bind_some]

/-- Aside of the last callee, one that is taken out or put in for it changes nothing. -/
theorem at?_dropLast {j : Nat} (hj : j ≠ t.callees.length - 1) (q : List Nat) :
    t.dropLast.at? (j :: q) = t.at? (j :: q) := by
  rw [at?, at?, getElem?_callees_dropLast]
  by_cases hlt : j < t.callees.length - 1
  · rw [if_pos hlt]
  · rw [if_neg hlt, List.getElem?_eq_none (by omega)]

theorem at?_setLast (c : Invocation) {j : Nat} (hj : j ≠ t.callees.length - 1) (q : List Nat) :
    (t.setLast c).at? (j :: q) = t.at? (j :: q) := by
  have hlength : t.dropLast.callees.length = t.callees.length - 1 := List.length_dropLast
  rw [← at?_dropLast hj, at?, at?, setLast, getElem?_callees_push, hlength, if_neg hj]

theorem SameBut.setLast {c' : Invocation} {path : List Nat} (h : t.openCallee = some c)
    (hc : SameBut path c c') :
    SameBut ((t.callees.length - 1) :: path) t (t.setLast c') :=
  .cons ⟨rfl, rfl, rfl⟩ (fun _ q hj => at?_setLast c' hj q) (getElem?_of_openCallee h)
    (getElem?_callees_setLast t c') hc

/-! ### Where events change a tree -/

/-- The positions that lead to the next activation called. -/
def nextPath (t : Invocation) : List Nat := t.openPath ++ [t.cursor.running.callees.length]

theorem nextPath_of_some (h : t.openCallee = some c) :
    t.nextPath = (t.callees.length - 1) :: c.nextPath := by
  rw [nextPath, openPath_of_some h, cursor_of_some h]
  rfl

theorem at?_openPath (t : Invocation) : t.at? t.openPath = some t.cursor.running := by
  induction t using openInduction with
  | none t h =>
    rw [openPath_of_none h, cursor_of_none h]
    rfl
  | some t c h ih =>
    rw [openPath_of_some h, cursor_of_some h, at?, getElem?_of_openCallee h]
    exact ih

/-- A call changes the tree where the new activation is. -/
theorem sameBut_of_takeCall {u : Invocation} (h : t.takeCall function sample = .ok () u) :
    SameBut t.nextPath t u ∧ u.at? t.nextPath = some (enter function sample) := by
  induction t using openInduction generalizing u with
  | none t hcallee =>
    rw [takeCall_of_none (isOpen_of_takeCall h) hcallee] at h
    cases h
    rw [nextPath, openPath_of_none hcallee, cursor_of_none hcallee]
    refine ⟨.single ⟨rfl, rfl, rfl⟩ fun j q hj => ?_, ?_⟩
    · rw [at?, at?, getElem?_callees_push, if_neg hj]
    · rw [List.nil_append, at?, getElem?_callees_push, if_pos rfl]
      rfl
  | some t c hcallee ih =>
    rw [takeCall_of_some (isOpen_of_takeCall h) hcallee] at h
    cases hcall : c.takeCall function sample with
    | error fault c' =>
      rw [hcall] at h
      cases h
    | ok _ c' =>
      rw [hcall] at h
      cases h
      obtain ⟨hbut, hat⟩ := ih hcall
      rw [nextPath_of_some hcallee]
      exact ⟨hbut.setLast hcallee, (at?_cons_setLast t c' c.nextPath).trans hat⟩

/-- Taking the callee back changes the tree where the callee has changed.  `ended` is what returned,
which is there unless it was dropped. -/
theorem sameBut_takeBack {c' ended : Invocation} {v : Verdict} {path : List Nat}
    (h : t.openCallee = some c) (hended : ended.isOpen = false) (hbut : SameBut path c c')
    (hat : c'.at? path = if v = .dropped ∧ path ≠ [] then none else some ended) :
    SameBut ((t.callees.length - 1) :: path) t (t.takeBack c' v) ∧
      (t.takeBack c' v).at? ((t.callees.length - 1) :: path) =
        if v = .dropped then none else some ended := by
  have hlast := at?_cons_setLast t c' path
  cases v with
  | kept =>
    rw [if_neg fun hne => nomatch hne.1] at hat
    exact ⟨hbut.setLast h, hlast.trans hat⟩
  | dropped =>
    rw [if_pos rfl, takeBack]
    by_cases hpath : path = []
    -- The callee itself has returned, so it is the one that leaves.
    · rw [hpath, if_neg fun hne => hne.2 rfl] at hat
      have hclosed : c'.isOpen = false := by
        rw [Option.some.inj hat]
        exact hended
      rw [hclosed, if_neg Bool.false_ne_true, hpath]
      refine ⟨.single ⟨rfl, rfl, rfl⟩ fun j q hj => at?_dropLast hj q, ?_⟩
      rw [at?, getElem?_callees_dropLast, if_neg (Nat.lt_irrefl _)]
      rfl
    -- What is dropped left further down, and the callee goes on running.
    · obtain ⟨c₁, hc₁, hself⟩ := hbut.above [] c List.nil_prefix (Ne.symm hpath) rfl
      cases hc₁
      have hopen : c'.isOpen = true := by
        rw [isOpen, hself.left]
        exact isOpen_of_openCallee h
      rw [if_pos ⟨rfl, hpath⟩] at hat
      rw [if_pos hopen]
      exact ⟨hbut.setLast h, hlast.trans hat⟩

/-- A return changes the tree where the running activation is. -/
theorem sameBut_of_takeRet {u : Invocation} {v : Verdict}
    (h : t.takeRet function sample rule = .ok v u) :
    SameBut t.openPath t u ∧
      u.at? t.openPath =
        if v = .dropped ∧ t.openPath ≠ [] then none
        else some { t.cursor.running with left := some sample } := by
  induction t using openInduction generalizing u with
  | none t hcallee =>
    rw [takeRet_of_none (isOpen_of_takeRet h) hcallee] at h
    have hu := eq_of_close h
    subst hu
    rw [openPath_of_none hcallee, cursor_of_none hcallee]
    refine ⟨.root t _, ?_⟩
    rw [if_neg fun hne => hne.2 rfl]
    rfl
  | some t c hcallee ih =>
    rw [takeRet_of_some (isOpen_of_takeRet h) hcallee] at h
    cases hret : c.takeRet function sample rule with
    | error fault c' =>
      rw [hret] at h
      cases h
    | ok w c' =>
      rw [hret] at h
      cases h
      obtain ⟨hbut, hat⟩ := ih hret
      rw [openPath_of_some hcallee, cursor_of_some hcallee]
      simp only [ne_eq, List.cons_ne_nil, not_false_eq_true, and_true]
      exact sameBut_takeBack hcallee rfl hbut hat

/-- **The loops and the recursion agree.**  On a tree of any shape and under any rule, a call and a
return give what delegation gives, tree included: the way down to the running activation and up again
changes nothing.  A refused event leaves the tree as it was; only a rule without an answer leaves the
running activation returned, as no rule would.  The open path leads to the running activation, and an
event taken in changes the tree at its end only.  A call puts the new activation there, and a return
ends the running one, which leaves the tree if it is dropped and another one waits for it. -/
theorem delegate_eq (t : Invocation) (function : Nat) (sample : Sample)
    (rule : Option Retention) :
    delegateCall function sample t = t.takeCall function sample ∧
    delegateRet function sample rule t = t.takeRet function sample rule ∧
    (∀ fault u, t.takeCall function sample = .error fault u → u = t) ∧
    (∀ fault u, t.takeRet function sample rule = .error fault u → fault.isOverflow = false → u = t) ∧
    (∀ cause u, t.takeRet function sample rule = .error (.overflow cause) u →
      t.takeRet function sample none = .ok .kept u) ∧
    t.cursor.tree = t ∧
    t.at? t.openPath = some t.cursor.running ∧
    (∀ u, t.call function sample = .ok u →
      SameBut t.nextPath t u ∧ u.at? t.nextPath = some (enter function sample)) ∧
    ∀ u v, t.ret function sample rule = .ok (u, v) →
      SameBut t.openPath t u ∧
      u.at? t.openPath =
        if v = .dropped ∧ t.openPath ≠ [] then none
        else some { t.cursor.running with left := some sample } :=
  ⟨delegateCall_eq function sample t, delegateRet_eq function sample rule t,
    fun _ _ => eq_of_takeCall_error, fun _ _ => eq_of_takeRet_error,
    fun _ _ => takeRet_none_of_overflow, t.tree_cursor, t.at?_openPath,
    fun _ h => sameBut_of_takeCall (call_eq_ok_iff.1 h),
    fun _ _ h => sameBut_of_takeRet (ret_eq_ok_iff.1 h)⟩

/-- A tree with a path of three open activations, beside a callee that has returned.  The innermost
one returns and is dropped, a call comes below it, a return of another function is refused, and a
rule with a threshold has no answer if the memory has gone too far. -/
theorem delegate_eq_nested :
    let beside : Invocation := ⟨2, ⟨.zero, 1⟩, some ⟨.zero, 2⟩, []⟩
    let innermost : Invocation := ⟨4, ⟨.zero, 4⟩, none, []⟩
    let middle : Invocation := ⟨3, ⟨.zero, 3⟩, none, [innermost]⟩
    let t : Invocation := ⟨1, ⟨.zero, 0⟩, none, [beside, middle]⟩
    let rule : Option Retention := some (.ofTest "memory" fun a b => decide (a.memory < b.memory))
    (∃ u, t.call 5 ⟨.zero, 4⟩ = .ok u ∧ SameBut [1, 0, 0] t u ∧
      u.at? [1, 0, 0] = some (enter 5 ⟨.zero, 4⟩)) ∧
    (∃ u, t.ret 4 ⟨.zero, 4⟩ rule = .ok (u, .dropped) ∧ SameBut [1, 0] t u ∧ u.at? [1, 0] = none) ∧
    t.takeRet 3 ⟨.zero, 4⟩ rule = .error (.mismatch 4 3) t ∧
    ∃ u, t.takeRet 4 ⟨.zero, .minValue⟩ (some (.minTime 0)) = .error (.overflow .subtract) u ∧
      t.takeRet 4 ⟨.zero, .minValue⟩ none = .ok .kept u := by
  intro beside innermost middle t rule
  have hinnermost : innermost.openCallee = none := rfl
  have hmiddle : middle.openCallee = some innermost := rfl
  have ht : t.openCallee = some middle := rfl
  have hpath : t.openPath = [1, 0] := by
    rw [openPath_of_some ht, openPath_of_some hmiddle, openPath_of_none hinnermost]
    rfl
  have hcursor : t.cursor = ⟨innermost, [middle.dropLast, t.dropLast]⟩ := by
    rw [cursor_of_some ht, cursor_of_some hmiddle, cursor_of_none hinnermost]
    rfl
  have hnext : t.nextPath = [1, 0, 0] := by
    rw [nextPath, hpath, hcursor]
    rfl
  obtain ⟨u, hcall⟩ : ∃ u, t.call 5 ⟨.zero, 4⟩ = .ok u := ⟨_, call_eq_ok_iff.2 (takeCall_eq rfl)⟩
  obtain ⟨w, hret⟩ : ∃ w, t.ret 4 ⟨.zero, 4⟩ rule = .ok (w, .dropped) := by
    refine ⟨rebuild middle.dropLast [t.dropLast], ret_eq_ok_iff.2 ?_⟩
    rw [takeRet_eq rfl, hcursor]
    rfl
  obtain ⟨x, hrefused⟩ : ∃ x, t.takeRet 3 ⟨.zero, 4⟩ rule = .error (.mismatch 4 3) x := by
    refine ⟨rebuild innermost [middle.dropLast, t.dropLast], ?_⟩
    rw [takeRet_eq rfl, hcursor]
    rfl
  obtain ⟨y, hextreme⟩ : ∃ y, t.takeRet 4 ⟨.zero, .minValue⟩ (some (.minTime 0)) =
      .error (.overflow .subtract) y := by
    refine ⟨rebuild { innermost with left := some ⟨.zero, .minValue⟩ }
      [middle.dropLast, t.dropLast], ?_⟩
    rw [takeRet_eq rfl, hcursor]
    rfl
  obtain ⟨-, -, -, -, -, -, -, hputs, -⟩ := delegate_eq t 5 ⟨.zero, 4⟩ rule
  obtain ⟨-, -, -, -, -, -, -, -, hends⟩ := delegate_eq t 4 ⟨.zero, 4⟩ rule
  obtain ⟨-, -, -, hunchanged, -⟩ := delegate_eq t 3 ⟨.zero, 4⟩ rule
  obtain ⟨-, -, -, -, hunruled, -⟩ := delegate_eq t 4 ⟨.zero, .minValue⟩ (some (.minTime 0))
  rw [hnext] at hputs
  rw [hpath] at hends
  refine ⟨⟨u, hcall, hputs u hcall⟩, ⟨w, hret, hends w .dropped hret⟩, ?_, y, hextreme,
    hunruled _ y hextreme⟩
  rw [hrefused, hunchanged _ x hrefused rfl]

end Invocation

end CallForest
