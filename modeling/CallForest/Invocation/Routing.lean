import CallForest.Invocation.Basic
import CallForest.Retention

/-!
# Where an event goes

Execution is in the innermost open activation, the one that the open last callees lead to.  A
`Cursor` stands there, with the activations waiting for it on a list, so that the way down and up
again needs no recursion on the tree.  `Invocation.takeCall` puts a new activation below the running
one, and `Invocation.takeRet` closes the running one and takes it out again if the retention rule
drops it.  To take it out is up to the one that waits for it, so that a return looks one activation
ahead on its way down and stops at the caller of the running one, `Invocation.seekCaller`.

Both work on the tree in its place: the result has the tree as it is afterwards, also when there is
a fault.  `Invocation.call` and `Invocation.ret` are what they give where no fault is.
-/

namespace CallForest

/-- What becomes of an activation that has returned. -/
inductive Verdict where
  /-- It stays in the tree. -/
  | kept
  /-- It leaves the tree, with all it called. -/
  | dropped
  deriving DecidableEq, Repr

/-- The running activation, and those waiting for it, the innermost first and each without the
callee it waits for. -/
structure Cursor where
  running : Invocation
  waiting : List Invocation

namespace Cursor

/-- Puts an activation back below those waiting for it. -/
def rebuild (t : Invocation) : List Invocation → Invocation
  | [] => t
  | p :: outer => rebuild (p.push t) outer

/-- The tree that a cursor stands in. -/
def tree (c : Cursor) : Invocation := rebuild c.running c.waiting

end Cursor

namespace Invocation

variable (t : Invocation)

/-- The activation without its last callee. -/
def dropLast : Invocation := { t with callees := t.callees.dropLast }

/-- The activation with another last callee. -/
def setLast (c : Invocation) : Invocation := t.dropLast.push c

/-- The last callee, if it is open. -/
def openCallee : Option Invocation := t.callees.getLast?.filter isOpen

variable {t} in
theorem mem_of_openCallee {c : Invocation} (h : t.openCallee = some c) : c ∈ t.callees :=
  List.mem_of_getLast? (Option.filter_eq_some_iff.1 h).1

/-- Follows the open last callees down. -/
def descend (t : Invocation) (waiting : List Invocation) : Cursor :=
  match _h : t.openCallee with
  | none => ⟨t, waiting⟩
  | some c => c.descend (t.dropLast :: waiting)
termination_by t.size
decreasing_by exact size_lt_of_mem (mem_of_openCallee _h)

/-- The cursor at the running activation. -/
def cursor : Cursor := t.descend []

/-- A call of `function` from wherever execution is. -/
def takeCall (function : Nat) (sample : Sample) : EStateM.Result Fault Invocation Unit :=
  if t.isOpen then
    let c := t.cursor
    .ok () (Cursor.rebuild (c.running.push (enter function sample)) c.waiting)
  else .error .enterClosed t

/-- What a rule says about an activation; without a rule everything is kept. -/
def judge (rule : Option Retention) (entered left : Sample) : Except Fault Verdict :=
  match rule with
  | none => .ok .kept
  | some r =>
    match r.keeps entered left with
    | .ok true => .ok .kept
    | .ok false => .ok .dropped
    | .error cause => .error (.overflow cause)

/-- Closes an activation of `function`.  The rule is asked once it is closed, so it is closed even if
the rule has no answer. -/
def close (function : Nat) (sample : Sample) (rule : Option Retention) :
    EStateM.Result Fault Invocation Verdict :=
  if t.function = function then
    let closed := { t with left := some sample }
    match judge rule t.entered sample with
    | .ok v => .ok v closed
    | .error fault => .error fault closed
  else .error (.mismatch t.function function) t

end Invocation

/-- The activation that waits for the running one, which is its open last callee, and those waiting
for it in turn, the innermost first and each without the callee it waits for. -/
structure Caller where
  caller : Invocation
  running : Invocation
  waiting : List Invocation
  isRunning : caller.openCallee = some running

namespace Invocation

variable (t : Invocation)

/-- Follows the open last callees down from `t`, whose own is `c`, as long as there is another one
ahead. -/
def seekCaller (t c : Invocation) (h : t.openCallee = some c) (waiting : List Invocation) : Caller :=
  match hc : c.openCallee with
  | none => ⟨t, c, waiting, h⟩
  | some d => c.seekCaller d hc (t.dropLast :: waiting)
termination_by c.size
decreasing_by exact size_lt_of_mem (mem_of_openCallee hc)

/-- A return from `function`, closing the running activation.  A dropped one is taken from the
activation that waits for it; if none does, it is `t` itself and whoever has `t` must drop it. -/
def takeRet (function : Nat) (sample : Sample) (rule : Option Retention) :
    EStateM.Result Fault Invocation Verdict :=
  if t.isOpen then
    match h : t.openCallee with
    | none => t.close function sample rule
    | some c =>
      let k := t.seekCaller c h []
      match k.running.close function sample rule with
      | .ok .kept closed => .ok .kept (Cursor.rebuild (k.caller.setLast closed) k.waiting)
      | .ok .dropped _ => .ok .dropped (Cursor.rebuild k.caller.dropLast k.waiting)
      | .error fault u => .error fault (Cursor.rebuild (k.caller.setLast u) k.waiting)
  else .error .leaveClosed t

/-- The tree after a call. -/
def call (function : Nat) (sample : Sample) : Except Fault Invocation :=
  match t.takeCall function sample with
  | .ok _ u => .ok u
  | .error fault _ => .error fault

/-- The tree after a return, and what became of the activation that returned. -/
def ret (function : Nat) (sample : Sample) (rule : Option Retention) :
    Except Fault (Invocation × Verdict) :=
  match t.takeRet function sample rule with
  | .ok v u => .ok (u, v)
  | .error fault _ => .error fault

end Invocation

end CallForest
