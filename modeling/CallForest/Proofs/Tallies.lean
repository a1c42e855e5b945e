import CallForest.Proofs.Census
import CallForest.Proofs.Erasing
import CallForest.Proofs.Extremes
import CallForest.Proofs.Replaying

/-!
# What the tally of a session says

A session that nothing is added to counts every event that it takes in, at its boundary.  Its tally
and its forest are kept apart, and a rule takes activations out of the forest again; but the tally
still tells how many activations are open, and bounds how many there are.

* `Session.Input`: what such a session is given, one event or a whole log at a time;
* `Session.receiveAll_eq_run`: the operations that this comes to;
* `Tally.count_eq`, `Session.tally_run`: what one operation makes of the tally, and what several do;
* `Session.census_run`: the numbers of activations, from the events taken in;
* `Session.tallied_run`: what the tally says of the forest and the extremes;
* `Session.tallied_receiveAll`: every session that is only recorded, replayed and finished.
-/

namespace CallForest

/-- The operation records an event. -/
def Operation.records : Operation → Bool
  | record _ => true
  | add _ | finish _ => false

namespace Tally

theorem total_add (t : Tally) (b : Boundary) : (t.add b).total = t.total + 1 := by
  rcases b with _ | _ <;> simp only [add, total] <;> omega

/-- What an operation counts that succeeds: an event that it takes in at the boundary, and any event
that it records in the total. -/
theorem count_eq (t : Tally) (skipsSynthetic : Bool) {op : Operation} (h : op.adds = false) :
    (t.count skipsSynthetic op).calls =
        t.calls + (op.offered skipsSynthetic).toList.countP (·.boundary = .enter) ∧
      (t.count skipsSynthetic op).returns =
        t.returns + (op.offered skipsSynthetic).toList.countP (·.boundary = .leave) ∧
      (t.count skipsSynthetic op).total = t.total + [op].countP Operation.records := by
  rcases op with ⟨b, site, sample⟩ | e | sample
  · rw [count, Operation.offered]
    by_cases hpass : (skipsSynthetic && site.isSynthetic) = true
    · rw [if_pos hpass, if_pos hpass]
      exact ⟨rfl, rfl, rfl⟩
    · rw [if_neg hpass, if_neg hpass]
      refine ⟨?_, ?_, t.total_add b⟩ <;> rcases b with _ | _ <;> rfl
  · cases h
  · exact ⟨rfl, rfl, rfl⟩

end Tally

/-- The operations that replaying a log comes to.  The last of them may fail, and none is made for
an item without an event. -/
def Log.operations (s : Session) : List Item → List Operation
  | [] => []
  | item :: items =>
    match eventOf item with
    | .error _ => []
    | .ok e =>
      .record e ::
        match s.record e with
        | .error _ _ => []
        | .ok _ s => operations s items

namespace Session

/-- What a session is given that nothing is added to. -/
inductive Input where
  | record (e : Event)
  | replay (items : List Log.Item)
  | finish (sample : Sample)

/-- The session after an input. -/
def receive (s : Session) : Input → Session
  | .record e =>
    match s.record e with
    | .ok _ s | .error _ s => s
  | .replay items =>
    match Log.replay s items with
    | .ok _ s | .error _ s => s
  | .finish sample =>
    match s.finish sample with
    | .ok _ s | .error _ s => s

/-- The session after several inputs. -/
def receiveAll (s : Session) : List Input → Session
  | [] => s
  | input :: inputs => receiveAll (s.receive input) inputs

/-- The operations that an input comes to. -/
def Input.operations (s : Session) : Input → List Operation
  | record e => [.record e]
  | replay items => Log.operations s items
  | finish sample => [.finish sample]

/-- The operations that several inputs come to. -/
def operations (s : Session) : List Input → List Operation
  | [] => []
  | input :: inputs => input.operations s ++ operations (s.receive input) inputs

/-! ### Inputs as operations -/

theorem after_record (s : Session) (e : Event) :
    s.after (.record e) = match s.record e with | .ok _ s' => s' | .error _ s' => s' := by
  rw [after, perform]
  rcases s.record e with ⟨_, s'⟩ | ⟨fault, s'⟩ <;> rfl

theorem receive_finish (s : Session) (sample : Sample) :
    s.receive (.finish sample) = s.after (.finish sample) := by
  rw [receive, after, perform]
  rcases s.finish sample with ⟨_, s'⟩ | ⟨fault, s'⟩ <;> rfl

theorem run_operations_replayFrom (count : Nat) (s : Session) (items : List Log.Item) :
    s.run (Log.operations s items) =
      match Log.replayFrom count s items with
      | .ok _ s' => s'
      | .error _ s' => s' := by
  induction items generalizing count s with
  | nil => rfl
  | cons item items ih =>
    rw [Log.operations, Log.replayFrom]
    rcases hevent : Log.eventOf item with fault | e
    · rw [Log.recordItem_of_noEvent hevent]
      rfl
    · have hafter := after_record s e
      rw [Log.recordItem_of_event hevent]
      dsimp only
      rw [run, hafter]
      rcases s.record e with ⟨_, s'⟩ | ⟨fault, s'⟩
      · exact ih (count + 1) s'
      · rfl

theorem receive_eq_run (s : Session) (input : Input) :
    s.receive input = s.run (input.operations s) := by
  rcases input with e | items | sample
  · exact (after_record s e).symm
  · exact (run_operations_replayFrom 0 s items).symm
  · exact receive_finish s sample

/-- **What a session is given comes to operations.** -/
theorem receiveAll_eq_run (s : Session) (inputs : List Input) :
    s.receiveAll inputs = s.run (s.operations inputs) := by
  induction inputs generalizing s with
  | nil => rfl
  | cons input inputs ih => rw [receiveAll, ih, operations, run_append, ← receive_eq_run]

theorem adds_operations_replay {s : Session} {items : List Log.Item} :
    ∀ op ∈ Log.operations s items, op.adds = false := by
  induction items generalizing s with
  | nil => simp [Log.operations]
  | cons item items ih =>
    rw [Log.operations]
    rcases Log.eventOf item with fault | e
    · simp
    · refine List.forall_mem_cons.2 ⟨rfl, ?_⟩
      rcases s.record e with ⟨_, s'⟩ | ⟨fault, s'⟩
      · exact ih
      · simp

theorem adds_operations (s : Session) (inputs : List Input) :
    ∀ op ∈ s.operations inputs, op.adds = false := by
  induction inputs generalizing s with
  | nil => simp [operations]
  | cons input inputs ih =>
    refine List.forall_mem_append.2 ⟨?_, ih _⟩
    rcases input with e | items | sample
    · exact List.forall_mem_singleton.2 rfl
    · exact adds_operations_replay
    · exact List.forall_mem_singleton.2 rfl

/-! ### What is counted -/

theorem accepts_eq (s : Session) (op : Operation) :
    s.accepts op =
      match s.answer op with
      | .ok _ => op.offered s.skipsSynthetic
      | .error _ => none := by
  rw [accepts, answer]
  rcases s.perform op with ⟨n, s'⟩ | ⟨fault, s'⟩ <;> rfl

theorem succeeded_cons (s : Session) (op : Operation) (ops : List Operation) :
    s.succeeded (op :: ops) =
      match s.answer op with
      | .ok _ => op :: (s.after op).succeeded ops
      | .error _ => (s.after op).succeeded ops := by
  rw [succeeded, answer, after]
  rcases s.perform op with ⟨n, s'⟩ | ⟨fault, s'⟩ <;> rfl

/-- **What operations make of the tally.** -/
theorem tally_run (s : Session) {ops : List Operation} (h : ∀ op ∈ ops, op.adds = false) :
    (s.run ops).tally.calls = s.tally.calls + (s.accepted ops).countP (·.boundary = .enter) ∧
      (s.run ops).tally.returns =
        s.tally.returns + (s.accepted ops).countP (·.boundary = .leave) ∧
      (s.run ops).tally.total = s.tally.total + (s.succeeded ops).countP Operation.records := by
  induction ops generalizing s with
  | nil => exact ⟨rfl, rfl, rfl⟩
  | cons op ops ih =>
    obtain ⟨hop, hops⟩ := List.forall_mem_cons.1 h
    obtain ⟨hcalls, hreturns, htotal⟩ := ih (s.after op) hops
    rw [run, accepted, succeeded_cons, accepts_eq, List.countP_append, List.countP_append, hcalls,
      hreturns, htotal, tally_after]
    rcases s.answer op with fault | n
    · simp
    · obtain ⟨hcalls, hreturns, htotal⟩ := s.tally.count_eq s.skipsSynthetic hop
      refine ⟨?_, ?_, ?_⟩
      · rw [← Nat.add_assoc, ← hcalls]
      · rw [← Nat.add_assoc, ← hreturns]
      · rw [← List.singleton_append, List.countP_append, ← Nat.add_assoc, ← htotal]

/-! ### What the tally says -/

/-- The tally of a session with a given rule fits its forest and its extremes. -/
structure Tallied (rule : Option Retention) (s : Session) : Prop where
  /-- The calls that have not returned are the open activations. -/
  opened : s.tally.calls = s.tally.returns + s.forest.openCount
  least : s.least = none ↔ s.tally.calls = 0
  greatest : s.greatest = none ↔ s.tally.calls = 0
  /-- Without a rule, nothing is missing. -/
  all : rule = none →
    s.forest.nodeCount = s.tally.calls ∧ s.forest.closedCount = s.tally.returns
  held : s.forest.nodeCount + s.forest.droppedCount ≤ s.tally.calls
  dropped : s.forest.droppedCount ≤ s.tally.returns
  finish : ∀ sample, (∃ s', s.finish sample = .ok () s') ↔ s.tally.calls = s.tally.returns

theorem exists_finish_iff (s : Session) (sample : Sample) :
    (∃ s', s.finish sample = .ok () s') ↔ s.forest.isOpen = false := by
  rw [finish]
  by_cases hopen : s.forest.isOpen = true
  · simp [hopen]
  · simp [hopen]

section

variable (rule : Option Retention) (skipsSynthetic : Bool) (initial : Sample)
variable (ops : List Operation)

/-- The numbers of activations of a session, from the events that it has taken in. -/
theorem census_run :
    let start := start rule skipsSynthetic initial
    let s := start.run ops
    let calls := (start.accepted ops).countP (·.boundary = .enter)
    let returns := (start.accepted ops).countP (·.boundary = .leave)
    calls = returns + s.forest.openCount ∧
      s.forest.closedCount + s.forest.droppedCount ≤ returns ∧
      (rule = none → s.forest.closedCount = returns) ∧
      (s.forest.isOpen = false ↔ s.forest.openCount = 0) := by
  intro start s calls returns
  obtain ⟨S, hS, hforest⟩ := exists_spine_run rule skipsSynthetic initial ops
  obtain ⟨opened, closed, all⟩ := Spine.Census.of_foldlM hS
  rw [List.countP_map, List.countP_map] at opened
  rw [List.countP_map] at closed all
  have hopen : s.forest.isOpen = true ↔ S.pending ≠ [] := by
    rw [hforest]
    exact S.isOpen_forest rule
  have hroots : s.forest.roots = S.roots := by rw [hforest]; rfl
  have hdropped : s.forest.droppedCount = S.dropped := by rw [hforest]; rfl
  rw [Forest.openCount, Forest.closedCount, hroots, hdropped]
  refine ⟨?_, ?_, ?_, ?_⟩
  · rw [Nat.add_comm]
    exact (Nat.zero_add _).symm.trans opened
  · exact closed.trans_eq (Nat.zero_add _)
  · intro hrule
    exact (all hrule).trans (Nat.zero_add _)
  · rw [S.census_true_roots, List.length_eq_zero_iff, ← Bool.not_eq_true, hopen, not_not]

end

/-- **The tally fits**, as long as nothing is added. -/
theorem tallied_run (rule : Option Retention) (skipsSynthetic : Bool) (initial : Sample)
    {ops : List Operation} (h : ∀ op ∈ ops, op.adds = false) :
    Tallied rule ((start rule skipsSynthetic initial).run ops) := by
  obtain ⟨hcalls, hreturns, -⟩ := tally_run (start rule skipsSynthetic initial) h
  obtain ⟨hopened, hclosed, hall, hopen⟩ := census_run rule skipsSynthetic initial ops
  have hleast := least_run_start rule skipsSynthetic initial ops
  have hgreatest := greatest_run_start rule skipsSynthetic initial ops
  have hlength := Boundary.length_eq_add Event.boundary
    ((start rule skipsSynthetic initial).accepted ops)
  have hzero : (start rule skipsSynthetic initial).tally = .zero := rfl
  rw [hzero, Tally.zero, Nat.zero_add] at hcalls hreturns
  have hnone : (start rule skipsSynthetic initial).accepted ops = [] ↔
      ((start rule skipsSynthetic initial).run ops).tally.calls = 0 := by
    rw [← List.length_eq_zero_iff, hlength, hcalls]
    omega
  have hnodes := ((start rule skipsSynthetic initial).run ops).forest.openCount_add_closedCount
  refine ⟨by rw [hcalls, hreturns, hopened], ?_, ?_, ?_, ?_, ?_, ?_⟩
  · rw [hleast, Sample.reduce?_eq_none_iff, List.map_eq_nil_iff, hnone]
  · rw [hgreatest, Sample.reduce?_eq_none_iff, List.map_eq_nil_iff, hnone]
  · intro hrule
    have hclosed := hall hrule
    exact ⟨by omega, by omega⟩
  · omega
  · omega
  · intro sample
    rw [exists_finish_iff, hopen]
    omega

/-- **The tally of a session that nothing is added to.**  Whatever such a session is given, one
event or a whole log at a time, and whatever of it fails: the total is the number of events recorded
without a fault, those passed over included, and the tally fits the forest and the extremes. -/
theorem tallied_receiveAll (rule : Option Retention) (skipsSynthetic : Bool) (initial : Sample)
    (inputs : List Input) :
    let start := start rule skipsSynthetic initial
    let s := start.receiveAll inputs
    let ops := start.operations inputs
    s = start.run ops ∧ (∀ op ∈ ops, op.adds = false) ∧
      s.tally.total = (start.succeeded ops).countP Operation.records ∧ Tallied rule s := by
  intro start s ops
  have hs : s = start.run ops := receiveAll_eq_run start inputs
  have hops := adds_operations start inputs
  obtain ⟨-, -, htotal⟩ := tally_run start hops
  rw [hs]
  exact ⟨rfl, hops, htotal.trans (Nat.zero_add _), tallied_run rule skipsSynthetic initial hops⟩

/-- A log that breaks off inside a call: what comes before the break is counted. -/
example :
    let main : Site := ⟨"app.py", "main", 3⟩
    let log : List Log.Item :=
      [.ok ⟨"call", main, .zero⟩, .error .notUtf8, .ok ⟨"return", main, .zero⟩]
    let s := (start none false .zero).receiveAll [.replay log, .finish .zero]
    s.tally = ⟨1, 0, 0⟩ ∧ s.forest.openCount = 1 ∧ s.isFinished = false := by
  cbv

end Session

end CallForest
