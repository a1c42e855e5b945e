import CallForest.Boundary
import CallForest.Sample

/-!
# Invocations

One activation of a function with the activations it made.  An invocation is open until its return
is seen.  Invocations of any shape are values of this type; what keeps them in shape while events
come in is said in `CallForest.Invocation.Routing`.

* `Invocation.size` counts the activations by recursion and is what the explicit stacks of the
  other modules are measured with;
* `Invocation.at?` finds the activation at a path of positions.
-/

namespace CallForest

/-- One activation of a function. -/
@[ext]
structure Invocation where
  /-- The number of the function. -/
  function : Nat
  /-- The sample at the call. -/
  entered : Sample
  /-- The sample at the return, once it is seen. -/
  left : Option Sample
  /-- The activations made by this one, in the order of their calls. -/
  callees : List Invocation

namespace Invocation

instance : Inhabited Invocation := ⟨⟨0, .zero, none, []⟩⟩

/-- A new activation. -/
def enter (function : Nat) (sample : Sample) : Invocation := ⟨function, sample, none, []⟩

variable (t : Invocation)

/-- The return has not been seen. -/
def isOpen : Bool := t.left.isNone

/-- The activation with one more callee. -/
def push (c : Invocation) : Invocation := { t with callees := t.callees ++ [c] }

mutual

/-- The number of activations. -/
def size : Invocation → Nat
  | ⟨_, _, _, callees⟩ => sizes callees + 1

/-- The number of activations of several trees. -/
def sizes : List Invocation → Nat
  | [] => 0
  | t :: ts => t.size + sizes ts

end

variable {t}

theorem size_eq (t : Invocation) : t.size = sizes t.callees + 1 := by
  cases t
  rfl

@[simp] theorem sizes_nil : sizes [] = 0 := rfl

@[simp] theorem sizes_cons (t : Invocation) (ts : List Invocation) :
    sizes (t :: ts) = t.size + sizes ts := rfl

@[simp] theorem sizes_append (ts us : List Invocation) :
    sizes (ts ++ us) = sizes ts + sizes us := by
  induction ts with
  | nil => simp
  | cons t ts ih => simp [ih, Nat.add_assoc]

theorem size_le_sizes {c : Invocation} {ts : List Invocation} (h : c ∈ ts) : c.size ≤ sizes ts := by
  induction ts with
  | nil => simp at h
  | cons t ts ih =>
    rcases List.mem_cons.1 h with rfl | h
    · simp
    · have := ih h
      simp only [sizes_cons]
      omega

theorem size_lt_of_mem {c : Invocation} (h : c ∈ t.callees) : c.size < t.size := by
  have := size_le_sizes h
  rw [size_eq t]
  omega

/-- Induction on several trees: the first of them stands on its callees. -/
@[elab_as_elim]
theorem listInduction {motive : List Invocation → Prop} (nil : motive [])
    (cons : ∀ t ts, motive t.callees → motive ts → motive (t :: ts)) (ts : List Invocation) :
    motive ts :=
  match ts with
  | [] => nil
  | t :: ts => cons t ts (listInduction nil cons t.callees) (listInduction nil cons ts)
termination_by sizes ts
decreasing_by all_goals simp only [sizes_cons, size_eq t]; omega

variable (t)

/-- The activation at a path of positions among callees. -/
def at? (t : Invocation) : List Nat → Option Invocation
  | [] => some t
  | i :: path => t.callees[i]?.bind fun c => c.at? path

/-- The state of an activation in full, for descriptions of values. -/
def describeState : String :=
  match t.left with
  | none => "Open"
  | some s => "Closed \x7b return_data: " ++ s.describe ++ " \x7d"

/-- An activation in full, for descriptions of values; of its callees the number is given. -/
def describe : String :=
  "CallNode \x7b function_id: " ++ toString t.function ++ ", call_data: " ++ t.entered.describe ++
    ", state: " ++ t.describeState ++ ", children: " ++ toString t.callees.length ++ " \x7d"

end Invocation

end CallForest
