import CallForest.Forest
import CallForest.Site.Table
import CallForest.Text.Column

/-!
# Costs by function

The costs of all invocations of a function, added up.  `CostTable.ofForest` charges every closed
activation of a forest with the difference of its own two samples; open ones are not charged.
-/

namespace CallForest

/-- The costs of one function. -/
structure Cost where
  /-- The number of invocations. -/
  count : Nat
  time : Seconds
  memory : Int64
  /-- The change of memory of the invocation that changed it most, in either direction. -/
  peak : Int64
  deriving DecidableEq, Repr

namespace Cost

/-- No invocations. -/
def zero : Cost := ⟨0, .zero, 0, 0⟩

/-- One more invocation with a given cost. -/
def add (c : Cost) (delta : Sample) : Except Overflow Cost := do
  let memory ← Checked.add c.memory delta.memory
  let change ← Checked.abs delta.memory
  let most ← Checked.abs c.peak
  return {
    count := c.count + 1
    time := c.time + delta.time
    memory
    peak := if most < change then delta.memory else c.peak }

/-- The mean time of an invocation in milliseconds. -/
def meanMilliseconds (c : Cost) : Float :=
  if c.count = 0 then 0.0 else c.time.toFloat * 1e3 / Float.ofNat c.count

end Cost

/-- The costs of every function that has any. -/
structure CostTable where
  costs : Std.HashMap Nat Cost

namespace CostTable

/-- The table without costs. -/
def empty : CostTable := ⟨∅⟩

variable (t : CostTable)

/-- The number of functions. -/
def size : Nat := t.costs.size

/-- No function has costs. -/
def isEmpty : Bool := t.costs.isEmpty

/-- The costs of a function. -/
def cost? (function : Nat) : Option Cost := t.costs[function]?

/-- The table with one more invocation of a function. -/
def charge (function : Nat) (delta : Sample) : Except Overflow CostTable :=
  ((t.costs.getD function .zero).add delta).map fun c => ⟨t.costs.insert function c⟩

/-- A visit charged to the table; `callSamples` are those of the activations around it. -/
def chargeVisit (state : CostTable × List Sample) (v : Visit) :
    Except Overflow (CostTable × List Sample) :=
  let (t, callSamples) := state
  match v.boundary, callSamples with
  | .enter, _ => .ok (t, v.sample :: callSamples)
  | .leave, [] => .ok (t, [])
  | .leave, entered :: outer =>
    (v.sample.sub entered).bind fun delta => (t.charge v.function delta).map (·, outer)

/-- The costs of the closed activations of a forest. -/
def ofForest (f : Forest) : Except Overflow CostTable :=
  (f.depthFirst.foldlM (fun state p => chargeVisit state p.visit) (empty, [])).map (·.1)

/-- The longer time is first, of equal times the lower number. -/
def precedes (a b : Nat × Cost) : Bool :=
  match b.2.time.compareTotal a.2.time with
  | .lt => true
  | .gt => false
  | .eq => a.1 ≤ b.1

/-- The functions with their costs, the longest total time first. -/
def sorted : List (Nat × Cost) := t.costs.toList.mergeSort precedes

/-! ### The table as text -/

/-- A row of the table. -/
def row (name count time mean memory : String) : String :=
  Text.left 40 name ++ " " ++ Text.right 8 count ++ " " ++ Text.right 14 time ++ " " ++
    Text.right 14 mean ++ " " ++ Text.right 14 memory ++ "\n"

/-- The line above and below the rows. -/
def ruler : String := "".pushn '─' 94 ++ "\n"

/-- The name of a function in the table; one without a site is known by its number. -/
def nameOf (sites : Site.Table) (function : Nat) : String :=
  match sites.site? function with
  | .ok s => s.function
  | .error _ => "<id " ++ toString function ++ ">"

/-- The row of a function. -/
def rowOf (sites : Site.Table) (entry : Nat × Cost) : String :=
  let (function, c) := entry
  row (nameOf sites function) (toString c.count) (Decimal.fixed 3 (c.time.toFloat * 1e3))
    (Decimal.fixed 3 c.meanMilliseconds) (Decimal.fixed 1 (Sample.kilobytes c.memory))

/-- The whole table. -/
def text (sites : Site.Table) : String :=
  if t.isEmpty then "No function profiling data collected.\n"
  else
    row "Function" "Calls" "Total (ms)" "Avg (ms)" "Net (kb)" ++ ruler ++
      String.join (t.sorted.map (rowOf sites)) ++ ruler

end CostTable

end CallForest
