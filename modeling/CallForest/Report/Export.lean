import CallForest.CostTable
import CallForest.Exchange
import CallForest.Session

/-!
# Exports

Everything about a session that is needed to draw its forest elsewhere: the table of sites with
their costs, the visits in one order, and the figures of the session.
-/

namespace CallForest

/-- A function in an export. -/
structure Export.Function where
  number : Nat
  site : Site
  /-- Its costs, if an invocation was kept and has returned. -/
  cost : Option Cost

/-- The figures of a session in an export. -/
structure Export.Summary where
  order : Order
  kept : Nat
  dropped : Nat
  tally : Tally
  /-- None if the forest is empty. -/
  maxDepth : Option Nat
  maxWidth : Nat
  initial : Sample
  final : Option Sample
  least : Option Sample
  greatest : Option Sample

/-- An export of a session. -/
structure Export where
  summary : Export.Summary
  functions : List Export.Function
  visits : List Placed

namespace Export

/-- The export of a session. -/
def ofSession (s : Session) (order : Order) : Except Overflow Export :=
  (CostTable.ofForest s.forest).map fun costs =>
    { summary :=
        { order
          kept := s.forest.nodeCount
          dropped := s.forest.droppedCount
          tally := s.tally
          maxDepth := s.forest.maxDepth.toOption
          maxWidth := s.forest.maxWidth
          initial := s.initial
          final := s.final
          least := s.least
          greatest := s.greatest }
      functions := s.sites.entries.map fun (n, site) => ⟨n, site, costs.cost? n⟩
      visits := s.forest.visits order }

/-! ### As JSON -/

/-- The member with a value, none without one. -/
def member? {α : Type} (key : String) (toValue : α → Json.Value) :
    Option α → List (String × Json.Value)
  | none => []
  | some a => [(key, toValue a)]

/-- A number as JSON. -/
def natural (n : Nat) : Json.Value := .integer n

/-- The costs of a function as JSON. -/
def costValue (c : Cost) : Json.Value :=
  .object [("call_count", natural c.count), ("total_time", .real c.time),
    ("total_memory", .integer c.memory.toInt), ("peak_memory_delta", .integer c.peak.toInt)]

/-- The word for an order. -/
def orderWord : Order → String
  | .depth => "depth"
  | .width => "width"

/-- The counts of events as JSON. -/
def tallyValue (t : Tally) : Json.Value :=
  .object [("calls", natural t.calls), ("returns", natural t.returns),
    ("skipped", natural t.skipped)]

/-- A function as JSON. -/
def Function.toValue (f : Function) : Json.Value :=
  .object ([("id", natural f.number), ("file", .text f.site.file),
    ("function", .text f.site.function), ("line", natural f.site.line.toNat)] ++
      member? "stats" costValue f.cost)

/-- The figures as JSON. -/
def Summary.toValue (s : Summary) : Json.Value :=
  .object ([("order", .text (orderWord s.order)), ("functions_kept", natural s.kept),
      ("functions_filtered", natural s.dropped), ("events", tallyValue s.tally)] ++
    member? "max_depth" natural s.maxDepth ++
    [("max_width", natural s.maxWidth), ("data_initial", s.initial.toValue)] ++
    member? "data_final" Sample.toValue s.final ++
    member? "data_min" Sample.toValue s.least ++
    member? "data_max" Sample.toValue s.greatest)

/-- A visit as JSON. -/
def visitValue (p : Placed) : Json.Value :=
  .object [("width", natural p.width), ("depth", natural p.visit.depth),
    ("event", p.visit.boundary.toValue), ("function_id", natural p.visit.function),
    ("data", p.visit.sample.toValue)]

/-- An export as JSON. -/
def toValue (e : Export) : Json.Value :=
  .object [("summary", e.summary.toValue), ("functions", .list (e.functions.map Function.toValue)),
    ("events", .list (e.visits.map visitValue))]

/-- The text of an export. -/
def text (e : Export) : String := e.toValue.pretty 0

end Export

end CallForest
