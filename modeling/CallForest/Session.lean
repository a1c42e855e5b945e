import CallForest.Forest
import CallForest.Site.Table

/-!
# Sessions

A session takes in the events of one thread of control: it numbers the sites, builds the forest,
counts the events and keeps the extremes of the samples.

An operation gives its result together with the session after it, also when it fails, because an
event refused by the forest may have given its site a number.
-/

namespace CallForest

/-- One event: at which boundary of which function, and what was measured. -/
structure Event where
  boundary : Boundary
  site : Site
  sample : Sample
  deriving DecidableEq, Repr

/-- The numbers of events by what became of them. -/
structure Tally where
  calls : Nat
  returns : Nat
  /-- Events of synthetic sites that were passed over. -/
  skipped : Nat
  deriving DecidableEq, Repr

namespace Tally

/-- No events. -/
def zero : Tally := ⟨0, 0, 0⟩

/-- The number of all events. -/
def total (t : Tally) : Nat := t.calls + t.returns + t.skipped

/-- One more event at a boundary. -/
def add (t : Tally) : Boundary → Tally
  | .enter => { t with calls := t.calls + 1 }
  | .leave => { t with returns := t.returns + 1 }

/-- One more event passed over. -/
def skip (t : Tally) : Tally := { t with skipped := t.skipped + 1 }

end Tally

/-- The state of a session. -/
structure Session where
  sites : Site.Table
  forest : Forest
  /-- Events of synthetic sites are passed over. -/
  skipsSynthetic : Bool
  tally : Tally
  /-- The sample at the start. -/
  initial : Sample
  /-- The componentwise minimum over the events taken in. -/
  least : Option Sample
  /-- The componentwise maximum over the events taken in. -/
  greatest : Option Sample
  /-- The sample at the end, once the session is finished. -/
  final : Option Sample

namespace Session

/-- A new session. -/
def start (rule : Option Retention) (skipsSynthetic : Bool) (initial : Sample) : Session where
  sites := .empty
  forest := .empty rule
  skipsSynthetic
  tally := .zero
  initial
  least := none
  greatest := none
  final := none

variable (s : Session)

/-- The session is finished. -/
def isFinished : Bool := s.final.isSome

/-- The session with a sample taken into the extremes. -/
def widen (sample : Sample) : Session :=
  { s with
    least := some (match s.least with | none => sample | some m => m.min sample)
    greatest := some (match s.greatest with | none => sample | some m => m.max sample) }

/-- Numbers the site of an event and takes the event into the forest.  The result is the number. -/
def add (e : Event) : EStateM.Result Fault Session Nat :=
  match s.sites.number e.site with
  | .error fault => .error fault s
  | .ok (n, sites) =>
    let s := { s with sites }
    match s.forest.take e.boundary n e.sample with
    | .ok _ forest => .ok n ({ s with forest }.widen e.sample)
    -- An overflow ends the program in the middle of the event, and leaves no session to go on with.
    | .error fault forest => .error fault (if fault.isOverflow then s else { s with forest })

/-- Takes in an event from outside: synthetic sites are passed over if the session says so, all
others are added and counted. -/
def record (e : Event) : EStateM.Result Fault Session Unit :=
  if s.isFinished then .error .recordAfterFinish s
  else if s.skipsSynthetic && e.site.isSynthetic then .ok () { s with tally := s.tally.skip }
  else
    match s.add e with
    | .error fault s => .error fault s
    | .ok _ s => .ok () { s with tally := s.tally.add e.boundary }

/-- Ends the session with a last sample; every activation must have returned. -/
def finish (sample : Sample) : EStateM.Result Fault Session Unit :=
  if s.forest.isOpen then .error .finishInside s else .ok () { s with final := some sample }

end Session

end CallForest
