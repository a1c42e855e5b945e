import CallForest.Session
import CallForest.Text.Column

/-!
# Dumps

Plain text for reading: the visits of a forest, the table of sites, and the figures of a session.
A dump is written line by line, and a fault on the way leaves the lines before it written.
-/

namespace CallForest

namespace Dump

/-- Writing text that may end in a fault; the state is the text written. -/
abbrev Writing := EStateM Fault String

/-- Writes a line. -/
def line (s : String) : Writing Unit := modify fun text => text ++ s ++ "\n"

/-- The difference of two samples. -/
def cost (a b : Sample) : Writing Sample :=
  match a.sub b with
  | .ok d => pure d
  | .error cause => throw (.overflow cause)

/-- The site of a function. -/
def siteOf (sites : Site.Table) (function : Nat) : Writing Site :=
  match sites.site? function with
  | .ok s => pure s
  | .error fault => throw fault

/-- A title in the middle of a line. -/
def banner (title : String) : String := Text.centre 75 '=' title

/-- The mark of a boundary. -/
def mark : Boundary → String
  | .enter => ">"
  | .leave => "<"

/-- Where a function is declared, in two columns. -/
def siteColumns (s : Site) : String :=
  Text.left 32 s.function ++ " " ++ s.file ++ "#" ++ toString s.line.toNat

/-- Writes the line of a visit: its place, the sample relative to the baseline, and the change since
the relative sample `previous` of the line before, which is the result for the next line. -/
def visitLine (sites : Site.Table) (baseline previous : Sample) (p : Placed) : Writing Sample := do
  let site ← siteOf sites p.visit.function
  let relative ← cost p.visit.sample baseline
  let change ← cost relative previous
  line (Text.right 4 (toString p.width) ++ " " ++ "".pushn ' ' (2 * p.visit.depth) ++
    mark p.visit.boundary ++ " " ++ Text.left 28 relative.text ++ " " ++
    Text.left 28 change.text ++ " " ++ siteColumns site)
  return relative

/-- Writes the visits of a forest and counts them. -/
def forest (f : Forest) (order : Order) (baseline : Sample) (sites : Site.Table) :
    Writing Nat := do
  line (banner " DUMP of call sequence ")
  let visits := f.visits order
  let _ ← visits.foldlM (visitLine sites baseline) Sample.zero
  line (banner (" DUMP of call sequence ENDS [" ++ toString visits.length ++ "] "))
  return visits.length

/-- Writes the table of sites. -/
def siteTable (sites : Site.Table) : Writing Unit := do
  line (banner (" DUMP of function encoder [" ++ toString sites.size ++ "] "))
  sites.entries.forM fun (n, s) => line (Text.right 4 (toString n) ++ " " ++ siteColumns s)
  line (banner " DUMP of function encoder ENDS ")

/-- Writes a number in its column. -/
def figure (title : String) (n : Nat) : Writing Unit :=
  line (title ++ ": " ++ Text.right 10 (toString n))

/-- Writes two samples and their difference. -/
def range (titleFrom titleTo : String) (first last : Sample) : Writing Unit := do
  line (titleFrom ++ ": " ++ first.text)
  line (titleTo ++ ": " ++ last.text)
  let d ← cost last first
  line ("              Difference: " ++ d.text)

/-- Writes the figures of a session. -/
def summary (s : Session) : Writing Unit := do
  let kept := s.forest.nodeCount
  let dropped := s.forest.droppedCount
  figure "memtrace functions total" (kept + dropped)
  figure "   memtrace filtered out" dropped
  figure " memtrace functions kept" kept
  figure "   memtrace total events" s.tally.total
  line ("    memtrace event count: calls=" ++ toString s.tally.calls ++ " returns=" ++
    toString s.tally.returns ++ " skipped=" ++ toString s.tally.skipped)
  match s.least, s.greatest with
  | some least, some greatest =>
    range "       memtrace data_min" "       memtrace data_max" least greatest
  | _, _ => pure ()
  match s.final with
  | none => line ("   memtrace data_initial: " ++ s.initial.text)
  | some final => range "   memtrace data_initial" "     memtrace data_final" s.initial final

/-- The sample that the visits of a session are shown relative to. -/
def baseline (s : Session) : Sample := s.least.getD Sample.zero

end Dump

end CallForest
