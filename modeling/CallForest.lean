import CallForest.Main
import CallForest.Proofs.Nesting
import CallForest.Proofs.Pruning
import CallForest.Proofs.DepthFirst
import CallForest.Proofs.Rebuilding
import CallForest.Proofs.LevelOrder
import CallForest.Proofs.Enumeration
import CallForest.Proofs.Shape
import CallForest.Proofs.Conservation
import CallForest.Proofs.Numbering
import CallForest.Proofs.Recording
import CallForest.Proofs.Splicing
import CallForest.Proofs.Skipping
import CallForest.Proofs.Charging
import CallForest.Proofs.Episodes
import CallForest.Proofs.Telling
import CallForest.Proofs.Operations
import CallForest.Proofs.Fidelity
import CallForest.Proofs.Renumbering
import CallForest.Proofs.Failures
import CallForest.Proofs.Balance
import CallForest.Proofs.Entries
import CallForest.Proofs.Acceptance
import CallForest.Proofs.Replaying
import CallForest.Proofs.Freezing
import CallForest.Proofs.Fields
import CallForest.Proofs.RoundTrip
import CallForest.Proofs.Appearance
import CallForest.Proofs.Exports
import CallForest.Proofs.Overflows
import CallForest.Proofs.Erasing
import CallForest.Proofs.Intake
import CallForest.Proofs.Extremes
import CallForest.Proofs.Census
import CallForest.Proofs.Tallies
import CallForest.Proofs.Dumping
import CallForest.Proofs.Shifting
import CallForest.Proofs.LineEnds
import CallForest.Proofs.LineNumbers
import CallForest.Proofs.Layouts
import CallForest.Proofs.Delegation
import CallForest.Proofs.Measuring
import CallForest.Proofs.Accounting
import CallForest.Proofs.Ranking
import CallForest.Proofs.Grouping
import CallForest.Proofs.Iteration
import CallForest.Proofs.OpenPaths
import CallForest.Proofs.Inverses
import CallForest.Proofs.Descent
