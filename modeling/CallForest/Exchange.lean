import CallForest.Boundary
import CallForest.Json.Record
import CallForest.Sample
import CallForest.Site.Basic

/-!
# Samples, sites and boundaries as JSON

Samples and sites are records; a boundary is a word.
-/

namespace CallForest

namespace Sample

/-- A sample as a record. -/
def schema : Json.Schema := ⟨"Measurement", [⟨"time", .real⟩, ⟨"memory", .int64⟩]⟩

/-- The fields of a sample. -/
def toRow (s : Sample) : Json.Row schema.fields := (s.time, s.memory, ())

/-- The sample with given fields. -/
def ofRow : Json.Row schema.fields → Sample
  | (time, memory, ()) => ⟨time, memory⟩

/-- A sample as JSON. -/
def toValue (s : Sample) : Json.Value := schema.toValue s.toRow

/-- The sample that a text stands for. -/
def parse (text : List Char) : Except Json.Failure Sample := (schema.parse text).map ofRow

@[simp] theorem ofRow_toRow (s : Sample) : ofRow s.toRow = s := rfl

end Sample

namespace Site

/-- A site as a record. -/
def schema : Json.Schema :=
  ⟨"FunctionLocation", [⟨"filename", .text⟩, ⟨"function", .text⟩, ⟨"lineno", .nat32⟩]⟩

/-- The fields of a site. -/
def toRow (s : Site) : Json.Row schema.fields := (s.file, s.function, s.line, ())

/-- The site with given fields. -/
def ofRow : Json.Row schema.fields → Site
  | (file, function, line, ()) => ⟨file, function, line⟩

/-- A site as JSON. -/
def toValue (s : Site) : Json.Value := schema.toValue s.toRow

/-- The site that a text stands for. -/
def parse (text : List Char) : Except Json.Failure Site := (schema.parse text).map ofRow

@[simp] theorem ofRow_toRow (s : Site) : ofRow s.toRow = s := rfl

end Site

namespace Boundary

/-- The words for the boundaries. -/
def words : List (String × Boundary) := [(enter.word, enter), (leave.word, leave)]

/-- A boundary as JSON. -/
def toValue (b : Boundary) : Json.Value := .text b.word

/-- The boundary that a text stands for. -/
def parse (text : List Char) : Except Json.Failure Boundary := Json.whole (Json.readWord words) text

end Boundary

end CallForest
