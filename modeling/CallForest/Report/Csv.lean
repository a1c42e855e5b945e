import CallForest.CostTable

/-!
# Comma-separated rows

The visits of a forest, or the costs of its functions, one record a line after a line of headings.
A field is quoted if it holds a comma, a quote or a newline, and a quote in it is then written
twice.
-/

namespace CallForest

namespace Csv

/-- The field has to be quoted. -/
def needsQuotes (field : List Char) : Bool := field.any fun c => c == ',' || c == '"' || c == '\n'

/-- Every quote twice. -/
def doubled (field : List Char) : List Char :=
  field.flatMap fun c => if c = '"' then ['"', '"'] else [c]

/-- A field as it stands in a record. -/
def field (s : String) : String :=
  if needsQuotes s.toList then String.ofList ('"' :: doubled s.toList ++ ['"']) else s

/-- A record and its end. -/
def record (fields : List String) : String := ",".intercalate fields ++ "\n"

/-- A visit with the site of its function. -/
structure Row where
  placed : Placed
  site : Site

/-- The rows of a forest. -/
def rowsOf (f : Forest) (order : Order) (sites : Site.Table) : Except Fault (List Row) :=
  (f.visits order).mapM fun p => (sites.site? p.visit.function).map (⟨p, ·⟩)

/-- The headings, with or without the column of sites. -/
def headings (withSource : Bool) : List String :=
  ["width", "depth", "event", "function_id", "function", "time", "memory"] ++
    if withSource then ["source_location"] else []

/-- The fields of a row. -/
def Row.fields (withSource : Bool) (r : Row) : List String :=
  let v := r.placed.visit
  [toString r.placed.width, toString v.depth, v.boundary.word, toString v.function,
      field r.site.function, Decimal.fixed 6 v.sample.time.toFloat,
      toString v.sample.memory.toInt] ++
    if withSource then [field (r.site.file ++ ":" ++ toString r.site.line.toNat)] else []

/-- The text of rows with their headings. -/
def text (withSource : Bool) (rows : List Row) : String :=
  record (headings withSource) ++ String.join (rows.map fun r => record (r.fields withSource))

/-- The fields of the costs of a function; one without a site has no name. -/
def costFields (sites : Site.Table) (entry : Nat × Cost) : List String :=
  let (function, c) := entry
  let name :=
    match sites.site? function with
    | .ok s => s.function
    | .error _ => ""
  [toString function, field name, toString c.count, Decimal.fixed 6 c.time.toFloat,
    toString c.memory.toInt]

/-- The text of a cost table with its headings. -/
def costs (t : CostTable) (sites : Site.Table) : String :=
  record ["function_id", "function", "calls", "total_time", "total_memory"] ++
    String.join (t.sorted.map fun entry => record (costFields sites entry))

end Csv

end CallForest
