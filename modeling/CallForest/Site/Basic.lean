/-!
# Sites

A function is known by where it is declared.  A site is synthetic if no declared function stands
behind it: its file is a tag such as `<stdin>`, or its function is the body of a module or of a
comprehension.
-/

namespace CallForest

/-- Where a function is declared. -/
structure Site where
  file : String
  function : String
  line : UInt32
  deriving DecidableEq, Hashable, Repr, Inhabited

namespace Site

/-- The site as reports show it. -/
def text (s : Site) : String :=
  s.function ++ "() " ++ s.file ++ "#" ++ toString s.line.toNat

/-- The names of functions that nobody declared. -/
def syntheticFunctions : List String :=
  ["<dictcomp>", "<genexpr>", "<listcomp>", "<module>", "<setcomp>"]

/-- The file name starts with `<`, and a later `>` closes a tag that is not empty. -/
def startsWithTag (file : List Char) : Bool :=
  match file with
  | '<' :: _ :: rest => rest.any (· == '>')
  | _ => false

/-- No declared function stands behind the site. -/
def isSynthetic (s : Site) : Bool :=
  startsWithTag s.file.toList || syntheticFunctions.contains s.function

end Site

end CallForest
