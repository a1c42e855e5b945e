import CallForest.Fault
import CallForest.Site.Basic
import Std.Data.HashMap

/-!
# The table of sites

Every site gets a number when it is first seen: `0, 1, 2, …` in that order.  The table holds both
directions, a map from sites to numbers and the sites in the order of their numbers;
`Table.integrity` checks that they agree.
-/

namespace CallForest

namespace Site

/-- The numbers of sites and the sites of numbers. -/
structure Table where
  numbers : Std.HashMap Site Nat
  sites : Array Site

namespace Table

/-- The table without sites. -/
def empty : Table := ⟨∅, #[]⟩

variable (t : Table)

/-- The number of sites. -/
def size : Nat := t.numbers.size

/-- No site has a number. -/
def isEmpty : Bool := t.numbers.isEmpty

/-- The number of a site in the table after it; a new site gets the next number. -/
def number (s : Site) : Except Fault (Nat × Table) :=
  if s.line = 0 then .error (.lineBelowOne s.line.toNat)
  else
    match t.numbers[s]? with
    | some n => .ok (n, t)
    | none => .ok (t.sites.size, ⟨t.numbers.insert s t.sites.size, t.sites.push s⟩)

/-- The site that has a number. -/
def site? (n : Nat) : Except Fault Site :=
  match t.sites[n]? with
  | some s => .ok s
  | none => .error (.unknownFunction n)

/-- The numbers with their sites, in ascending order. -/
def entries : List (Nat × Site) := t.sites.toList.zipIdx.map fun p => (p.2, p.1)

/-- The map has as many sites as there are numbers, and leads each of them to its number. -/
def integrity : Bool :=
  t.numbers.size == t.sites.size && t.numbers.toList.all fun p => t.sites[p.2]? == some p.1

end Table

end Site

end CallForest
