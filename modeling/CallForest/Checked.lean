/-!
# Arithmetic that stays in range

Memory sizes are signed 64-bit integers.  A difference, sum or magnitude that leaves their range
is reported as an `Overflow` and never wraps around.
-/

namespace CallForest

/-- The operation whose result is no signed 64-bit integer. -/
inductive Overflow where
  | subtract
  | add
  | negate
  deriving DecidableEq, Repr

namespace Overflow

/-- The report of an overflow. -/
def message : Overflow → String
  | subtract => "attempt to subtract with overflow"
  | add => "attempt to add with overflow"
  | negate => "attempt to negate with overflow"

end Overflow

namespace Checked

/-- The integer is a signed 64-bit one. -/
def InRange (n : Int) : Prop := Int64.minValue.toInt ≤ n ∧ n ≤ Int64.maxValue.toInt

instance (n : Int) : Decidable (InRange n) := inferInstanceAs (Decidable (_ ∧ _))

/-- The integer as a signed 64-bit one, or the overflow. -/
def ofInt (cause : Overflow) (n : Int) : Except Overflow Int64 :=
  if InRange n then .ok (Int64.ofInt n) else .error cause

/-- The difference `a - b`. -/
def sub (a b : Int64) : Except Overflow Int64 := ofInt .subtract (a.toInt - b.toInt)

/-- The sum `a + b`. -/
def add (a b : Int64) : Except Overflow Int64 := ofInt .add (a.toInt + b.toInt)

/-- The magnitude of `a`; the least integer has none. -/
def abs (a : Int64) : Except Overflow Int64 := ofInt .negate a.toInt.natAbs

theorem inRange_toInt (a : Int64) : InRange a.toInt := ⟨a.minValue_le_toInt, a.toInt_le⟩

theorem toInt_ofInt_of_inRange {n : Int} (h : InRange n) : (Int64.ofInt n).toInt = n :=
  Int64.toInt_ofInt_of_le h.1 (Int.lt_add_one_of_le h.2)

theorem ofInt_eq_ok_iff {cause : Overflow} {n : Int} {a : Int64} :
    ofInt cause n = .ok a ↔ a.toInt = n := by
  unfold ofInt
  split
  · rename_i h
    rw [Except.ok.injEq]
    constructor
    · rintro rfl
      exact toInt_ofInt_of_inRange h
    · rintro rfl
      exact Int64.ofInt_toInt a
  · rename_i h
    simp only [reduceCtorEq, false_iff]
    rintro rfl
    exact h (inRange_toInt a)

theorem ofInt_eq_error_iff {cause o : Overflow} {n : Int} :
    ofInt cause n = .error o ↔ o = cause ∧ ¬InRange n := by
  unfold ofInt
  split <;> simp_all [eq_comm]

theorem sub_eq_ok_iff {a b d : Int64} : sub a b = .ok d ↔ d.toInt = a.toInt - b.toInt :=
  ofInt_eq_ok_iff

theorem add_eq_ok_iff {a b d : Int64} : add a b = .ok d ↔ d.toInt = a.toInt + b.toInt :=
  ofInt_eq_ok_iff

theorem abs_eq_ok_iff {a d : Int64} : abs a = .ok d ↔ d.toInt = a.toInt.natAbs :=
  ofInt_eq_ok_iff

end Checked

end CallForest
