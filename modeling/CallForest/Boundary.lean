import CallForest.Fault

/-!
# Boundaries

An event is seen at a boundary of a function: on entering it or on leaving it.
-/

namespace CallForest

/-- The boundary of a function at which an event is seen. -/
inductive Boundary where
  | enter
  | leave
  deriving DecidableEq, Repr, Inhabited

namespace Boundary

/-- The word for a boundary in logs and reports. -/
def word : Boundary → String
  | enter => "call"
  | leave => "return"

/-- The boundary that a word stands for. -/
def ofWord (s : String) : Except Fault Boundary :=
  if s = enter.word then .ok enter
  else if s = leave.word then .ok leave
  else .error (.unknownWord s)

@[simp] theorem ofWord_word (b : Boundary) : ofWord b.word = .ok b := by
  cases b <;> rfl

theorem ofWord_eq_ok_iff {s : String} {b : Boundary} : ofWord s = .ok b ↔ s = b.word := by
  constructor
  · intro h
    unfold ofWord at h
    split at h
    · rename_i hs
      cases h
      exact hs
    · split at h
      · rename_i hs
        cases h
        exact hs
      · cases h
  · rintro rfl
    exact ofWord_word b

end Boundary

end CallForest
