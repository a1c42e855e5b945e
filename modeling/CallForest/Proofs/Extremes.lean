import CallForest.Proofs.Intake
import Mathlib

/-!
# The extremes of a session

A session keeps the componentwise minimum and maximum of samples.  They are those of the events
taken in, dropped ones included, and are missing as long as there are none; so they bound the memory
of everything that the forest still shows.

* `Sample.reduce?`: samples brought together one after the other;
* `Sample.Bounding.of_reduce?`: bringing together by minimum or maximum gives a bound of the
  memories, and one that some sample attains;
* `Session.extremes_run`: what operations make of the extremes;
* `Session.extremes_of_accepted`: the extremes of every session that operations can reach.
-/

namespace CallForest

namespace Sample

/-! ### Bringing samples together -/

/-- One more sample, brought together with those before it. -/
def joinNext (join : Sample → Sample → Sample) (m : Option Sample) (x : Sample) : Option Sample :=
  some (match m with | none => x | some m => join m x)

/-- Samples brought together from the first to the last. -/
def reduce? (join : Sample → Sample → Sample) : List Sample → Option Sample
  | [] => none
  | x :: xs => some (xs.foldl join x)

variable {join : Sample → Sample → Sample}

theorem foldl_joinNext_some (xs : List Sample) (m : Sample) :
    xs.foldl (joinNext join) (some m) = some (xs.foldl join m) := by
  induction xs generalizing m with
  | nil => rfl
  | cons x xs ih => exact ih (join m x)

theorem foldl_joinNext_none (xs : List Sample) :
    xs.foldl (joinNext join) none = reduce? join xs := by
  rcases xs with _ | ⟨x, xs⟩
  · rfl
  · exact foldl_joinNext_some xs x

theorem reduce?_eq_none_iff {xs : List Sample} : reduce? join xs = none ↔ xs = [] := by
  rcases xs with _ | ⟨x, xs⟩ <;> simp [reduce?]

theorem exists_reduce?_of_mem {x : Sample} {xs : List Sample} (h : x ∈ xs) :
    ∃ m, reduce? join xs = some m :=
  Option.ne_none_iff_exists'.1 (mt reduce?_eq_none_iff.1 (List.ne_nil_of_mem h))

/-! ### Bounds of memories -/

/-- Bringing two samples together gives the memory of one of them, which bounds both. -/
structure Bounding (join : Sample → Sample → Sample) (bounds : Int64 → Int64 → Prop) : Prop where
  refl : ∀ a, bounds a a
  trans : ∀ {a b c}, bounds a b → bounds b c → bounds a c
  left : ∀ x y, bounds (join x y).memory x.memory
  right : ∀ x y, bounds (join x y).memory y.memory
  attained : ∀ x y, (join x y).memory = x.memory ∨ (join x y).memory = y.memory

theorem leastMemory_le (a b : Int64) : leastMemory a b ≤ a ∧ leastMemory a b ≤ b := by
  unfold leastMemory
  split_ifs with h
  · exact ⟨Int64.le_of_lt h, Int64.le_refl b⟩
  · exact ⟨Int64.le_refl a, Int64.not_lt.1 h⟩

theorem le_greatestMemory (a b : Int64) : a ≤ greatestMemory a b ∧ b ≤ greatestMemory a b := by
  unfold greatestMemory
  split_ifs with h
  · exact ⟨Int64.le_of_lt h, Int64.le_refl b⟩
  · exact ⟨Int64.le_refl a, Int64.not_lt.1 h⟩

theorem bounding_min : Bounding min (· ≤ ·) where
  refl := Int64.le_refl
  trans := Int64.le_trans
  left x y := (leastMemory_le x.memory y.memory).1
  right x y := (leastMemory_le x.memory y.memory).2
  attained x y := by
    simp only [min, leastMemory]
    split_ifs <;> simp

theorem bounding_max : Bounding max (fun a b => b ≤ a) where
  refl := Int64.le_refl
  trans h h' := Int64.le_trans h' h
  left x y := (le_greatestMemory x.memory y.memory).1
  right x y := (le_greatestMemory x.memory y.memory).2
  attained x y := by
    simp only [max, greatestMemory]
    split_ifs <;> simp

namespace Bounding

variable {bounds : Int64 → Int64 → Prop}

theorem of_foldl (h : Bounding join bounds) (x : Sample) (xs : List Sample) :
    (∀ y ∈ x :: xs, bounds (xs.foldl join x).memory y.memory) ∧
      ∃ y ∈ x :: xs, y.memory = (xs.foldl join x).memory := by
  induction xs generalizing x with
  | nil => simpa using h.refl x.memory
  | cons z xs ih =>
    obtain ⟨hbounds, y, hy, hmemory⟩ := ih (join x z)
    have hjoin := hbounds (join x z) List.mem_cons_self
    rw [List.foldl_cons]
    refine ⟨?_, ?_⟩
    · intro w hw
      rcases List.mem_cons.1 hw with rfl | hw
      · exact h.trans hjoin (h.left w z)
      · rcases List.mem_cons.1 hw with rfl | hw
        · exact h.trans hjoin (h.right x w)
        · exact hbounds w (List.mem_cons_of_mem _ hw)
    · rcases List.mem_cons.1 hy with rfl | hy
      · rcases h.attained x z with hx | hz
        · exact ⟨x, List.mem_cons_self, by rw [← hx, hmemory]⟩
        · exact ⟨z, by simp, by rw [← hz, hmemory]⟩
      · exact ⟨y, by simp [hy], hmemory⟩

/-- **What samples come to bounds them all**, and has the memory of one of them. -/
theorem of_reduce? (h : Bounding join bounds) {xs : List Sample} {m : Sample}
    (hm : reduce? join xs = some m) :
    (∀ x ∈ xs, bounds m.memory x.memory) ∧ ∃ x ∈ xs, x.memory = m.memory := by
  rcases xs with _ | ⟨x, xs⟩
  · cases hm
  · cases hm
    exact h.of_foldl x xs

end Bounding

end Sample

namespace Session

/-- What operations make of the extremes. -/
theorem extremes_run (s : Session) (ops : List Operation) :
    (s.run ops).least = ((s.accepted ops).map Event.sample).foldl (Sample.joinNext .min) s.least ∧
      (s.run ops).greatest =
        ((s.accepted ops).map Event.sample).foldl (Sample.joinNext .max) s.greatest := by
  induction ops generalizing s with
  | nil => exact ⟨rfl, rfl⟩
  | cons op ops ih =>
    obtain ⟨hleast, hgreatest⟩ := ih (s.after op)
    rw [run, accepted, List.map_append, List.foldl_append, List.foldl_append, hleast, hgreatest]
    rcases s.intake op with ⟨accepts, after⟩ | ⟨accepts, -, -, after⟩
    · rw [accepts, after]
      exact ⟨rfl, rfl⟩
    · rw [accepts, after]
      exact ⟨rfl, rfl⟩

section

variable (rule : Option Retention) (skipsSynthetic : Bool) (initial : Sample)
variable (ops : List Operation)

theorem least_run_start :
    ((start rule skipsSynthetic initial).run ops).least =
      Sample.reduce? .min (((start rule skipsSynthetic initial).accepted ops).map Event.sample) :=
  (extremes_run (start rule skipsSynthetic initial) ops).1.trans (Sample.foldl_joinNext_none _)

theorem greatest_run_start :
    ((start rule skipsSynthetic initial).run ops).greatest =
      Sample.reduce? .max (((start rule skipsSynthetic initial).accepted ops).map Event.sample) :=
  (extremes_run (start rule skipsSynthetic initial) ops).2.trans (Sample.foldl_joinNext_none _)

variable {rule skipsSynthetic initial ops}

/-- An extreme has the memory of an event taken in. -/
theorem exists_accepted_of_extreme {m : Sample}
    (hm : ((start rule skipsSynthetic initial).run ops).least = some m ∨
      ((start rule skipsSynthetic initial).run ops).greatest = some m) :
    ∃ e ∈ (start rule skipsSynthetic initial).accepted ops, e.sample.memory = m.memory := by
  have hmem : ∃ x ∈ ((start rule skipsSynthetic initial).accepted ops).map Event.sample,
      x.memory = m.memory := by
    rcases hm with hm | hm
    · rw [least_run_start] at hm
      exact (Sample.bounding_min.of_reduce? hm).2
    · rw [greatest_run_start] at hm
      exact (Sample.bounding_max.of_reduce? hm).2
  obtain ⟨x, hx, hmemory⟩ := hmem
  obtain ⟨e, he, rfl⟩ := List.mem_map.1 hx
  exact ⟨e, he, hmemory⟩

/-- The memory of a visit is between the extremes. -/
theorem exists_extremes_of_mem_visits {order : Order} {p : Placed}
    (hp : p ∈ ((start rule skipsSynthetic initial).run ops).forest.visits order) :
    ∃ least greatest, ((start rule skipsSynthetic initial).run ops).least = some least ∧
      ((start rule skipsSynthetic initial).run ops).greatest = some greatest ∧
      least.memory ≤ p.visit.sample.memory ∧ p.visit.sample.memory ≤ greatest.memory := by
  obtain ⟨e, he, hcrossing⟩ := exists_of_mem_visits rule skipsSynthetic initial ops hp
  have hsample : p.visit.sample = e.sample := congrArg Crossing.sample hcrossing
  have hmem := List.mem_map_of_mem (f := Event.sample) he
  rw [least_run_start, greatest_run_start, hsample]
  obtain ⟨least, hleast⟩ : ∃ m, Sample.reduce? .min _ = some m :=
    Sample.exists_reduce?_of_mem hmem
  obtain ⟨greatest, hgreatest⟩ : ∃ m, Sample.reduce? .max _ = some m :=
    Sample.exists_reduce?_of_mem hmem
  exact ⟨least, greatest, hleast, hgreatest,
    (Sample.bounding_min.of_reduce? hleast).1 _ hmem,
    (Sample.bounding_max.of_reduce? hgreatest).1 _ hmem⟩

end

/-- **The extremes are those of the events taken in.**  Whatever a session has been through, its
forest is that of the events taken in.  The extremes are their samples brought together by minimum
and by maximum, in their order and those of activations dropped since included, and are missing just
if there are no such events.  So every visit of the forest, in either order, has its memory between
the two, and each of the two has the memory of an event taken in. -/
theorem extremes_of_accepted (rule : Option Retention) (skipsSynthetic : Bool) (initial : Sample)
    (ops : List Operation) :
    let start := start rule skipsSynthetic initial
    let s := start.run ops
    let taken := start.accepted ops
    (taken.map (Event.crossing s.sites)).foldlM Forest.feed (.empty rule) = .ok s.forest ∧
    s.least = Sample.reduce? .min (taken.map Event.sample) ∧
    s.greatest = Sample.reduce? .max (taken.map Event.sample) ∧
    (s.least = none ↔ taken = []) ∧ (s.greatest = none ↔ taken = []) ∧
    (∀ order, ∀ p ∈ s.forest.visits order, ∃ least greatest,
      s.least = some least ∧ s.greatest = some greatest ∧
        least.memory ≤ p.visit.sample.memory ∧ p.visit.sample.memory ≤ greatest.memory) ∧
    (∀ m, s.least = some m ∨ s.greatest = some m → ∃ e ∈ taken, e.sample.memory = m.memory) := by
  intro start s taken
  have hleast : s.least = _ := least_run_start rule skipsSynthetic initial ops
  have hgreatest : s.greatest = _ := greatest_run_start rule skipsSynthetic initial ops
  refine ⟨foldlM_feed_accepted (s := start) ops, hleast, hgreatest, ?_, ?_, ?_, ?_⟩
  · rw [hleast, Sample.reduce?_eq_none_iff, List.map_eq_nil_iff]
  · rw [hgreatest, Sample.reduce?_eq_none_iff, List.map_eq_nil_iff]
  · intro order p hp
    exact exists_extremes_of_mem_visits hp
  · intro m hm
    exact exists_accepted_of_extreme hm

/-- A call that was dropped when it returned, and one that is still running: the forest shows the
second only, whose memory is between those of the first. -/
theorem extremes_of_dropped_call :
    let main : Site := ⟨"app.py", "main", 3⟩
    let other : Site := ⟨"app.py", "other", 7⟩
    let start := start (some (.ofTest "nothing" fun _ _ => false)) false .zero
    let ops : List Operation :=
      [.record ⟨.enter, main, ⟨.zero, 5⟩⟩, .record ⟨.leave, main, ⟨.zero, 9⟩⟩,
        .record ⟨.enter, other, ⟨.zero, 7⟩⟩]
    let s := start.run ops
    ∃ least greatest, s.least = some least ∧ s.greatest = some greatest ∧
      least.memory = 5 ∧ greatest.memory = 9 ∧
      (s.forest.visits .depth).map (·.visit.sample.memory) = [7] ∧
      (∀ p ∈ s.forest.visits .depth, least.memory ≤ p.visit.sample.memory ∧
        p.visit.sample.memory ≤ greatest.memory) ∧
      (∃ e ∈ start.accepted ops, e.sample.memory = least.memory) ∧
      ∃ e ∈ start.accepted ops, e.sample.memory = greatest.memory := by
  intro main other start ops s
  obtain ⟨hleast, hgreatest, hvisits⟩ :
      s.least.map Sample.memory = some 5 ∧ s.greatest.map Sample.memory = some 9 ∧
        (s.forest.visits .depth).map (·.visit.sample.memory) = [7] := by
    subst s start ops main other
    cbv
  obtain ⟨least, hl, hleast⟩ := Option.map_eq_some_iff.1 hleast
  obtain ⟨greatest, hg, hgreatest⟩ := Option.map_eq_some_iff.1 hgreatest
  obtain ⟨-, -, -, -, -, hbounds, hattained⟩ := extremes_of_accepted
    (some (.ofTest "nothing" fun _ _ => false)) false .zero ops
  refine ⟨least, greatest, hl, hg, hleast, hgreatest, hvisits, ?_, hattained least (.inl hl),
    hattained greatest (.inr hg)⟩
  intro p hp
  obtain ⟨least', greatest', hl', hg', hp⟩ := hbounds .depth p hp
  rw [Option.some.inj (hl'.symm.trans hl), Option.some.inj (hg'.symm.trans hg)] at hp
  exact hp

end Session

end CallForest
