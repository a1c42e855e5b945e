import CallForest.Proofs.Numbering
import Mathlib.Data.Finset.Card
import Mathlib.Data.List.Nodup

/-!
# Numbers in the order of appearance

A table of sites is asked for one site after the other.  A site without a line is refused, a site
that has a number gets it again, and any other gets the next number.

* `Table.run`, `Table.answers`: the table after several sites were asked for, and what became of
  each of them;
* `Table.exists_numbers_run_iff`: what has a number then, and `Table.numbers_run_of_answers`: the
  numbers given out are those of the table at the end;
* `Table.size_run_empty`: a new table gets as many numbers as there are different sites;
* `Table.answers_of_appearance`: which number each site gets, and what the table says of it later.
-/

namespace CallForest

namespace Site

/-- How many different sites there are, those without a line apart. -/
def distinctCount (ss : List Site) : Nat := (ss.filter (·.line ≠ 0)).toFinset.card

namespace Table

/-- What becomes of a site that a table is asked for. -/
def answer (t : Table) (s : Site) : Except Fault Nat := (t.number s).map Prod.fst

/-- The table after it was asked for a site. -/
def after (t : Table) (s : Site) : Table :=
  match t.number s with
  | .ok (_, t') => t'
  | .error _ => t

/-- The table after it was asked for several sites. -/
def run (t : Table) : List Site → Table
  | [] => t
  | s :: ss => (t.after s).run ss

/-- What becomes of each of several sites. -/
def answers (t : Table) : List Site → List (Except Fault Nat)
  | [] => []
  | s :: ss => t.answer s :: (t.after s).answers ss

variable {t : Table} {s u : Site} {n : Nat}

/-! ### One site -/

theorem answer_of_noLine (t : Table) (h : s.line = 0) :
    t.answer s = .error (.lineBelowOne 0) ∧ t.after s = t := by
  rw [answer, after, number, if_pos h, h]
  exact ⟨rfl, rfl⟩

theorem exists_answer (t : Table) (h : s.line ≠ 0) : ∃ n, t.answer s = .ok n := by
  obtain ⟨⟨n, t'⟩, hn⟩ := (t.exists_number_iff s).2 h
  exact ⟨n, by rw [answer, hn]; rfl⟩

/-- A site that has no number yet gets the next one. -/
theorem answer_of_new (h : s.line ≠ 0) (hs : t.numbers[s]? = none) :
    t.answer s = .ok t.sites.size := by
  rw [answer, number, if_neg h, hs]
  rfl

theorem numbers_after_of_answer (h : t.answer s = .ok n) : (t.after s).numbers[s]? = some n := by
  rw [answer] at h
  rw [after]
  cases hn : t.number s with
  | error fault =>
    rw [hn] at h
    cases h
  | ok r =>
    rw [hn] at h
    cases h
    exact (number_spec hn).1

theorem extends_after (t : Table) (s : Site) : t.Extends (t.after s) := by
  rw [after]
  cases hn : t.number s with
  | error fault => exact .refl t
  | ok r => exact (number_spec hn).2.1

theorem Consistent.after (h : t.Consistent) (s : Site) : (t.after s).Consistent := by
  rw [Table.after]
  cases hn : t.number s with
  | error fault => exact h
  | ok r => exact (number_spec hn).2.2 h

theorem size_eq_after (h : t.numbers.size = t.sites.size) (s : Site) :
    (t.after s).numbers.size = (t.after s).sites.size := by
  rw [after]
  cases hn : t.number s with
  | error fault => exact h
  | ok r => exact size_eq_of_number hn h

/-- A site that is asked for has a number afterwards if it has a line, and no other site gets
one. -/
theorem exists_numbers_after_iff (t : Table) (s u : Site) :
    (∃ n, (t.after s).numbers[u]? = some n) ↔
      (∃ n, t.numbers[u]? = some n) ∨ u = s ∧ u.line ≠ 0 := by
  constructor
  · rintro ⟨n, hn⟩
    by_cases hline : s.line = 0
    · rw [(t.answer_of_noLine hline).2] at hn
      exact .inl ⟨n, hn⟩
    · obtain ⟨⟨m, t'⟩, hm⟩ := (t.exists_number_iff s).2 hline
      rw [after, hm] at hn
      obtain rfl | hn := eq_or_of_number hm hn
      · exact .inr ⟨rfl, hline⟩
      · exact .inl ⟨n, hn⟩
  · rintro (⟨n, hn⟩ | ⟨rfl, hline⟩)
    · exact ⟨n, t.extends_after s u n hn⟩
    · obtain ⟨n, hn⟩ := t.exists_answer hline
      exact ⟨n, numbers_after_of_answer hn⟩

/-! ### Several sites -/

theorem extends_run (t : Table) (ss : List Site) : t.Extends (t.run ss) := by
  induction ss generalizing t with
  | nil => exact .refl t
  | cons s ss ih => exact (t.extends_after s).trans (ih (t.after s))

theorem Consistent.run (h : t.Consistent) (ss : List Site) : (t.run ss).Consistent := by
  induction ss generalizing t with
  | nil => exact h
  | cons s ss ih => exact ih (h.after s)

theorem size_eq_run (h : t.numbers.size = t.sites.size) (ss : List Site) :
    (t.run ss).numbers.size = (t.run ss).sites.size := by
  induction ss generalizing t with
  | nil => exact h
  | cons s ss ih => exact ih (size_eq_after h s)

/-- What has a number after several sites were asked for. -/
theorem exists_numbers_run_iff (t : Table) (ss : List Site) (u : Site) :
    (∃ n, (t.run ss).numbers[u]? = some n) ↔
      (∃ n, t.numbers[u]? = some n) ∨ u ∈ ss ∧ u.line ≠ 0 := by
  induction ss generalizing t with
  | nil => simp [run]
  | cons s ss ih =>
    rw [run, ih, exists_numbers_after_iff, List.mem_cons]
    tauto

/-- **The numbers given out are those that the sites have at the end.** -/
theorem numbers_run_of_answers {ss : List Site} {i : Nat}
    (h : (t.answers ss)[i]? = some (.ok n)) :
    ∃ s, ss[i]? = some s ∧ (t.run ss).numbers[s]? = some n := by
  induction ss generalizing t i with
  | nil => simp [answers] at h
  | cons s ss ih =>
    cases i with
    | zero =>
      have hs : t.answer s = .ok n := Option.some.inj h
      exact ⟨s, rfl, (t.after s).extends_run ss s n (numbers_after_of_answer hs)⟩
    | succ i => exact ih h

theorem getElem?_answers_append (t : Table) (before later : List Site) (s : Site) :
    (t.answers (before ++ s :: later))[before.length]? = some ((t.run before).answer s) := by
  induction before generalizing t with
  | nil => rfl
  | cons u before ih => exact ih (t.after u)

/-! ### What a table holds -/

theorem Consistent.nodup_sites (h : t.Consistent) : t.sites.toList.Nodup := by
  rw [List.nodup_iff_getElem?_ne_getElem?]
  intro i j hij hj heq
  have hsome : t.sites[j]? = some t.sites[j] := Array.getElem?_eq_getElem (by simpa using hj)
  have hi : t.sites[i]? = some t.sites[j] := by
    rw [← hsome, ← Array.getElem?_toList, heq, Array.getElem?_toList]
  -- The site at both places has one number only.
  have hnumber := ((h _ i).2 hi).symm.trans ((h _ j).2 hsome)
  exact Nat.ne_of_lt hij (Option.some.inj hnumber)

theorem Consistent.mem_sites_iff (h : t.Consistent) :
    s ∈ t.sites.toList ↔ ∃ n, t.numbers[s]? = some n := by
  rw [List.mem_iff_getElem?]
  exact exists_congr fun n => by rw [Array.getElem?_toList, h s n]

/-- A new table gets as many numbers as there are different sites. -/
theorem size_run_empty (ss : List Site) : (empty.run ss).sites.size = distinctCount ss := by
  have hconsistent := consistent_empty.run ss
  have hsame : (empty.run ss).sites.toList.toFinset = (ss.filter (·.line ≠ 0)).toFinset := by
    ext s
    rw [List.mem_toFinset, List.mem_toFinset, hconsistent.mem_sites_iff, exists_numbers_run_iff]
    simp [empty]
  rw [distinctCount, ← hsame, List.toFinset_card_of_nodup hconsistent.nodup_sites,
    Array.length_toList]

theorem exists_site?_iff (t : Table) (n : Nat) : (∃ s, t.site? n = .ok s) ↔ n < t.sites.size := by
  simp only [site?_eq_ok_iff]
  exact ⟨fun ⟨_, hs⟩ => (Array.getElem?_eq_some_iff.1 hs).1,
    fun hn => ⟨_, Array.getElem?_eq_getElem hn⟩⟩

theorem map_fst_entries (t : Table) : t.entries.map Prod.fst = List.range t.sites.size := by
  rw [entries, List.map_map]
  change t.sites.toList.zipIdx.map Prod.snd = _
  rw [List.zipIdx_map_snd, Array.length_toList, List.range_eq_range']

theorem mem_entries_iff (t : Table) (n : Nat) (s : Site) :
    (n, s) ∈ t.entries ↔ t.site? n = .ok s := by
  rw [site?_eq_ok_iff, ← Array.getElem?_toList, ← List.mk_mem_zipIdx_iff_getElem?, entries]
  simp

/-- A consistent table passes its check. -/
theorem Consistent.integrity (h : t.Consistent) (hsize : t.numbers.size = t.sites.size) :
    t.integrity = true := by
  rw [Table.integrity, Bool.and_eq_true, beq_iff_eq, List.all_eq_true]
  refine ⟨hsize, fun ⟨s, n⟩ hmem => ?_⟩
  rw [beq_iff_eq]
  exact (h s n).1 (Std.HashMap.mem_toList_iff_getElem?_eq_some.1 hmem)

/-- **Sites are numbered in the order of their first appearance.**  Whatever sites a new table is
asked for, two of them get the same number just if they are the same; a site that appears for the
first time gets the number of different sites before it; and whatever is asked for later, a number
leads back to the site that it was given out for.  The table has as many numbers as there were
different sites, those that lead to a site and that its entries list in ascending order; it passes
its check.  Any site with a line gets a number, and one without a line changes nothing. -/
theorem answers_of_appearance (ss : List Site) :
    let t := empty.run ss
    let answers := empty.answers ss
    (∀ i j n m : Nat, answers[i]? = some (Except.ok n) → answers[j]? = some (Except.ok m) →
      (n = m ↔ ss[i]? = ss[j]?)) ∧
    (∀ before s later, ss = before ++ s :: later → s.line ≠ 0 → s ∉ before →
      answers[before.length]? = some (Except.ok (distinctCount before))) ∧
    (∀ (i n : Nat) (later : List Site), answers[i]? = some (Except.ok n) →
      ∃ s, ss[i]? = some s ∧ (t.run later).site? n = .ok s) ∧
    (∀ n, (∃ s, t.site? n = .ok s) ↔ n < t.size) ∧
    t.size = distinctCount ss ∧
    t.entries.map Prod.fst = List.range t.size ∧
    (∀ n s, (n, s) ∈ t.entries ↔ t.site? n = .ok s) ∧
    t.integrity = true ∧
    (∀ s, s.line ≠ 0 → ∃ n, t.answer s = .ok n) ∧
    ∀ s, s.line = 0 → t.answer s = .error (.lineBelowOne 0) ∧ t.after s = t := by
  intro t answers
  have hconsistent : t.Consistent := consistent_empty.run ss
  have hsizes : t.numbers.size = t.sites.size := size_eq_run rfl ss
  have hsize : t.size = t.sites.size := hsizes
  refine ⟨fun i j n m hi hj => ?_, fun before s later hss hline hnew => ?_,
    fun i n later hi => ?_, ?_, ?_, ?_, t.mem_entries_iff, hconsistent.integrity hsizes,
    fun s => t.exists_answer, fun s => t.answer_of_noLine⟩
  · obtain ⟨s, hs, hn⟩ := numbers_run_of_answers hi
    obtain ⟨u, hu, hm⟩ := numbers_run_of_answers hj
    rw [hs, hu, Option.some.injEq]
    constructor
    · rintro rfl
      exact Option.some.inj (((hconsistent s n).1 hn).symm.trans ((hconsistent u n).1 hm))
    · rintro rfl
      exact Option.some.inj (hn.symm.trans hm)
  · have hnone : (empty.run before).numbers[s]? = none := by
      rw [Option.eq_none_iff_forall_ne_some]
      intro n hn
      obtain ⟨m, hm⟩ | ⟨hmem, -⟩ := (exists_numbers_run_iff empty before s).1 ⟨n, hn⟩
      · simp [empty] at hm
      · exact hnew hmem
    change (empty.answers ss)[before.length]? = _
    rw [hss, getElem?_answers_append, answer_of_new hline hnone, size_run_empty]
  · obtain ⟨s, hs, hn⟩ := numbers_run_of_answers hi
    refine ⟨s, hs, site?_eq_ok_iff.2 ?_⟩
    exact (hconsistent.run later s n).1 (t.extends_run later s n hn)
  · rw [hsize]
    exact t.exists_site?_iff
  · rw [hsize]
    exact size_run_empty ss
  · rw [hsize]
    exact t.map_fst_entries

/-- A site without a line is passed by: the next new one gets the next number. -/
theorem answers_of_appearance_after_noLine :
    let main : Site := ⟨"app.py", "main", 3⟩
    let bad : Site := ⟨"app.py", "bad", 0⟩
    let other : Site := ⟨"app.py", "other", 7⟩
    other.line ≠ 0 ∧ other ∉ [main, bad, main] ∧
      (empty.answers [main, bad, main, other, main])[3]? = some (.ok 1) := by
  intro main bad other
  have hline : other.line ≠ 0 := by decide
  have hnew : other ∉ [main, bad, main] := by decide
  have hcount : distinctCount [main, bad, main] = 1 := by decide
  obtain ⟨-, happears, -⟩ := answers_of_appearance [main, bad, main, other, main]
  have hanswer := happears [main, bad, main] other [main] rfl hline hnew
  rw [hcount] at hanswer
  exact ⟨hline, hnew, hanswer⟩

end Table

end Site

end CallForest
