import CallForest.CostTable
import CallForest.Proofs.History
import Mathlib.Algebra.Ring.Int.Defs
import Mathlib.Data.List.Induction

/-!
# What costs add up to

A table of costs is charged invocation by invocation, and the four figures of a function are carried
along under arithmetic that stops out of range.  They depend on the costs of that function only, in
their order, and are what a look at all of them together would give.

* `Cost.add_eq`: all that one more invocation does to the figures of a function;
* `Cost.Accounts`: the figures in terms of all costs, which `Cost.Accounts.concat` keeps;
* `CostTable.Books`: a table holds the figures of each function, and every charge keeps it so;
* `CostTable.costs_of_charges`: the figures after any charges, and when the next charge overflows.
-/

namespace CallForest

namespace Checked

/-- The least integer is the only one without a magnitude. -/
theorem inRange_natAbs_iff (a : Int64) : InRange a.toInt.natAbs ↔ a ≠ Int64.minValue := by
  have hle : a.toInt ≤ 2 ^ 63 - 1 := a.toInt_le
  have hge : -2 ^ 63 ≤ a.toInt := a.le_toInt
  have hmin : a = Int64.minValue ↔ a.toInt = -2 ^ 63 := Int64.toInt_inj.symm
  have hrange : InRange a.toInt.natAbs ↔
      -2 ^ 63 ≤ (a.toInt.natAbs : Int) ∧ (a.toInt.natAbs : Int) ≤ 2 ^ 63 - 1 := Iff.rfl
  rw [hrange, ne_eq, hmin]
  omega

theorem abs_eq (a : Int64) :
    abs a = if a = Int64.minValue then .error .negate else .ok (Int64.ofInt a.toInt.natAbs) := by
  rw [abs, ofInt]
  by_cases h : a = Int64.minValue
  · rw [if_pos h, if_neg fun hrange => (inRange_natAbs_iff a).1 hrange h]
  · rw [if_neg h, if_pos ((inRange_natAbs_iff a).2 h)]

end Checked

namespace Cost

/-! ### One more invocation -/

/-- **All that one more invocation does.**  The sum is taken first and the magnitude after it; the
magnitude of a peak is no concern. -/
theorem add_eq {c : Cost} (hpeak : c.peak ≠ Int64.minValue) (d : Sample) :
    c.add d =
      if Checked.InRange (c.memory.toInt + d.memory.toInt) then
        if d.memory = Int64.minValue then .error .negate
        else .ok {
          count := c.count + 1
          time := c.time + d.time
          memory := Int64.ofInt (c.memory.toInt + d.memory.toInt)
          peak :=
            if c.peak.toInt.natAbs < d.memory.toInt.natAbs then d.memory else c.peak }
      else .error .add := by
  rw [add, Checked.add, Checked.ofInt]
  by_cases hsum : Checked.InRange (c.memory.toInt + d.memory.toInt)
  · rw [if_pos hsum, if_pos hsum, Checked.abs_eq, Checked.abs_eq, if_neg hpeak]
    by_cases hd : d.memory = Int64.minValue
    · rw [if_pos hd, if_pos hd]
      rfl
    · rw [if_neg hd, if_neg hd]
      have hlt : Int64.ofInt c.peak.toInt.natAbs < Int64.ofInt d.memory.toInt.natAbs ↔
          c.peak.toInt.natAbs < d.memory.toInt.natAbs := by
        rw [Int64.lt_iff_toInt_lt,
          Checked.toInt_ofInt_of_inRange ((Checked.inRange_natAbs_iff _).2 hpeak),
          Checked.toInt_ofInt_of_inRange ((Checked.inRange_natAbs_iff _).2 hd), Int.ofNat_lt]
      simp only [bind, Except.bind, pure, Except.pure, hlt]
  · rw [if_neg hsum, if_neg hsum]
    rfl

/-- The peak of some changes is the first of those with the greatest magnitude; it is zero as long
as all of them are. -/
def IsPeak (peak : Int64) (ds : List Sample) : Prop :=
  (peak = 0 ∧ ∀ d ∈ ds, d.memory = 0) ∨
  ∃ before d after, ds = before ++ d :: after ∧ peak = d.memory ∧ d.memory ≠ 0 ∧
    (∀ e ∈ before, e.memory.toInt.natAbs < d.memory.toInt.natAbs) ∧
    ∀ e ∈ after, e.memory.toInt.natAbs ≤ d.memory.toInt.natAbs

theorem IsPeak.natAbs_le {peak : Int64} {ds : List Sample} (h : IsPeak peak ds) :
    ∀ d ∈ ds, d.memory.toInt.natAbs ≤ peak.toInt.natAbs := by
  intro d hd
  obtain ⟨rfl, hzero⟩ | ⟨before, e, after, rfl, rfl, -, hbefore, hafter⟩ := h
  · exact Nat.le_of_eq (congrArg (·.toInt.natAbs) (hzero d hd))
  · rcases List.mem_append.1 hd with hd | hd
    · exact Nat.le_of_lt (hbefore d hd)
    · rcases List.mem_cons.1 hd with rfl | hd
      · exact Nat.le_refl _
      · exact hafter d hd

theorem IsPeak.concat {peak : Int64} {ds : List Sample} (h : IsPeak peak ds) (d : Sample) :
    IsPeak (if peak.toInt.natAbs < d.memory.toInt.natAbs then d.memory else peak) (ds ++ [d]) := by
  by_cases hd : peak.toInt.natAbs < d.memory.toInt.natAbs
  · rw [if_pos hd]
    refine .inr ⟨ds, d, [], rfl, rfl, ?_, fun e he => ?_, by simp⟩
    · intro hzero
      rw [hzero] at hd
      exact Nat.not_lt_zero _ hd
    · exact Nat.lt_of_le_of_lt (h.natAbs_le e he) hd
  · rw [if_neg hd]
    rw [Nat.not_lt] at hd
    obtain ⟨rfl, hzero⟩ | ⟨before, e, after, rfl, rfl, he, hbefore, hafter⟩ := h
    · refine .inl ⟨rfl, List.forall_mem_append.2 ⟨hzero, List.forall_mem_singleton.2 ?_⟩⟩
      rw [← Int64.toInt_inj]
      exact Int.natAbs_eq_zero.1 (Nat.le_zero.1 hd)
    · refine .inr ⟨before, e, after ++ [d], by simp, rfl, he, hbefore, ?_⟩
      exact List.forall_mem_append.2 ⟨hafter, List.forall_mem_singleton.2 hd⟩

/-! ### All invocations of a function -/

/-- The sum of the changes of memory. -/
def netMemory (ds : List Sample) : Int := (ds.map (·.memory.toInt)).sum

theorem netMemory_concat (ds : List Sample) (d : Sample) :
    netMemory (ds ++ [d]) = netMemory ds + d.memory.toInt := by
  simp [netMemory]

/-- The figures of a function whose invocations had the given costs. -/
structure Accounts (c : Cost) (ds : List Sample) : Prop where
  count : c.count = ds.length
  /-- The times are added from the first to the last. -/
  time : c.time = ds.foldl (fun total d => total + d.time) .zero
  memory : c.memory.toInt = netMemory ds
  peak : IsPeak c.peak ds
  /-- Every change has a magnitude. -/
  moderate : ∀ d ∈ ds, d.memory ≠ Int64.minValue

theorem accounts_zero : zero.Accounts [] :=
  ⟨rfl, rfl, rfl, .inl ⟨rfl, by simp⟩, by simp⟩

variable {c c' : Cost} {d : Sample} {ds : List Sample}

theorem Accounts.peak_ne (h : c.Accounts ds) : c.peak ≠ Int64.minValue := by
  obtain ⟨hpeak, -⟩ | ⟨before, d, after, rfl, hpeak, -⟩ := h.peak
  · rw [hpeak]
    decide
  · rw [hpeak]
    exact h.moderate d (by simp)

/-- **One more invocation keeps the figures right.** -/
theorem Accounts.concat (h : c.Accounts ds) (hadd : c.add d = .ok c') :
    c'.Accounts (ds ++ [d]) := by
  rw [add_eq h.peak_ne] at hadd
  by_cases hsum : Checked.InRange (c.memory.toInt + d.memory.toInt)
  · rw [if_pos hsum] at hadd
    by_cases hd : d.memory = Int64.minValue
    · rw [if_pos hd] at hadd
      cases hadd
    · rw [if_neg hd] at hadd
      cases hadd
      refine ⟨?_, ?_, ?_, h.peak.concat d, ?_⟩
      · rw [List.length_append, ← h.count]
        rfl
      · rw [List.foldl_append, ← h.time]
        rfl
      · rw [netMemory_concat, ← h.memory]
        exact Checked.toInt_ofInt_of_inRange hsum
      · exact List.forall_mem_append.2 ⟨h.moderate, List.forall_mem_singleton.2 hd⟩
  · rw [if_neg hsum] at hadd
    cases hadd

/-- The next invocation overflows if the sum leaves its range or the change has no magnitude. -/
theorem Accounts.exists_error_iff (h : c.Accounts ds) (d : Sample) :
    (∃ cause, c.add d = .error cause) ↔
      ¬Checked.InRange (netMemory ds + d.memory.toInt) ∨ d.memory = Int64.minValue := by
  rw [add_eq h.peak_ne, h.memory]
  by_cases hsum : Checked.InRange (netMemory ds + d.memory.toInt)
  · rw [if_pos hsum]
    by_cases hd : d.memory = Int64.minValue
    · rw [if_pos hd]
      exact iff_of_true ⟨_, rfl⟩ (.inr hd)
    · rw [if_neg hd]
      exact iff_of_false nofun fun hover => hover.elim (absurd hsum) hd
  · rw [if_neg hsum]
    exact iff_of_true ⟨_, rfl⟩ (.inl hsum)

/-- The figures of a function after invocations with given costs. -/
def total? (ds : List Sample) : Except Overflow Cost := ds.foldlM add zero

theorem total?_concat (ds : List Sample) (d : Sample) :
    total? (ds ++ [d]) = (total? ds).bind (·.add d) :=
  History.foldlM_concat zero ds d

/-- **The figures carried along are those of all invocations together.** -/
theorem accounts_of_total? (h : total? ds = .ok c) : c.Accounts ds := by
  induction ds using List.reverseRecOn generalizing c with
  | nil =>
    cases h
    exact accounts_zero
  | append_singleton ds d ih =>
    obtain ⟨c₁, hds, hadd⟩ := History.exists_of_foldlM_concat h
    exact (ih hds).concat hadd

end Cost

namespace CostTable

/-! ### All functions -/

/-- The table after invocations of numbered functions, each with its cost. -/
def chargeAll (t : CostTable) (charges : List (Nat × Sample)) : Except Overflow CostTable :=
  charges.foldlM (fun t charge => t.charge charge.1 charge.2) t

/-- The costs of the invocations of one function. -/
def costsOf (n : Nat) (charges : List (Nat × Sample)) : List Sample :=
  (charges.filter (·.1 = n)).map Prod.snd

theorem costsOf_concat (n m : Nat) (charges : List (Nat × Sample)) (d : Sample) :
    costsOf n (charges ++ [(m, d)]) =
      if m = n then costsOf n charges ++ [d] else costsOf n charges := by
  rw [costsOf, List.filter_append, List.map_append]
  by_cases hm : m = n
  · simp [costsOf, hm]
  · simp [costsOf, hm]

theorem costsOf_eq_nil_iff (n : Nat) (charges : List (Nat × Sample)) :
    costsOf n charges = [] ↔ ∀ charge ∈ charges, charge.1 ≠ n := by
  rw [costsOf, List.map_eq_nil_iff, List.filter_eq_nil_iff]
  simp

/-- The table holds the figures of the functions charged, and nothing else. -/
structure Books (t : CostTable) (charges : List (Nat × Sample)) : Prop where
  charged : ∀ n, t.cost? n = none ↔ costsOf n charges = []
  total : ∀ n, Cost.total? (costsOf n charges) = .ok (t.costs.getD n .zero)

theorem books_empty : empty.Books [] :=
  ⟨fun n => by simp [cost?, empty, costsOf], fun n => by simp [empty, costsOf]; rfl⟩

variable {t t' : CostTable} {charges : List (Nat × Sample)}

/-- **A charge keeps the books right**, those of the function charged and those of all others. -/
theorem Books.charge (h : t.Books charges) {n : Nat} {d : Sample} (ht' : t.charge n d = .ok t') :
    t'.Books (charges ++ [(n, d)]) := by
  rw [CostTable.charge] at ht'
  cases hadd : (t.costs.getD n .zero).add d with
  | error cause =>
    rw [hadd] at ht'
    cases ht'
  | ok c =>
    rw [hadd] at ht'
    cases ht'
    refine ⟨fun m => ?_, fun m => ?_⟩
    · rw [cost?, Std.HashMap.getElem?_insert, costsOf_concat]
      by_cases hm : n = m
      · simp [hm]
      · rw [if_neg (by simpa using hm), if_neg hm]
        exact h.charged m
    · rw [Std.HashMap.getD_insert, costsOf_concat]
      by_cases hm : n = m
      · subst hm
        rw [if_pos rfl, if_pos (beq_self_eq_true n), Cost.total?_concat, h.total n]
        exact hadd
      · rw [if_neg hm, if_neg (by simpa using hm)]
        exact h.total m

theorem chargeAll_concat (t : CostTable) (charges : List (Nat × Sample)) (n : Nat) (d : Sample) :
    t.chargeAll (charges ++ [(n, d)]) = (t.chargeAll charges).bind (·.charge n d) :=
  History.foldlM_concat t charges (n, d)

theorem books_of_chargeAll (h : empty.chargeAll charges = .ok t) : t.Books charges := by
  induction charges using List.reverseRecOn generalizing t with
  | nil =>
    cases h
    exact books_empty
  | append_singleton charges charge ih =>
    obtain ⟨t₁, hcharges, hcharge⟩ := History.exists_of_foldlM_concat h
    exact (ih hcharges).charge hcharge

theorem charge_of_add {n : Nat} {d : Sample} {c : Cost}
    (h : (t.costs.getD n .zero).add d = .ok c) : t.charge n d = .ok ⟨t.costs.insert n c⟩ := by
  rw [CostTable.charge, h]
  rfl

/-- Charges add up just if those of every function do. -/
theorem exists_chargeAll_iff :
    (∃ t, empty.chargeAll charges = .ok t) ↔ ∀ n, ∃ c, Cost.total? (costsOf n charges) = .ok c := by
  constructor
  · rintro ⟨t, h⟩ n
    exact ⟨_, (books_of_chargeAll h).total n⟩
  · intro h
    induction charges using List.reverseRecOn with
    | nil => exact ⟨empty, rfl⟩
    | append_singleton charges charge ih =>
      obtain ⟨m, d⟩ := charge
      -- What the costs of a function add up to needs those before the last one to add up.
      have hbefore : ∀ n, ∃ c, Cost.total? (costsOf n charges) = .ok c := by
        intro n
        obtain ⟨c, hc⟩ := h n
        rw [costsOf_concat] at hc
        by_cases hm : m = n
        · rw [if_pos hm] at hc
          obtain ⟨c₁, htotal, -⟩ := History.exists_of_foldlM_concat hc
          exact ⟨c₁, htotal⟩
        · rw [if_neg hm] at hc
          exact ⟨c, hc⟩
      obtain ⟨t, ht⟩ := ih hbefore
      obtain ⟨c, hc⟩ := h m
      rw [costsOf_concat, if_pos rfl, Cost.total?_concat, (books_of_chargeAll ht).total m] at hc
      exact ⟨_, by rw [chargeAll_concat, ht]; exact charge_of_add hc⟩

/-- Only the functions charged have to add up. -/
theorem exists_chargeAll_of_mem
    (h : ∀ charge ∈ charges, ∃ c, Cost.total? (costsOf charge.1 charges) = .ok c) :
    ∃ t, empty.chargeAll charges = .ok t := by
  refine exists_chargeAll_iff.2 fun n => ?_
  by_cases hn : costsOf n charges = []
  · rw [hn]
    exact ⟨_, rfl⟩
  · rw [costsOf_eq_nil_iff] at hn
    push Not at hn
    obtain ⟨charge, hmem, rfl⟩ := hn
    exact h charge hmem

theorem Books.total?_of_cost? (h : t.Books charges) {n : Nat} {c : Cost} (hc : t.cost? n = some c) :
    Cost.total? (costsOf n charges) = .ok c := by
  have htotal := h.total n
  rw [Std.HashMap.getD_eq_getD_getElem?] at htotal
  rw [cost?] at hc
  rwa [hc] at htotal

/-- **What functions are charged with.**  After any charges that do not overflow, a function has
costs just if it was charged, and they are those of its own charges in their order: how many there
were, their times added from the first to the last, the exact sum of the changes of memory, and the
first of the changes with the greatest magnitude.  The next charge overflows just if that sum leaves
its range, or if its own change is the least integer. -/
theorem costs_of_charges (h : empty.chargeAll charges = .ok t) :
    (∀ n, t.cost? n = none ↔ ∀ charge ∈ charges, charge.1 ≠ n) ∧
    (∀ n c, t.cost? n = some c → c.Accounts (costsOf n charges)) ∧
    ∀ n d, (∃ cause, t.charge n d = .error cause) ↔
      ¬Checked.InRange (Cost.netMemory (costsOf n charges) + d.memory.toInt) ∨
        d.memory = Int64.minValue := by
  have hbooks : t.Books charges := books_of_chargeAll h
  refine ⟨fun n => ?_, fun n c hc => ?_, fun n d => ?_⟩
  · rw [hbooks.charged, costsOf_eq_nil_iff]
  · exact Cost.accounts_of_total? (hbooks.total?_of_cost? hc)
  · rw [← (Cost.accounts_of_total? (hbooks.total n)).exists_error_iff d, CostTable.charge]
    cases (t.costs.getD n .zero).add d <;> simp [Except.map]

/-- Two functions charged in turn: of two changes with the same magnitude the first one is the peak,
and a charge that takes the sum above the greatest integer overflows. -/
theorem costs_of_charges_tie :
    let charges : List (Nat × Sample) :=
      [(3, ⟨.zero, 5⟩), (4, ⟨.zero, 9⟩), (3, ⟨.zero, -7⟩), (3, ⟨.zero, 7⟩)]
    ∃ t, empty.chargeAll charges = .ok t ∧ t.cost? 5 = none ∧
      (∃ c, t.cost? 3 = some c ∧ c.count = 3 ∧ c.memory.toInt = 5 ∧ c.peak = -7) ∧
      ∃ cause, t.charge 3 ⟨.zero, Int64.maxValue⟩ = .error cause := by
  intro charges
  have htotal : Cost.total? (costsOf 3 charges) =
      .ok ⟨3, .zero + .zero + .zero + .zero, 5, -7⟩ := rfl
  have hmem : ∀ charge ∈ charges, ∃ c, Cost.total? (costsOf charge.1 charges) = .ok c := by
    simp only [charges, List.forall_mem_cons]
    exact ⟨⟨_, htotal⟩, ⟨_, rfl⟩, ⟨_, htotal⟩, ⟨_, htotal⟩, by simp⟩
  obtain ⟨t, ht⟩ := exists_chargeAll_of_mem hmem
  obtain ⟨hnone, hfigures, hover⟩ := costs_of_charges ht
  refine ⟨t, ht, (hnone 5).2 (by decide), ?_, (hover 3 _).2 (.inl (by decide))⟩
  obtain ⟨c, hc⟩ := Option.ne_none_iff_exists'.1 (mt (hnone 3).1 (by decide))
  refine ⟨c, hc, (hfigures 3 c hc).count, (hfigures 3 c hc).memory, ?_⟩
  have hc' := (books_of_chargeAll ht).total?_of_cost? hc
  rw [htotal] at hc'
  cases hc'
  rfl

end CostTable

end CallForest
