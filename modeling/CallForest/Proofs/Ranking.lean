import CallForest.Proofs.Accounting
import CallForest.Report.Csv
import Mathlib.Algebra.GroupWithZero.Nat

/-!
# The ranking of functions

Functions are listed by their total times, the longest first, and functions with equal times by
their numbers.  No two functions share a number, so the list can come in one order only, whatever
order a table gives its entries in.

* `Seconds.compareTotal_eq_eq_iff`: times that the total order does not tell apart are the same;
* `CostTable.Ahead`: the order of the list, in which every two entries have their places;
* `CostTable.mergeSort_eq_sorted`: the list does not depend on the order of entries in the table;
* `CostTable.sorted_canonical`: nor on how the charges of different functions are interleaved.
-/

namespace CallForest

namespace Seconds

/-! ### The total order of times -/

/-- The sign bit and the bits after it. -/
theorem toNat_bits (t : Seconds) :
    t.bits.toNat = (if t.isNegative then 2 ^ 63 else 0) + t.magnitude.toNat := by
  have hlt : t.bits.toNat < 2 ^ 64 := t.bits.toNat_lt
  have hmagnitude : t.magnitude.toNat = t.bits.toNat % 2 ^ 63 := by
    rw [magnitude, UInt64.toNat_and]
    exact Nat.and_two_pow_sub_one_eq_mod _ 63
  have hsign : t.isNegative = true ↔ t.bits.toNat / 2 ^ 63 = 1 := by
    have hshift : (t.bits >>> 63).toNat = t.bits.toNat / 2 ^ 63 := by
      rw [UInt64.toNat_shiftRight]
      exact Nat.shiftRight_eq_div_pow _ 63
    rw [isNegative, beq_iff_eq, ← UInt64.toNat_inj, hshift]
    rfl
  by_cases hnegative : t.isNegative = true
  · have hone := hsign.1 hnegative
    rw [if_pos hnegative, hmagnitude]
    omega
  · have hzero := mt hsign.2 hnegative
    rw [if_neg hnegative, hmagnitude]
    omega

/-- Every bit pattern has a place of its own. -/
theorem rank_inj {a b : Seconds} (h : a.rank = b.rank) : a = b := by
  have ha := a.toNat_bits
  have hb := b.toNat_bits
  have hbits : a.bits.toNat = b.bits.toNat := by
    rw [rank, rank] at h
    by_cases hna : a.isNegative = true <;> by_cases hnb : b.isNegative = true <;>
      simp only [hna, hnb, if_true, if_false, Bool.false_eq_true] at h ha hb <;> omega
  cases a
  cases b
  exact congrArg mk (UInt64.toNat_inj.1 hbits)

theorem compareTotal_eq_lt_iff {a b : Seconds} : a.compareTotal b = .lt ↔ a.rank < b.rank :=
  Int.compare_eq_lt

/-- **Times that the total order does not tell apart are the same**, signed zeros and NaNs
included. -/
theorem compareTotal_eq_eq_iff {a b : Seconds} : a.compareTotal b = .eq ↔ a = b := by
  rw [compareTotal, Int.compare_eq_eq]
  exact ⟨rank_inj, congrArg rank⟩

end Seconds

namespace CostTable

/-! ### The order of the list -/

/-- The first entry stands ahead of the second: its time is longer, or it is the same and its number
is lower. -/
def Ahead (a b : Nat × Cost) : Prop :=
  b.2.time.compareTotal a.2.time = .lt ∨ b.2.time.compareTotal a.2.time = .eq ∧ a.1 < b.1

variable {a b : Nat × Cost}

theorem precedes_iff :
    precedes a b = true ↔
      b.2.time.rank < a.2.time.rank ∨ b.2.time.rank = a.2.time.rank ∧ a.1 ≤ b.1 := by
  rw [precedes, Seconds.compareTotal]
  cases hcompare : compare b.2.time.rank a.2.time.rank with
  | lt => simp [Int.compare_eq_lt.1 hcompare]
  | eq => simp [Int.compare_eq_eq.1 hcompare]
  | gt =>
    have hgt := Int.compare_eq_gt.1 hcompare
    simp
    omega

theorem precedes_trans (a b c : Nat × Cost) (hab : precedes a b = true)
    (hbc : precedes b c = true) : precedes a c = true := by
  rw [precedes_iff] at *
  omega

theorem precedes_total (a b : Nat × Cost) : (precedes a b || precedes b a) = true := by
  rw [Bool.or_eq_true, precedes_iff, precedes_iff]
  omega

theorem precedes_antisymm (hab : precedes a b = true) (hba : precedes b a = true) : a.1 = b.1 := by
  rw [precedes_iff] at hab hba
  omega

theorem ahead_of_precedes (h : precedes a b = true) (hne : a.1 ≠ b.1) : Ahead a b := by
  rw [precedes_iff] at h
  rw [Ahead, Seconds.compareTotal_eq_lt_iff, Seconds.compareTotal, Int.compare_eq_eq]
  omega

/-! ### The list of a table -/

variable (t : CostTable)

theorem perm_sorted : t.sorted.Perm t.costs.toList := List.mergeSort_perm _ _

theorem pairwise_mergeSort (entries : List (Nat × Cost)) :
    (entries.mergeSort precedes).Pairwise fun a b => precedes a b = true :=
  List.pairwise_mergeSort precedes_trans precedes_total entries

theorem pairwise_sorted : t.sorted.Pairwise fun a b => precedes a b = true :=
  pairwise_mergeSort t.costs.toList

theorem mem_sorted_iff (n : Nat) (c : Cost) : (n, c) ∈ t.sorted ↔ t.cost? n = some c := by
  rw [t.perm_sorted.mem_iff]
  exact Std.HashMap.mem_toList_iff_getElem?_eq_some

theorem nodup_sorted : (t.sorted.map Prod.fst).Nodup := by
  rw [(t.perm_sorted.map Prod.fst).nodup_iff, List.nodup_iff_pairwise_ne, List.pairwise_map]
  exact Std.HashMap.distinct_keys_toList.imp fun h => by simpa using h

theorem ahead_sorted : t.sorted.Pairwise Ahead := by
  have hne : t.sorted.Pairwise fun a b => a.1 ≠ b.1 := List.pairwise_map.1 t.nodup_sorted
  exact t.pairwise_sorted.imp₂ (fun _ _ => ahead_of_precedes) hne

variable {t}

/-- Two lists of entries of one table that are both in order are the same. -/
theorem eq_of_perm_toList {entries entries' : List (Nat × Cost)}
    (hperm : entries.Perm t.costs.toList) (hperm' : entries'.Perm t.costs.toList)
    (h : entries.Pairwise fun a b => precedes a b = true)
    (h' : entries'.Pairwise fun a b => precedes a b = true) : entries = entries' := by
  refine List.Perm.eq_of_pairwise (fun a b ha hb hab hba => ?_) h h' (hperm.trans hperm'.symm)
  have hnumber : a.1 = b.1 := precedes_antisymm hab hba
  have ha' := Std.HashMap.mem_toList_iff_getElem?_eq_some.1 (hperm.mem_iff.1 ha)
  have hb' := Std.HashMap.mem_toList_iff_getElem?_eq_some.1 (hperm'.mem_iff.1 hb)
  rw [hnumber, hb'] at ha'
  exact Prod.ext hnumber (Option.some.inj ha').symm

/-- **The list does not depend on the order of the entries in the table.** -/
theorem mergeSort_eq_sorted {entries : List (Nat × Cost)} (h : entries.Perm t.costs.toList) :
    entries.mergeSort precedes = t.sorted :=
  eq_of_perm_toList ((List.mergeSort_perm _ _).trans h) t.perm_sorted
    (pairwise_mergeSort entries) t.pairwise_sorted

/-- Tables with the same costs list them in the same way. -/
theorem sorted_eq_of_cost? {t' : CostTable} (h : ∀ n, t'.cost? n = t.cost? n) :
    t'.sorted = t.sorted :=
  mergeSort_eq_sorted (Std.HashMap.Equiv.of_forall_getElem?_eq h).toList_perm

/-! ### The list after charges -/

variable {charges charges' : List (Nat × Sample)}

/-- Charges that are the same function by function make the same costs. -/
theorem Books.cost?_eq {t' : CostTable} (h : t.Books charges) (h' : t'.Books charges')
    (hsame : ∀ n, costsOf n charges' = costsOf n charges) (n : Nat) : t'.cost? n = t.cost? n := by
  cases hc : t.cost? n with
  | none => rw [h'.charged, hsame, ← h.charged, hc]
  | some c =>
    cases hc' : t'.cost? n with
    | none =>
      rw [h'.charged, hsame, ← h.charged, hc] at hc'
      cases hc'
    | some c' =>
      have htotal := h'.total?_of_cost? hc'
      rw [hsame, h.total?_of_cost? hc] at htotal
      cases htotal
      rfl

/-- **The list is canonical.**  When charges do not overflow, neither do others that are the same
function by function, however they are interleaved, and both make the same list and the same rows,
whatever order the entries have in the tables.  The list names every function charged once, with its
costs, and each entry stands ahead of all that come after it: its total time is longer, or it is the
same to the bit and its number is lower. -/
theorem sorted_canonical (h : empty.chargeAll charges = .ok t)
    (hsame : ∀ n, costsOf n charges' = costsOf n charges) :
    (∃ t', empty.chargeAll charges' = .ok t' ∧ t'.sorted = t.sorted ∧
      ∀ sites, Csv.costs t' sites = Csv.costs t sites) ∧
    (∀ entries : List (Nat × Cost), entries.Perm t.costs.toList →
      entries.mergeSort precedes = t.sorted) ∧
    (t.sorted.map Prod.fst).Nodup ∧
    (∀ n, n ∈ t.sorted.map Prod.fst ↔ ∃ charge ∈ charges, charge.1 = n) ∧
    (∀ n c, (n, c) ∈ t.sorted ↔ t.cost? n = some c) ∧
    t.sorted.Pairwise Ahead ∧
    ∀ a b : Seconds, a.compareTotal b = .eq ↔ a = b := by
  have hbooks : t.Books charges := books_of_chargeAll h
  refine ⟨?_, fun _ => mergeSort_eq_sorted, t.nodup_sorted, fun n => ?_, t.mem_sorted_iff,
    t.ahead_sorted, fun _ _ => Seconds.compareTotal_eq_eq_iff⟩
  · have hall : ∀ n, ∃ c, Cost.total? (costsOf n charges') = .ok c := by
      intro n
      rw [hsame]
      exact exists_chargeAll_iff.1 ⟨t, h⟩ n
    obtain ⟨t', ht'⟩ := exists_chargeAll_iff.2 hall
    have hsorted : t'.sorted = t.sorted :=
      sorted_eq_of_cost? (hbooks.cost?_eq (books_of_chargeAll ht') hsame)
    refine ⟨t', ht', hsorted, fun sites => ?_⟩
    rw [Csv.costs, Csv.costs, hsorted]
  · have hcharged : t.cost? n ≠ none ↔ ∃ charge ∈ charges, charge.1 = n := by
      rw [ne_eq, hbooks.charged, costsOf_eq_nil_iff]
      simp
    rw [← hcharged, Option.ne_none_iff_exists']
    simp only [List.mem_map, Prod.exists, exists_and_right, exists_eq_right, mem_sorted_iff]

/-- Three charges of two functions, in another order between the functions. -/
theorem sorted_canonical_interleaved :
    let charges : List (Nat × Sample) := [(4, ⟨.zero, 9⟩), (3, ⟨.zero, 5⟩), (4, ⟨.zero, 1⟩)]
    let charges' : List (Nat × Sample) := [(3, ⟨.zero, 5⟩), (4, ⟨.zero, 9⟩), (4, ⟨.zero, 1⟩)]
    (∀ n, costsOf n charges' = costsOf n charges) ∧
    ∃ t t', empty.chargeAll charges = .ok t ∧ empty.chargeAll charges' = .ok t' ∧
      t'.sorted = t.sorted ∧ ∀ n, n ∈ t.sorted.map Prod.fst ↔ n = 3 ∨ n = 4 := by
  intro charges charges'
  have hsame : ∀ n, costsOf n charges' = costsOf n charges := by
    intro n
    by_cases h₃ : n = 3
    · subst h₃
      rfl
    · simp [charges, charges', costsOf, List.filter_cons, Ne.symm h₃]
  have hmem : ∀ charge ∈ charges, ∃ c, Cost.total? (costsOf charge.1 charges) = .ok c := by
    simp only [charges, List.forall_mem_cons]
    exact ⟨⟨_, rfl⟩, ⟨_, rfl⟩, ⟨_, rfl⟩, by simp⟩
  obtain ⟨t, ht⟩ := exists_chargeAll_of_mem hmem
  obtain ⟨⟨t', ht', hsorted, -⟩, -, -, hlisted, -⟩ := sorted_canonical ht hsame
  refine ⟨hsame, t, t', ht, ht', hsorted, fun n => ?_⟩
  have hcharged : (∃ charge ∈ charges, charge.1 = n) ↔ 4 = n ∨ 3 = n ∨ 4 = n := by simp [charges]
  rw [hlisted, hcharged]
  omega

end CostTable

end CallForest
