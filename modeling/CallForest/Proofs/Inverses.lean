import CallForest.Proofs.Appearance
import Mathlib.Data.List.Perm.Subperm

/-!
# What the check of a table finds

The check of a table compares the sizes of its two directions and follows the numbers one way only:
from a site to its number and from there back to a site.  Here it is compared with what it is there
for: that the two directions are inverse to each other.  The tables may hold anything, also what no
numbering leads to.

* `Table.given`: the numbers that the sites of a table have.  If all of them lead back to their
  sites they are different places of the list (`Table.LeadsBack.subperm_range`), so that as many
  of them as there are places are all of the places (`Table.LeadsBack.consistent`);
* `Table.integrity_iff_inverse`: so the check finds out exactly whether the directions are inverse
  to each other;
* `Table.sites_eq_iff_of_integrity`: in tables that pass, one direction determines the other, and
  `Table.exists_integrity_iff_nodup` says which lists of sites such tables have;
* `Table.integrity_run`: asking for sites neither breaks nor repairs a table.
-/

namespace CallForest

namespace Site

namespace Table

variable {t : Table} {s : Site} {n : Nat}

/-- Every number leads back to the site that has it. -/
def LeadsBack (t : Table) : Prop :=
  ∀ (s : Site) (n : Nat), t.numbers[s]? = some n → t.sites[n]? = some s

/-- The numbers that sites have, each as often as it is given. -/
def given (t : Table) : List Nat := t.numbers.toList.map Prod.snd

theorem length_given (t : Table) : t.given.length = t.numbers.size := by
  rw [given, List.length_map, Std.HashMap.length_toList]

theorem mem_given_iff : n ∈ t.given ↔ ∃ s : Site, t.numbers[s]? = some n := by
  simp only [given, List.mem_map, Prod.exists, exists_eq_right,
    Std.HashMap.mem_toList_iff_getElem?_eq_some]

theorem integrity_iff_leadsBack :
    t.integrity = true ↔ t.numbers.size = t.sites.size ∧ t.LeadsBack := by
  simp only [integrity, LeadsBack, Bool.and_eq_true, beq_iff_eq, List.all_eq_true, Prod.forall,
    Std.HashMap.mem_toList_iff_getElem?_eq_some]

/-! ### One direction -/

theorem LeadsBack.lt_size (h : t.LeadsBack) (hn : t.numbers[s]? = some n) : n < t.sites.size :=
  (Array.getElem?_eq_some_iff.1 (h s n hn)).1

/-- The number of a site leads to no other site. -/
theorem LeadsBack.eq_of_sites {u : Site} (h : t.LeadsBack) (hs : t.numbers[s]? = some n)
    (hu : t.sites[n]? = some u) : s = u :=
  Option.some.inj ((h s n hs).symm.trans hu)

theorem LeadsBack.nodup_given (h : t.LeadsBack) : t.given.Nodup := by
  have hnodup : t.numbers.toList.Nodup := by
    apply List.Nodup.of_map Prod.fst
    rw [Std.HashMap.map_fst_toList_eq_keys]
    exact Std.HashMap.nodup_keys
  refine List.Nodup.map_on ?_ hnodup
  rintro ⟨s, n⟩ hs ⟨u, m⟩ hu hnm
  obtain rfl : n = m := hnm
  rw [Std.HashMap.mem_toList_iff_getElem?_eq_some] at hs hu
  rw [h.eq_of_sites hs (h u n hu)]

/-- The numbers that lead back are different places of the list. -/
theorem LeadsBack.subperm_range (h : t.LeadsBack) :
    t.given.Subperm (List.range t.sites.size) := by
  refine h.nodup_given.subperm fun n hn => ?_
  obtain ⟨s, hs⟩ := mem_given_iff.1 hn
  exact List.mem_range.2 (h.lt_size hs)

/-- As many numbers as there are places are all of the places. -/
theorem LeadsBack.perm_range (h : t.LeadsBack) (hsize : t.sites.size ≤ t.numbers.size) :
    t.given.Perm (List.range t.sites.size) :=
  h.subperm_range.perm_of_length_le (by rwa [List.length_range, length_given])

theorem LeadsBack.consistent (h : t.LeadsBack) (hsize : t.sites.size ≤ t.numbers.size) :
    t.Consistent := by
  refine fun s n => ⟨h s n, fun hs => ?_⟩
  have hplace : n < t.sites.size := (Array.getElem?_eq_some_iff.1 hs).1
  obtain ⟨u, hu⟩ := mem_given_iff.1 ((h.perm_range hsize).mem_iff.2 (List.mem_range.2 hplace))
  rw [← h.eq_of_sites hu hs]
  exact hu

/-! ### Both directions -/

theorem Consistent.leadsBack (h : t.Consistent) : t.LeadsBack := fun s n => (h s n).1

/-- Every place of the list is the number of the site at that place. -/
theorem Consistent.size_eq (h : t.Consistent) : t.numbers.size = t.sites.size := by
  refine Nat.le_antisymm ?_ ?_
  · simpa [length_given] using h.leadsBack.subperm_range.length_le
  · have hsub : List.range t.sites.size ⊆ t.given := by
      intro n hn
      have hplace := Array.getElem?_eq_getElem (List.mem_range.1 hn)
      exact mem_given_iff.2 ⟨_, (h _ n).2 hplace⟩
    simpa [length_given] using (List.nodup_range.subperm hsub).length_le

/-- A table passes its check just if its directions are inverse to each other. -/
theorem integrity_iff_consistent : t.integrity = true ↔ t.Consistent := by
  constructor
  · intro h
    obtain ⟨hsize, hback⟩ := integrity_iff_leadsBack.1 h
    exact hback.consistent hsize.ge
  · intro h
    exact h.integrity h.size_eq

/-- **The check of a table finds out whether its directions are inverse to each other.**  Whatever
a table holds, it passes just if a site has a number exactly where that number is a place of the
list and the site stands there.  No site stands at two places then, and the numbers that sites have
are those below the size of the table, each of them once. -/
theorem integrity_iff_inverse (t : Table) :
    (t.integrity = true ↔ ∀ (s : Site) (n : Nat),
      t.numbers[s]? = some n ↔ ∃ h : n < t.sites.size, t.sites[n] = s) ∧
    (t.integrity = true → t.sites.toList.Nodup ∧ t.given.Perm (List.range t.size)) := by
  constructor
  · rw [integrity_iff_consistent, Consistent]
    simp only [Array.getElem?_eq_some_iff]
  · intro h
    have hconsistent := integrity_iff_consistent.1 h
    refine ⟨hconsistent.nodup_sites, ?_⟩
    rw [size, hconsistent.size_eq]
    exact hconsistent.leadsBack.perm_range hconsistent.size_eq.ge

/-- A site without a line gets no number, but a table that holds one is checked like any other. -/
theorem integrity_iff_inverse_noLine :
    let main : Site := ⟨"app.py", "main", 3⟩
    let bare : Site := ⟨"app.py", "bare", 0⟩
    let t : Table := ⟨((∅ : Std.HashMap Site Nat).insert bare 0).insert main 1, #[bare, main]⟩
    t.integrity = true ∧ t.sites.toList.Nodup ∧ t.given.Perm (List.range t.size) := by
  intro main bare t
  have hbare : empty.numbers[bare]? = none := by simp [empty]
  have hmain : (empty.numbers.insert bare 0)[main]? = none := by
    simp [empty, main, bare]
  have hcheck : t.integrity = true :=
    integrity_iff_consistent.2 ((consistent_empty.insert hbare).insert hmain)
  exact ⟨hcheck, (integrity_iff_inverse t).2 hcheck⟩

/-! ### One direction from the other -/

/-- Two tables that pass have the same sites just if they have the same numbers. -/
theorem sites_eq_iff_of_integrity {t' : Table} (h : t.integrity = true)
    (h' : t'.integrity = true) :
    t.sites = t'.sites ↔ ∀ s : Site, t.numbers[s]? = t'.numbers[s]? := by
  rw [integrity_iff_consistent] at h h'
  constructor
  · intro hsites s
    ext n
    rw [h s n, h' s n, hsites]
  · intro hnumbers
    apply Array.ext_getElem?
    intro n
    ext s
    rw [← h s n, ← h' s n, hnumbers s]

theorem Consistent.numbers_eq_none (h : t.Consistent) (hs : s ∉ t.sites.toList) :
    t.numbers[s]? = none := by
  rw [Option.eq_none_iff_forall_ne_some]
  exact fun n hn => hs (h.mem_sites_iff.2 ⟨n, hn⟩)

theorem exists_consistent_of_nodup {sites : List Site} (hnodup : sites.Nodup) :
    ∃ numbers, (Table.mk numbers sites.toArray).Consistent := by
  induction sites using List.reverseRecOn with
  | nil => exact ⟨∅, consistent_empty⟩
  | append_singleton sites s ih =>
    rw [← List.concat_eq_append, List.nodup_concat] at hnodup
    obtain ⟨numbers, h⟩ := ih hnodup.2
    refine ⟨numbers.insert s sites.length, ?_⟩
    rw [← List.push_toArray]
    exact h.insert (h.numbers_eq_none hnodup.1)

/-- A list of sites is part of a table that passes just if no site stands in it twice. -/
theorem exists_integrity_iff_nodup (sites : Array Site) :
    (∃ numbers, (Table.mk numbers sites).integrity = true) ↔ sites.toList.Nodup := by
  simp only [integrity_iff_consistent]
  exact ⟨fun ⟨_, h⟩ => h.nodup_sites, exists_consistent_of_nodup⟩

/-! ### Asking for sites -/

/-- A new site at the end of both directions leads back, and changes nothing for the others. -/
theorem leadsBack_insert_iff (hs : t.numbers[s]? = none) :
    (Table.mk (t.numbers.insert s t.sites.size) (t.sites.push s)).LeadsBack ↔ t.LeadsBack := by
  constructor
  · intro h u n hn
    have hsu : s ≠ u := by
      rintro rfl
      rw [hs] at hn
      cases hn
    have hback := h u n (by simpa [Std.HashMap.getElem?_insert, hsu] using hn)
    rw [Array.getElem?_push] at hback
    split at hback
    · exact absurd (Option.some.inj hback) hsu
    · exact hback
  · intro h u n hn
    by_cases hsu : s = u
    · subst hsu
      obtain rfl : t.sites.size = n := by simpa using hn
      exact Array.getElem?_push_size
    · have hn' : t.numbers[u]? = some n := by
        simpa [Std.HashMap.getElem?_insert, hsu] using hn
      rw [Array.getElem?_push, if_neg (h.lt_size hn').ne]
      exact h u n hn'

theorem integrity_of_number {t' : Table} (h : t.number s = .ok (n, t')) :
    t'.integrity = t.integrity := by
  obtain ⟨-, rfl⟩ | ⟨hnone, rfl, rfl⟩ := number_cases h
  · rfl
  · have hmem : s ∉ t.numbers := by simpa using hnone
    rw [Bool.eq_iff_iff, integrity_iff_leadsBack, integrity_iff_leadsBack,
      leadsBack_insert_iff hnone, Std.HashMap.size_insert, if_neg hmem, Array.size_push,
      Nat.add_right_cancel_iff]

theorem integrity_after (t : Table) (s : Site) : (t.after s).integrity = t.integrity := by
  rw [after]
  cases hn : t.number s with
  | error fault => rfl
  | ok r => exact integrity_of_number hn

/-- **Asking for sites neither breaks nor repairs a table.** -/
theorem integrity_run (t : Table) (ss : List Site) : (t.run ss).integrity = t.integrity := by
  induction ss generalizing t with
  | nil => rfl
  | cons s ss ih => exact (ih (t.after s)).trans (t.integrity_after s)

end Table

end Site

end CallForest
