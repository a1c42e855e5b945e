import CallForest.Site.Table

/-!
# Numbers of sites

A table of sites grows only: a site that has a number keeps it, and a new one gets the next.

* `Table.Consistent`: the two directions of a table are inverse to each other;
* `Table.number_cases`, `Table.number_spec`: what numbering a site does to a table;
* `Table.exists_numberAll_iff`: several sites can be numbered just if each of them has a line, and
  `Table.numberAll_spec` says what the table holds then.
-/

namespace CallForest

namespace Site

namespace Table

/-- A site has a number just if the number leads to the site. -/
def Consistent (t : Table) : Prop :=
  ∀ (s : Site) (n : Nat), t.numbers[s]? = some n ↔ t.sites[n]? = some s

/-- Every number of one table is the same in another. -/
def Extends (t t' : Table) : Prop :=
  ∀ (s : Site) (n : Nat), t.numbers[s]? = some n → t'.numbers[s]? = some n

theorem site?_eq_ok_iff {t : Table} {n : Nat} {s : Site} :
    t.site? n = .ok s ↔ t.sites[n]? = some s := by
  rw [site?]
  cases t.sites[n]? <;> simp

theorem Extends.refl (t : Table) : t.Extends t := fun _ _ h => h

theorem Extends.trans {t t' t'' : Table} (h : t.Extends t') (h' : t'.Extends t'') :
    t.Extends t'' :=
  fun s n hn => h' s n (h s n hn)

theorem consistent_empty : empty.Consistent := by
  intro s n
  simp [empty]

/-- A new site at the end of both directions keeps them inverse to each other. -/
theorem Consistent.insert {t : Table} (h : t.Consistent) {s : Site} (hs : t.numbers[s]? = none) :
    (⟨t.numbers.insert s t.sites.size, t.sites.push s⟩ : Table).Consistent := by
  intro u n
  have hu := h u n
  have hsize : t.sites[t.sites.size]? = none := Array.getElem?_eq_none (Nat.le_refl _)
  simp only [Std.HashMap.getElem?_insert, Array.getElem?_push, beq_iff_eq]
  by_cases hsu : s = u
  · subst hsu
    rw [hs] at hu
    grind
  · grind

/-- All that numbering a site can do: a site has its number, or it gets the next one. -/
theorem number_cases {t t' : Table} {s : Site} {n : Nat} (h : t.number s = .ok (n, t')) :
    (t.numbers[s]? = some n ∧ t' = t) ∨
      (t.numbers[s]? = none ∧ n = t.sites.size ∧
        t' = ⟨t.numbers.insert s t.sites.size, t.sites.push s⟩) := by
  unfold number at h
  split at h
  · cases h
  · split at h
    · rename_i m hm
      cases h
      exact .inl ⟨hm, rfl⟩
    · rename_i hnone
      cases h
      exact .inr ⟨hnone, rfl, rfl⟩

theorem number_spec {t t' : Table} {s : Site} {n : Nat} (h : t.number s = .ok (n, t')) :
    t'.numbers[s]? = some n ∧ t.Extends t' ∧ (t.Consistent → t'.Consistent) := by
  obtain ⟨hm, rfl⟩ | ⟨hnone, rfl, rfl⟩ := number_cases h
  · exact ⟨hm, .refl t', id⟩
  · refine ⟨by simp, fun u m hm => ?_, fun hc => hc.insert hnone⟩
    have hne : s ≠ u := by
      rintro rfl
      rw [hnone] at hm
      cases hm
    simpa [Std.HashMap.getElem?_insert, hne] using hm

/-- No other site gets a number. -/
theorem eq_or_of_number {t t' : Table} {s u : Site} {n m : Nat} (h : t.number s = .ok (n, t'))
    (hu : t'.numbers[u]? = some m) : u = s ∨ t.numbers[u]? = some m := by
  obtain ⟨-, rfl⟩ | ⟨-, rfl, rfl⟩ := number_cases h
  · exact .inr hu
  · by_cases hus : s = u
    · exact .inl hus.symm
    · exact .inr (by simpa [Std.HashMap.getElem?_insert, hus] using hu)

/-- Both directions of a table grow together. -/
theorem size_eq_of_number {t t' : Table} {s : Site} {n : Nat} (h : t.number s = .ok (n, t'))
    (hsize : t.numbers.size = t.sites.size) : t'.numbers.size = t'.sites.size := by
  obtain ⟨-, rfl⟩ | ⟨hnone, rfl, rfl⟩ := number_cases h
  · exact hsize
  · have hmem : s ∉ t.numbers := by simpa using hnone
    rw [Std.HashMap.size_insert, if_neg hmem, Array.size_push, hsize]

theorem exists_number_iff (t : Table) (s : Site) :
    (∃ r, t.number s = .ok r) ↔ s.line ≠ 0 := by
  unfold number
  by_cases hline : s.line = 0
  · simp [hline]
  · rw [if_neg hline]
    cases t.numbers[s]? <;> simp [hline]

/-! ### Several sites -/

/-- The table after several sites were numbered. -/
def numberAll (t : Table) : List Site → Except Fault Table
  | [] => .ok t
  | s :: ss =>
    match t.number s with
    | .error fault => .error fault
    | .ok (_, t) => t.numberAll ss

theorem numberAll_spec {t t' : Table} {ss : List Site} (h : t.numberAll ss = .ok t') :
    (∀ s ∈ ss, ∃ n : Nat, t'.numbers[s]? = some n) ∧ t.Extends t' ∧
      (t.Consistent → t'.Consistent) := by
  induction ss generalizing t with
  | nil =>
    cases h
    exact ⟨by simp, .refl _, id⟩
  | cons s ss ih =>
    rw [numberAll] at h
    cases hs : t.number s with
    | error fault =>
      rw [hs] at h
      cases h
    | ok r =>
      obtain ⟨n, t₁⟩ := r
      rw [hs] at h
      obtain ⟨hn, hext, hcons⟩ := number_spec hs
      obtain ⟨hall, hext', hcons'⟩ := ih h
      exact ⟨List.forall_mem_cons.2 ⟨⟨n, hext' s n hn⟩, hall⟩, hext.trans hext', hcons' ∘ hcons⟩

/-- **Sites can be numbered just if each of them has a line.** -/
theorem exists_numberAll_iff (t : Table) (ss : List Site) :
    (∃ t', t.numberAll ss = .ok t') ↔ ∀ s ∈ ss, s.line ≠ 0 := by
  induction ss generalizing t with
  | nil => simp [numberAll]
  | cons s ss ih =>
    rw [List.forall_mem_cons, ← exists_number_iff t s, numberAll]
    cases t.number s with
    | error fault => simp
    | ok r => simp [ih]

end Table

end Site

end CallForest
