import CallForest.Proofs.Telling

/-!
# Other numbers for the same sites

Two tables can give one site two numbers.  What is told by one chronicle through both of them, trees
and refusals alike, differs in the numbers only.

* `Site.Table.Leads`: a renumbering leads from the numbers of one table to those of another;
* `Invocation.eq_renumberAll`: trees that are read alike are equal up to the renumbering;
* `Refusal.fault_eq_renumber`: so are the faults of one refusal.
-/

namespace CallForest

namespace Site.Table

/-- Every site that has a number in one table has one in another. -/
def Covered (t t' : Table) : Prop :=
  ∀ (s : Site) (n : Nat), t.numbers[s]? = some n → ∃ n' : Nat, t'.numbers[s]? = some n'

/-- A renumbering leads from the number of a site in one table to that in another. -/
def Leads (ρ : Nat → Nat) (t t' : Table) : Prop :=
  ∀ (s : Site) (n n' : Nat), t.numbers[s]? = some n → t'.numbers[s]? = some n' → ρ n = n'

variable {t t' u u' : Table} {ρ : Nat → Nat} {s : Site}

theorem Extends.covered (h : t.Extends t') : t.Covered t' := fun s n hn => ⟨n, h s n hn⟩

theorem Covered.trans (h : t.Covered t') (h' : t'.Covered u) : t.Covered u := by
  intro s n hn
  obtain ⟨n', hn'⟩ := h s n hn
  exact h' s n' hn'

/-- Two tables that number one more site still cover each other. -/
theorem Covered.number {n n' : Nat} (h : t.Covered t') (hn : t.number s = .ok (n, u))
    (hn' : t'.number s = .ok (n', u')) : u.Covered u' := by
  intro v m hm
  obtain ⟨hs, hext, -⟩ := number_spec hn'
  obtain rfl | hm := eq_or_of_number hn hm
  · exact ⟨n', hs⟩
  · obtain ⟨m', hm'⟩ := h v m hm
    exact ⟨m', hext v m' hm'⟩

/-- What leads from one table to another leads from any earlier table to any earlier one. -/
theorem Leads.of_extends (h : Leads ρ u u') (hext : t.Extends u) (hext' : t'.Extends u') :
    Leads ρ t t' :=
  fun s n n' hn hn' => h s n n' (hext s n hn) (hext' s n' hn')

theorem Consistent.exists_leads (h : t.Consistent) (t' : Table) : ∃ ρ, Leads ρ t t' := by
  refine ⟨fun n => (t.sites[n]?.map t'.numberOf).getD n, fun s n n' hn hn' => ?_⟩
  dsimp only
  rw [(h s n).1 hn, Option.map_some, Option.getD_some, numberOf_eq hn']

theorem Leads.numberOf_eq {n n' : Nat} (h : Leads ρ t t') (hn : t.numbers[s]? = some n)
    (hn' : t'.numbers[s]? = some n') : t'.numberOf s = ρ (t.numberOf s) := by
  rw [Table.numberOf_eq hn, Table.numberOf_eq hn', h s n n' hn hn']

/-- A renumbering keeps the site of every number. -/
theorem Leads.site?_eq {n : Nat} (h : Leads ρ t t') (ht : t.Consistent) (ht' : t'.Consistent)
    (hcovered : t.Covered t') (hs : t.site? n = .ok s) : t'.site? (ρ n) = .ok s := by
  have hn := ht.site?_eq_ok_iff.1 hs
  obtain ⟨n', hn'⟩ := hcovered s n hn
  rw [h s n n' hn hn']
  exact ht'.site?_eq_ok_iff.2 hn'

/-- The list of a table that numbers a site is the old one, or the old one with the next number for
the site at its end. -/
theorem entries_of_number {n : Nat} (hn : t.number s = .ok (n, t')) :
    t' = t ∨ (t.numbers[s]? = none ∧ t'.entries = t.entries ++ [(t.sites.size, s)]) := by
  obtain ⟨-, rfl⟩ | ⟨hnone, -, rfl⟩ := number_cases hn
  · exact .inl rfl
  · refine .inr ⟨hnone, ?_⟩
    simp [entries, List.zipIdx_append]

end Site.Table

/-! ### Trees and faults with other numbers -/

/-- The trees with other numbers. -/
def Invocation.renumberAll (ρ : Nat → Nat) : List Invocation → List Invocation :=
  relabelAll fun n => some (ρ n)

/-- Trees that are read alike through two tables differ in their numbers only. -/
theorem Invocation.eq_renumberAll {t t' : Site.Table} {ρ : Nat → Nat} (ht' : t'.Consistent)
    (hρ : ∀ n s, t.site? n = .ok s → t'.site? (ρ n) = .ok s) {us us' : List Invocation}
    {ls : List Located} (h : locateAll t us = .ok ls) (h' : locateAll t' us' = .ok ls) :
    us' = renumberAll ρ us := by
  induction us using listInduction generalizing us' ls with
  | nil =>
    cases h
    cases us' with
    | nil => rfl
    | cons u' us' =>
      obtain ⟨l, ls', -, -, hl⟩ := locateAll_cons_eq_ok_iff.1 h'
      cases hl
  | cons u us callees ih =>
    obtain ⟨l, ls', hu, hus, rfl⟩ := locateAll_cons_eq_ok_iff.1 h
    cases us' with
    | nil => cases h'
    | cons u' us' =>
      obtain ⟨_, _, hu', hus', hl⟩ := locateAll_cons_eq_ok_iff.1 h'
      obtain ⟨rfl, rfl⟩ := List.cons.inj hl
      obtain ⟨s, ks, hs, hks, rfl⟩ := locate_eq_ok_iff.1 hu
      obtain ⟨_, _, hs', hks', hl⟩ := locate_eq_ok_iff.1 hu'
      obtain ⟨rfl, hentered, hleft, rfl⟩ := Located.mk.inj hl
      have hfunction : u'.function = ρ u.function := by
        have hn := ht'.site?_eq_ok_iff.1 hs'
        rw [ht'.site?_eq_ok_iff.1 (hρ _ _ hs)] at hn
        exact (Option.some.inj hn).symm
      have hcallees : u'.callees = relabelAll (fun n => some (ρ n)) u.callees :=
        callees hks hks'
      have hroot : u.relabel (fun n => some (ρ n)) = [u'] := by
        rw [relabel_of_some (m := ρ u.function)]
        · rw [hentered, hleft, ← hfunction, ← hcallees]
          cases u'
          rfl
        · rfl
      rw [renumberAll, relabelAll, hroot, ih hus hus']
      rfl

/-- The fault with other numbers. -/
def Fault.renumber (ρ : Nat → Nat) : Fault → Fault
  | leaveOutside function => leaveOutside (ρ function)
  | mismatch expected found => mismatch (ρ expected) (ρ found)
  | unknownFunction function => unknownFunction (ρ function)
  | fault => fault

/-- The sites that the reason of a refusal names. -/
def Refusal.sites : Refusal → List Site
  | outside site => [site]
  | mismatch expected found => [expected, found]
  | unanswered _ => []

/-- A refusal told through two tables is told with other numbers. -/
theorem Refusal.fault_eq_renumber {t t' : Site.Table} {ρ : Nat → Nat} (hρ : Site.Table.Leads ρ t t')
    (hcovered : t.Covered t') {r : Refusal}
    (hr : ∀ s ∈ r.sites, ∃ n : Nat, t.numbers[s]? = some n) :
    r.fault t' = (r.fault t).renumber ρ := by
  have hnumber : ∀ s ∈ r.sites, t'.numberOf s = ρ (t.numberOf s) := by
    intro s hs
    obtain ⟨n, hn⟩ := hr s hs
    obtain ⟨n', hn'⟩ := hcovered s n hn
    exact hρ.numberOf_eq hn hn'
  cases r with
  | outside site =>
    rw [fault, hnumber site (by simp [sites])]
    rfl
  | mismatch expected found =>
    rw [fault, hnumber expected (by simp [sites]), hnumber found (by simp [sites])]
    rfl
  | unanswered cause => rfl

/-- A refusal is no invalid input, and the session was not finished. -/
theorem Refusal.sort_fault (t : Site.Table) (r : Refusal) :
    (r.fault t).sort ≠ .invalidInput ∧ r.fault t ≠ .recordAfterFinish := by
  cases r <;> exact ⟨nofun, nofun⟩

/-- The sites that the reason of a refusal names have numbers. -/
theorem Chronicle.Tells.exists_number_of_refused {c : Chronicle} {t : Site.Table} {f : Forest}
    (h : c.Tells t f) {e : Event} {n : Nat} (hn : t.numbers[e.site]? = some n)
    {rule : Option Retention} {r : Refusal} (hr : c.observe rule e = .error r) :
    ∀ s ∈ r.sites, ∃ n : Nat, t.numbers[s]? = some n := by
  obtain ⟨-, ⟨-, rfl⟩ | ⟨o, outer, hrunning, ⟨-, rfl⟩ | ⟨cause, -, rfl⟩⟩⟩ := observe_error_cases hr
  · simpa [Refusal.sites] using ⟨n, hn⟩
  · obtain ⟨S, -, hS⟩ := h.spine
    obtain ⟨p, -, -, hcall, -⟩ := hS.of_cons hrunning
    have ho := h.consistent.site?_eq_ok_iff.1 hcall
    simpa [Refusal.sites] using ⟨⟨_, ho⟩, n, hn⟩
  · simp [Refusal.sites]

end CallForest
