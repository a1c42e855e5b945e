import CallForest.Proofs.Appearance
import CallForest.Proofs.Charging
import CallForest.Proofs.Conservation
import CallForest.Proofs.Fidelity
import CallForest.Proofs.Widths
import CallForest.Report.Export
import Mathlib.Algebra.BigOperators.Group.Finset.Basic
import Mathlib.Algebra.GroupWithZero.Nat
import Mathlib.Order.Interval.Finset.Nat

/-!
# Exports agree with themselves

The parts of an export come from different walks over a session: its figures from work lists, the
costs from the depth-first visits, the visits from either order, and the functions from the table of
sites.  They still are those of one forest.

* `CostTable.calls_ofForest`: a function is charged once for each of its returns in the forest;
* `Forest.maxDepth_eq`: the number of levels, read off the visits;
* `Export.Coherent`: what the parts of an export have to do with each other;
* `Export.coherent_run`: every session that operations can reach is exported in this way in either
  order, and the two exports differ in the order of the visits only.
-/

namespace CallForest

namespace Invocation

/-! ### Returns -/

/-- The functions that were returned from, in the order of the returns. -/
def returns (ts : List Invocation) : List Nat :=
  ((walkAll 0 ts).filter (·.boundary = .leave)).map (·.function)

variable (ts : List Invocation)

theorem map_function_spansAll : (spansAll ts).map Span.function = returns ts := by
  have hfunction : Span.function = Crossing.function ∘ Span.crossing := rfl
  rw [hfunction, ← List.map_map, map_crossing_spansAll 0, List.filter_map, List.map_map]
  rfl

theorem length_returns : (returns ts).length = (walkAll 0 ts).countP (·.boundary = .leave) := by
  rw [returns, List.length_map, List.countP_eq_length_filter]

theorem count_returns (n : Nat) : (returns ts).count n =
    (walkAll 0 ts).countP fun v => v.boundary = .leave ∧ v.function = n := by
  rw [returns, List.count_eq_countP, List.countP_map, List.countP_filter]
  refine List.countP_congr fun v _ => ?_
  rw [Function.comp_apply, Bool.and_eq_true, beq_iff_eq, decide_eq_true_iff, decide_eq_true_iff,
    and_comm]

end Invocation

/-! ### What functions are charged with -/

theorem Cost.count_add {c c' : Cost} {delta : Sample} (h : c.add delta = .ok c') :
    c'.count = c.count + 1 := by
  rw [add] at h
  cases hmemory : Checked.add c.memory delta.memory with
  | error cause => simp [hmemory, bind, Except.bind] at h
  | ok memory =>
    cases hchange : Checked.abs delta.memory with
    | error cause => simp [hmemory, hchange, bind, Except.bind] at h
    | ok change =>
      cases hmost : Checked.abs c.peak with
      | error cause => simp [hmemory, hchange, hmost, bind, Except.bind] at h
      | ok most =>
        simp only [hmemory, hchange, hmost, bind, Except.bind, pure, Except.pure,
          Except.ok.injEq] at h
        rw [← h]

namespace CostTable

/-- The number of invocations that a function is charged with. -/
def calls (t : CostTable) (n : Nat) : Nat := ((t.cost? n).map Cost.count).getD 0

/-- No function has costs without an invocation. -/
def Charged (t : CostTable) : Prop := ∀ n c, t.cost? n = some c → c.count ≠ 0

variable {t t' : CostTable} {n : Nat}

theorem Charged.isSome_iff (h : t.Charged) : (t.cost? n).isSome = true ↔ t.calls n ≠ 0 := by
  rw [calls]
  cases hc : t.cost? n with
  | none => simp
  | some c => simpa using h n c hc

/-- All that charging a function does. -/
theorem exists_of_charge {delta : Sample} (h : t.charge n delta = .ok t') :
    ∃ c, c.count = t.calls n + 1 ∧ ∀ m, t'.cost? m = if n = m then some c else t.cost? m := by
  rw [charge] at h
  cases hadd : (t.costs.getD n .zero).add delta with
  | error cause =>
    rw [hadd] at h
    cases h
  | ok c =>
    rw [hadd] at h
    cases h
    refine ⟨c, ?_, fun m => ?_⟩
    · rw [Cost.count_add hadd, Std.HashMap.getD_eq_getD_getElem?, calls, cost?]
      cases t.costs[n]? <;> rfl
    · simp only [cost?, Std.HashMap.getElem?_insert, beq_iff_eq]

theorem calls_charge {delta : Sample} (h : t.charge n delta = .ok t') (m : Nat) :
    t'.calls m = t.calls m + if n = m then 1 else 0 := by
  obtain ⟨c, hc, ht'⟩ := exists_of_charge h
  rw [calls, ht']
  by_cases hm : n = m
  · subst hm
    rw [if_pos rfl, if_pos rfl, ← hc]
    rfl
  · rw [if_neg hm, if_neg hm]
    rfl

theorem Charged.charge {delta : Sample} (ht : t.Charged) (h : t.charge n delta = .ok t') :
    t'.Charged := by
  obtain ⟨c, hc, ht'⟩ := exists_of_charge h
  intro m d hd
  rw [ht'] at hd
  split at hd
  · cases hd
    omega
  · exact ht m d hd

theorem exists_of_chargeSpan {span : Span} (h : t.chargeSpan span = .ok t') :
    ∃ delta, t.charge span.function delta = .ok t' := by
  rw [chargeSpan] at h
  cases hdelta : span.left.sub span.entered with
  | error cause =>
    rw [hdelta] at h
    cases h
  | ok delta =>
    rw [hdelta] at h
    exact ⟨delta, h⟩

/-- A function is charged once for each of its spans. -/
theorem calls_foldlM {spans : List Span} (h : spans.foldlM chargeSpan t = .ok t') (m : Nat) :
    t'.calls m = t.calls m + (spans.map Span.function).count m := by
  induction spans generalizing t with
  | nil =>
    cases h
    rfl
  | cons span spans ih =>
    obtain ⟨t₁, ht₁, h⟩ := History.exists_of_foldlM_cons h
    obtain ⟨delta, hdelta⟩ := exists_of_chargeSpan ht₁
    rw [ih h, calls_charge hdelta, List.map_cons, List.count_cons]
    simp only [beq_iff_eq]
    omega

theorem Charged.foldlM {spans : List Span} (ht : t.Charged)
    (h : spans.foldlM chargeSpan t = .ok t') : t'.Charged := by
  induction spans generalizing t with
  | nil =>
    cases h
    exact ht
  | cons span spans ih =>
    obtain ⟨t₁, ht₁, h⟩ := History.exists_of_foldlM_cons h
    obtain ⟨delta, hdelta⟩ := exists_of_chargeSpan ht₁
    exact ih (ht.charge hdelta) h

theorem ofForest_forest (rule : Option Retention) (S : Spine) :
    ofForest (S.forest rule) = (Invocation.spansAll S.roots).foldlM chargeSpan empty := by
  have hroots : (S.forest rule).roots = S.roots := rfl
  rw [ofForest_eq_foldlM, hroots, foldlM_chargeVisit_roots]
  cases (Invocation.spansAll S.roots).foldlM chargeSpan empty <;> rfl

section

variable {rule : Option Retention} {S : Spine} (h : ofForest (S.forest rule) = .ok t)
include h

/-- **A function is charged once for each return from it.** -/
theorem calls_ofForest (n : Nat) : t.calls n = (Invocation.returns S.roots).count n := by
  have hzero : empty.calls n = 0 := by simp [calls, empty, cost?]
  rw [ofForest_forest] at h
  rw [calls_foldlM h n, hzero, Nat.zero_add, Invocation.map_function_spansAll]

theorem charged_ofForest : t.Charged := by
  rw [ofForest_forest] at h
  refine Charged.foldlM (fun n c hc => ?_) h
  simp [empty, cost?] at hc

end

end CostTable

/-- Numbers below a bound, counted number by number. -/
theorem sum_map_count_range {ns : List Nat} {bound : Nat} (h : ∀ n ∈ ns, n < bound) :
    ((List.range bound).map fun n => ns.count n).sum = ns.length := by
  have hmem : ∀ n ∈ (ns : Multiset Nat), n ∈ Finset.range bound :=
    fun n hn => Finset.mem_range.2 (h n hn)
  calc ((List.range bound).map fun n => ns.count n).sum
      = ∑ n ∈ Finset.range bound, ns.count n := by
        rw [← List.toFinset_range, List.sum_toFinset _ List.nodup_range]
    _ = ∑ n ∈ Finset.range bound, (ns : Multiset Nat).count n := by
        simp only [Multiset.coe_count]
    _ = (ns : Multiset Nat).card := Multiset.sum_count_eq_card hmem
    _ = ns.length := rfl

/-! ### What the visits of either order show -/

namespace Forest

variable (f : Forest) (order : Order)

/-- Either order has the same visits. -/
theorem perm_visit_visits :
    ((f.visits order).map Placed.visit).Perm (Invocation.walkAll 0 f.roots) := by
  rw [← map_visit_depthFirst]
  cases order with
  | depth => exact .refl _
  | width => exact f.perm_visit_widthFirst

theorem countP_visits (test : Visit → Bool) :
    (f.visits order).countP (fun p => test p.visit) =
      (Invocation.walkAll 0 f.roots).countP test := by
  rw [← (f.perm_visit_visits order).countP_eq, List.countP_map]
  rfl

theorem visits_eq_nil_iff : f.visits order = [] ↔ f.roots = [] := by
  have hlength := (f.perm_visit_visits order).length_eq
  rw [List.length_map] at hlength
  rw [← List.length_eq_zero_iff, hlength, List.length_eq_zero_iff]
  cases f.roots with
  | nil => simp [Invocation.walkAll]
  | cons t ts => simp [Invocation.walkAll, Invocation.walk_eq]

theorem maxWidth_eq_zero_iff : f.maxWidth = 0 ↔ f.roots = [] := by
  have hlength := Invocation.length_le_leavesAll f.roots
  rw [maxWidth_eq]
  constructor
  · intro hzero
    exact List.length_eq_zero_iff.1 (by omega)
  · intro hroots
    rw [hroots, Invocation.leavesAll_nil]

/-- **The number of levels is one more than the greatest depth of a visit**, and there is none
without a visit. -/
theorem maxDepth_eq :
    f.maxDepth.toOption = ((f.visits order).map (·.visit.depth)).max?.map (· + 1) := by
  rw [maxDepth]
  cases hmax : (f.roots.map Invocation.maxDepth).max? with
  | none =>
    rw [List.max?_eq_none_iff, List.map_eq_nil_iff, ← f.visits_eq_nil_iff order] at hmax
    rw [hmax]
    rfl
  | some levels =>
    obtain ⟨hmem, hmost⟩ := List.max?_eq_some_iff.1 hmax
    have hvisits : ∀ v, (∃ p ∈ f.visits order, p.visit = v) ↔ ∃ t ∈ f.roots, v ∈ t.visits := by
      intro v
      rw [← List.mem_map, (f.perm_visit_visits order).mem_iff, Invocation.walkAll_eq_flatMap,
        List.mem_flatMap]
      simp only [Invocation.visits_eq_walk]
    obtain ⟨t, ht, rfl⟩ := List.mem_map.1 hmem
    obtain ⟨v, hv, hdepth⟩ := t.exists_depth_eq_maxDepth
    have hdeepest : ((f.visits order).map (·.visit.depth)).max? = some v.depth := by
      refine List.max?_eq_some_iff.2 ⟨?_, fun depth hd => ?_⟩
      · obtain ⟨p, hp, rfl⟩ := (hvisits v).2 ⟨t, ht, hv⟩
        exact List.mem_map_of_mem hp
      · obtain ⟨p, hp, rfl⟩ := List.mem_map.1 hd
        obtain ⟨u, hu, hmem⟩ := (hvisits p.visit).1 ⟨p, hp, rfl⟩
        have hbelow := Invocation.depth_lt_maxDepth hmem
        have hmost := hmost _ (List.mem_map_of_mem hu)
        omega
    rw [hdeepest, Option.map_some, hdepth]
    rfl

end Forest

/-! ### What the visits of either order are charged with -/

namespace CostTable

variable {t : CostTable} {f : Forest} {S : Spine}

/-- A function is charged once for each visit of a return from it. -/
theorem calls_eq_countP_visits (hf : f = S.forest f.rule) (h : ofForest f = .ok t) (order : Order)
    (n : Nat) :
    t.calls n = (f.visits order).countP
      fun p => p.visit.boundary = .leave ∧ p.visit.function = n := by
  rw [f.countP_visits order fun v => v.boundary = .leave ∧ v.function = n,
    ← Invocation.count_returns]
  rw [hf] at h ⊢
  exact calls_ofForest h n

/-- The charges of all functions together are the visits of returns. -/
theorem sum_calls_eq_countP_visits (hf : f = S.forest f.rule) (h : ofForest f = .ok t)
    (order : Order) {bound : Nat} (hbound : ∀ p ∈ f.visits order, p.visit.function < bound) :
    ((List.range bound).map t.calls).sum =
      (f.visits order).countP (·.visit.boundary = .leave) := by
  have hbelow : ∀ n ∈ Invocation.returns f.roots, n < bound := by
    intro n hn
    obtain ⟨v, hv, rfl⟩ := List.mem_map.1 hn
    obtain ⟨p, hp, rfl⟩ := List.mem_map.1
      ((f.perm_visit_visits order).mem_iff.2 (List.mem_of_mem_filter hv))
    exact hbound p hp
  rw [f.countP_visits order fun v => v.boundary = .leave, ← Invocation.length_returns,
    ← sum_map_count_range hbelow]
  refine congrArg List.sum (List.map_congr_left fun n _ => ?_)
  rw [hf] at h ⊢
  exact calls_ofForest h n

end CostTable

/-! ### Coherent exports -/

namespace Export

/-- The number of returns from a function among the visits. -/
def returnsOf (e : Export) (n : Nat) : Nat :=
  e.visits.countP fun p => p.visit.boundary = .leave ∧ p.visit.function = n

/-- The parts of an export are those of one forest. -/
structure Coherent (e : Export) : Prop where
  /-- What is kept are the calls among the visits. -/
  kept : e.summary.kept = e.visits.countP (·.visit.boundary = .enter)
  /-- All costs together are those of the returns among the visits. -/
  returned : e.visits.countP (·.visit.boundary = .leave) =
    ((e.functions.filterMap Function.cost).map Cost.count).sum
  /-- The functions are in the order of their numbers, and no number is left out. -/
  numbers : e.functions.map Function.number = List.range e.functions.length
  /-- The function of a visit is one of them. -/
  known : ∀ p ∈ e.visits, ∃ f ∈ e.functions, f.number = p.visit.function
  /-- A function has costs just if a return from it is visited. -/
  charged : ∀ f ∈ e.functions, f.cost.isSome = true ↔
    ∃ p ∈ e.visits, p.visit.boundary = .leave ∧ p.visit.function = f.number
  /-- The costs of a function are those of the returns from it. -/
  counts : ∀ f ∈ e.functions, ∀ c, f.cost = some c → c.count = e.returnsOf f.number
  /-- The number of levels is one more than the greatest depth, and is missing without visits. -/
  deepest : e.summary.maxDepth = (e.visits.map (·.visit.depth)).max?.map (· + 1)
  /-- The width is zero just if there are no visits. -/
  widest : e.summary.maxWidth = 0 ↔ e.visits = []

/-- All costs together, function by function. -/
theorem sum_count_filterMap {α : Type} (cost? : α → Option Cost) (as : List α) :
    ((as.filterMap cost?).map Cost.count).sum =
      (as.map fun a => ((cost? a).map Cost.count).getD 0).sum := by
  induction as with
  | nil => rfl
  | cons a as ih =>
    rw [List.map_cons, List.sum_cons, ← ih]
    cases hcost : cost? a with
    | none => rw [List.filterMap_cons_none hcost, Option.map_none, Option.getD_none, Nat.zero_add]
    | some c => rw [List.filterMap_cons_some hcost, List.map_cons, List.sum_cons]; rfl

variable {s : Session} {order : Order} {e : Export} {costs : CostTable}

/-- The functions of an export are those of the table, under their numbers. -/
theorem map_number_functions (t : Site.Table) (costs : CostTable) :
    (t.entries.map fun (n, site) => (⟨n, site, costs.cost? n⟩ : Function)).map Function.number =
      List.range t.sites.size := by
  rw [List.map_map, ← t.map_fst_entries]
  rfl

theorem exists_ofSession (h : CostTable.ofForest s.forest = .ok costs) (order : Order) :
    ∃ e, ofSession s order = .ok e := by
  rw [ofSession, h]
  exact ⟨_, rfl⟩

theorem functions_ofSession (h : ofSession s order = .ok e)
    (hcosts : CostTable.ofForest s.forest = .ok costs) :
    e.functions = s.sites.entries.map fun (n, site) => ⟨n, site, costs.cost? n⟩ := by
  rw [ofSession, hcosts] at h
  cases h
  rfl

/-- **An export of a forest whose visits all have a site is coherent.** -/
theorem coherent_ofSession {S : Spine} (h : ofSession s order = .ok e)
    (hcosts : CostTable.ofForest s.forest = .ok costs) (hS : s.forest = S.forest s.forest.rule)
    (hsites : ∀ p ∈ s.forest.visits order, ∃ site, s.sites.site? p.visit.function = .ok site) :
    e.Coherent := by
  rw [ofSession, hcosts] at h
  cases h
  have hreturns := CostTable.calls_eq_countP_visits hS hcosts order
  have hcharged : costs.Charged := by
    rw [hS] at hcosts
    exact CostTable.charged_ofForest hcosts
  have hbound : ∀ p ∈ s.forest.visits order, p.visit.function < s.sites.sites.size :=
    fun p hp => (s.sites.exists_site?_iff _).1 (hsites p hp)
  refine ⟨?_, ?_, ?_, fun p hp => ?_, ?_, ?_, s.forest.maxDepth_eq order, ?_⟩
  · rw [s.forest.countP_visits order fun v => v.boundary = .enter,
      Invocation.countP_enter_walkAll]
    exact s.forest.nodeCount_eq_sizes
  · rw [← CostTable.sum_calls_eq_countP_visits hS hcosts order hbound, sum_count_filterMap,
      List.map_map, ← s.sites.map_fst_entries, List.map_map]
    rfl
  · rw [map_number_functions, List.length_map, ← List.length_map Prod.fst,
      s.sites.map_fst_entries, List.length_range]
  · obtain ⟨site, hsite⟩ := hsites p hp
    exact ⟨_, List.mem_map_of_mem ((s.sites.mem_entries_iff _ _).2 hsite), rfl⟩
  · intro f hf
    obtain ⟨⟨n, site⟩, -, rfl⟩ := List.mem_map.1 hf
    rw [hcharged.isSome_iff, hreturns n, ← Nat.pos_iff_ne_zero, List.countP_pos_iff]
    simp only [decide_eq_true_iff]
  · intro f hf c hc
    obtain ⟨⟨n, site⟩, -, rfl⟩ := List.mem_map.1 hf
    have hcost : costs.cost? n = some c := hc
    rw [returnsOf, ← hreturns n, CostTable.calls, hcost]
    rfl
  · rw [s.forest.visits_eq_nil_iff order]
    exact s.forest.maxWidth_eq_zero_iff

/-- **Exports agree with themselves and with each other.**  A session that operations can reach is
exported in either order unless its costs overflow.  Both exports are coherent, and they are the
same but for the order that they name, the order of the visits and their widths. -/
theorem coherent_run (rule : Option Retention) (skipsSynthetic : Bool) (initial : Sample)
    (ops : List Operation)
    (h : CostTable.ofForest ((Session.start rule skipsSynthetic initial).run ops).forest =
      .ok costs) :
    let s := (Session.start rule skipsSynthetic initial).run ops
    ∃ deep wide, ofSession s .depth = .ok deep ∧ ofSession s .width = .ok wide ∧
      deep.Coherent ∧ wide.Coherent ∧
      deep.summary.order = .depth ∧ wide.summary = { deep.summary with order := .width } ∧
      wide.functions = deep.functions ∧
      (wide.visits.map Placed.visit).Perm (deep.visits.map Placed.visit) := by
  intro s
  obtain ⟨c, -, htells⟩ := Session.tells_run rule skipsSynthetic initial ops
  obtain ⟨S, hS, -⟩ := htells.spine
  have hsites : ∀ order, ∀ p ∈ s.forest.visits order, ∃ site,
      s.sites.site? p.visit.function = .ok site :=
    Forest.exists_site_of_mem_visits htells.locateAll_roots
  obtain ⟨deep, hdeep⟩ := exists_ofSession h .depth
  obtain ⟨wide, hwide⟩ := exists_ofSession h .width
  refine ⟨deep, wide, hdeep, hwide, coherent_ofSession hdeep h hS (hsites .depth),
    coherent_ofSession hwide h hS (hsites .width), ?_⟩
  rw [ofSession, h] at hdeep hwide
  cases hdeep
  cases hwide
  exact ⟨rfl, rfl, rfl, s.forest.perm_visit_widthFirst⟩

/-- A return outside gives its site a number and no costs; the call after it is charged once it has
returned. -/
theorem coherent_run_refused_return :
    let main : Site := ⟨"app.py", "main", 3⟩
    let other : Site := ⟨"app.py", "other", 7⟩
    let s := (Session.start none false .zero).run
      [.add ⟨.leave, other, ⟨.zero, 1⟩⟩, .add ⟨.enter, main, ⟨.zero, 10⟩⟩,
        .add ⟨.leave, main, ⟨.zero, 14⟩⟩]
    (∃ costs, CostTable.ofForest s.forest = .ok costs) ∧
    ∃ deep wide, ofSession s .depth = .ok deep ∧ ofSession s .width = .ok wide ∧
      deep.Coherent ∧ wide.Coherent ∧
      deep.functions.map (fun f => (f.site, f.cost.map Cost.count)) =
        [(other, none), (main, some 1)] := by
  intro main other s
  let s₀ := Session.start none false .zero
  let t₁ : Site.Table := ⟨Site.Table.empty.numbers.insert other 0, #[other]⟩
  let t₂ : Site.Table := ⟨t₁.numbers.insert main 1, #[other, main]⟩
  let ended : Invocation := ⟨1, ⟨.zero, 10⟩, some ⟨.zero, 14⟩, []⟩
  have hsettled : ∀ t ∈ [ended], t.Settled :=
    List.forall_mem_singleton.2 (.intro rfl (by simp [ended]))
  let S₂ : Spine := .enter .empty 1 ⟨.zero, 10⟩
  let S₃ : Spine := ⟨[ended], hsettled, [], 0⟩
  let cost : Cost := ⟨1, .zero + (.zero - .zero), 4, 4⟩
  have hother : s₀.sites.number other = .ok (0, t₁) := by
    simp [t₁, s₀, Session.start, other, Site.Table.number, Site.Table.empty]
  have hmain : t₁.number main = .ok (1, t₂) := by
    simp [t₂, t₁, main, other, Site.Table.number, Site.Table.empty]
  have hagain : t₂.number main = .ok (1, t₂) := by
    simp [t₂, t₁, main, Site.Table.number]
  have h₁ : s₀.after (.add ⟨.leave, other, ⟨.zero, 1⟩⟩) = { s₀ with sites := t₁ } := by
    rw [Session.after, Session.perform, Session.add_eq, hother]
    rfl
  have h₂ : ∀ s : Session, s.sites = t₁ → s.forest = .empty none →
      (s.after (.add ⟨.enter, main, ⟨.zero, 10⟩⟩)).sites = t₂ ∧
        (s.after (.add ⟨.enter, main, ⟨.zero, 10⟩⟩)).forest = S₂.forest none := by
    intro s hsites hforest
    rw [Session.after, Session.perform, Session.add_eq, hsites, hmain, hforest]
    exact ⟨rfl, rfl⟩
  have hret : (S₂.forest none).observe .leave 1 ⟨.zero, 14⟩ = .ok (S₃.forest none) :=
    S₂.feed_forest none ⟨.leave, 1, ⟨.zero, 14⟩⟩
  have h₃ : ∀ s : Session, s.sites = t₂ → s.forest = S₂.forest none →
      (s.after (.add ⟨.leave, main, ⟨.zero, 14⟩⟩)).sites = t₂ ∧
        (s.after (.add ⟨.leave, main, ⟨.zero, 14⟩⟩)).forest = S₃.forest none := by
    intro s hsites hforest
    rw [Session.after, Session.perform, Session.add_eq, hsites, hagain, hforest]
    simp only [hret]
    exact ⟨rfl, rfl⟩
  have hs : s.sites = t₂ ∧ s.forest = S₃.forest none := by
    obtain ⟨hsites, hforest⟩ := h₂ { s₀ with sites := t₁ } rfl rfl
    change (s₀.run [_, _, _]).sites = _ ∧ (s₀.run [_, _, _]).forest = _
    rw [Session.run, h₁]
    exact h₃ _ hsites hforest
  have hcosts : CostTable.ofForest s.forest = .ok ⟨CostTable.empty.costs.insert 1 cost⟩ := by
    have hzero : CostTable.empty.costs.getD 1 .zero = .zero := by simp [CostTable.empty]
    have hcharge : CostTable.empty.charge 1 ⟨.zero - .zero, 4⟩ =
        .ok ⟨CostTable.empty.costs.insert 1 cost⟩ := by
      rw [CostTable.charge, hzero]
      rfl
    have hdelta : Sample.sub ⟨.zero, 14⟩ ⟨.zero, 10⟩ = .ok ⟨.zero - .zero, 4⟩ := rfl
    have hspan : CostTable.chargeSpan .empty ⟨1, ⟨.zero, 10⟩, ⟨.zero, 14⟩⟩ =
        .ok ⟨CostTable.empty.costs.insert 1 cost⟩ := by
      rw [CostTable.chargeSpan, hdelta]
      exact hcharge
    have hspans : Invocation.spansAll S₃.roots = [⟨1, ⟨.zero, 10⟩, ⟨.zero, 14⟩⟩] := rfl
    rw [hs.2, CostTable.ofForest_forest, hspans, List.foldlM_cons, hspan]
    rfl
  obtain ⟨deep, wide, hdeep, hwide, hdeepCoherent, hwideCoherent, -⟩ :=
    coherent_run none false .zero _ hcosts
  refine ⟨⟨_, hcosts⟩, deep, wide, hdeep, hwide, hdeepCoherent, hwideCoherent, ?_⟩
  rw [functions_ofSession hdeep hcosts, hs.1]
  simp [t₂, Site.Table.entries, CostTable.cost?, CostTable.empty, cost]

end Export

end CallForest
