import CallForest.Proofs.DepthFirst
import CallForest.Proofs.Recording
import CallForest.Proofs.Splicing
import Mathlib.Data.List.Basic

/-!
# Passing over synthetic sites

A session that passes over the events of synthetic sites numbers the other sites in another way and
builds trees of another shape than a session that takes them all in.  Read by their sites, the trees
of the one are those of the other with the synthetic activations spliced out.

* `Located`, `Session.located`: trees with sites in the place of numbers;
* `Invocation.locateAll_carry`: splicing by numbers is splicing by sites;
* `Session.recordAll_of_keeping`: what a session that passes nothing over records, one that passes
  over synthetic sites records as well, and what it builds is the rest of those trees.
-/

namespace CallForest

/-- An activation with the site of its function. -/
structure Located where
  site : Site
  entered : Sample
  left : Option Sample
  callees : List Located

namespace Located

mutual

/-- A tree without the activations of some sites; what these called takes their place. -/
def splice (out : Site → Bool) : Located → List Located
  | ⟨site, entered, left, callees⟩ =>
    if out site then spliceAll out callees else [⟨site, entered, left, spliceAll out callees⟩]

/-- Trees without the activations of some sites. -/
def spliceAll (out : Site → Bool) : List Located → List Located
  | [] => []
  | t :: ts => t.splice out ++ spliceAll out ts

end

end Located

namespace Invocation

mutual

/-- The tree with the sites that a table gives to its numbers. -/
def locate (t : Site.Table) : Invocation → Except Fault Located
  | ⟨function, entered, left, callees⟩ => do
    let site ← t.site? function
    let callees ← locateAll t callees
    return ⟨site, entered, left, callees⟩

/-- The trees with the sites that a table gives to their numbers. -/
def locateAll (t : Site.Table) : List Invocation → Except Fault (List Located)
  | [] => return []
  | u :: us => do
    let located ← u.locate t
    let others ← locateAll t us
    return located :: others

end

theorem locate_of_ok {t : Site.Table} {u : Invocation} {s : Site} {ls : List Located}
    (hsite : t.site? u.function = .ok s) (hcallees : locateAll t u.callees = .ok ls) :
    u.locate t = .ok ⟨s, u.entered, u.left, ls⟩ := by
  cases u
  simp only at hsite hcallees
  rw [locate, hsite, hcallees]
  rfl

theorem locateAll_cons_of_ok {t : Site.Table} {u : Invocation} {us : List Invocation} {l : Located}
    {ls : List Located} (hu : u.locate t = .ok l) (hus : locateAll t us = .ok ls) :
    locateAll t (u :: us) = .ok (l :: ls) := by
  rw [locateAll, hu, hus]
  rfl

theorem locateAll_append_of_ok {t : Site.Table} {us vs : List Invocation} {ks ls : List Located}
    (hus : locateAll t us = .ok ks) (hvs : locateAll t vs = .ok ls) :
    locateAll t (us ++ vs) = .ok (ks ++ ls) := by
  induction us generalizing ks with
  | nil =>
    cases hus
    exact hvs
  | cons u us ih =>
    rw [locateAll] at hus
    cases hu : u.locate t with
    | error fault =>
      rw [hu] at hus
      cases hus
    | ok k =>
      cases hrest : locateAll t us with
      | error fault =>
        rw [hu, hrest] at hus
        cases hus
      | ok ks' =>
        rw [hu, hrest] at hus
        cases hus
        exact locateAll_cons_of_ok hu (ih hrest)

end Invocation

namespace Site.Table

/-- The numbers of one table in another; those of synthetic sites are left out. -/
def carry (t t' : Table) : Relabelling := fun n =>
  t.sites[n]?.bind fun s => if s.isSynthetic then none else t'.numbers[s]?

/-- The number is that of a site which the other table knows as well, unless it is synthetic. -/
def Carries (t t' : Table) (n : Nat) : Prop :=
  ∃ s, t.sites[n]? = some s ∧ (s.isSynthetic = false → ∃ m : Nat, t'.numbers[s]? = some m)

end Site.Table

namespace Invocation

/-- **Splicing by numbers is splicing by sites.** -/
theorem locateAll_carry {t t' : Site.Table} (ht' : t'.Consistent) (depth : Nat)
    (ts : List Invocation) (h : ∀ v ∈ walkAll depth ts, t.Carries t' v.function) :
    ∃ ls, locateAll t ts = .ok ls ∧
      locateAll t' (relabelAll (t.carry t') ts) = .ok (Located.spliceAll Site.isSynthetic ls) := by
  induction ts using listInduction generalizing depth with
  | nil => exact ⟨[], rfl, rfl⟩
  | cons u us callees ih =>
    rw [walkAll, walk_eq] at h
    obtain ⟨htree, hus⟩ := List.forall_mem_append.1 h
    obtain ⟨hcall, htree⟩ := List.forall_mem_cons.1 htree
    obtain ⟨hcallees, -⟩ := List.forall_mem_append.1 htree
    obtain ⟨s, hs, hm⟩ : t.Carries t' u.function := hcall
    obtain ⟨ks, hks, hks'⟩ := callees (depth + 1) hcallees
    obtain ⟨ls, hls, hls'⟩ := ih depth hus
    have hu : u.locate t = .ok ⟨s, u.entered, u.left, ks⟩ :=
      locate_of_ok (Site.Table.site?_eq_ok_iff.2 hs) hks
    refine ⟨_, locateAll_cons_of_ok hu hls, ?_⟩
    rw [relabelAll, Located.spliceAll]
    refine locateAll_append_of_ok ?_ hls'
    rw [Located.splice]
    cases hsynthetic : s.isSynthetic with
    | true =>
      have hnone : t.carry t' u.function = none := by
        simp [Site.Table.carry, hs, hsynthetic]
      rw [relabel_of_none hnone]
      exact hks'
    | false =>
      obtain ⟨m, hm⟩ := hm hsynthetic
      have hsome : t.carry t' u.function = some m := by
        simp [Site.Table.carry, hs, hsynthetic, hm]
      rw [relabel_of_some hsome]
      have hsite : t'.site? m = .ok s := Site.Table.site?_eq_ok_iff.2 ((ht' s m).1 hm)
      exact locateAll_cons_of_ok (locate_of_ok hsite hks') rfl

end Invocation

namespace Session

/-- The trees of a session with the sites of their functions. -/
def located (s : Session) : Except Fault (List Located) :=
  Invocation.locateAll s.sites s.forest.roots

section

variable {t t' : Site.Table} {es : List Event}
variable (ht : t.Consistent) (hes : ∀ e ∈ es, ∃ n : Nat, t.numbers[e.site]? = some n)
variable (hes' : ∀ e ∈ taken true es, ∃ m : Nat, t'.numbers[e.site]? = some m)
include ht hes hes'

theorem carries_crossing : ∀ e ∈ es, t.Carries t' (e.crossing t).function := by
  intro e he
  obtain ⟨n, hn⟩ := hes e he
  refine ⟨e.site, ?_, fun hs => hes' e (mem_taken_true.2 ⟨he, hs⟩)⟩
  rw [Event.crossing, hn, Option.getD_some]
  exact (ht e.site n).1 hn

/-- Carried to the numbers of the second table, the events are those that were not passed over. -/
theorem filterMap_relabel_crossing :
    (es.map (Event.crossing t)).filterMap (Crossing.relabel (t.carry t')) =
      (taken true es).map (Event.crossing t') := by
  have hrelabel : ∀ e ∈ es, (e.crossing t).relabel (t.carry t') =
      if e.site.isSynthetic then none else some (e.crossing t') := by
    intro e he
    obtain ⟨n, hn⟩ := hes e he
    rw [Event.crossing, hn, Option.getD_some, Crossing.relabel, Site.Table.carry,
      (ht e.site n).1 hn, Option.bind_some]
    cases hs : e.site.isSynthetic with
    | true => rfl
    | false =>
      obtain ⟨m, hm⟩ := hes' e (mem_taken_true.2 ⟨he, hs⟩)
      rw [Event.crossing, hm]
      rfl
  rw [List.filterMap_map, ← List.filterMap_eq_map, taken, List.filterMap_filter]
  refine List.filterMap_congr fun e he => (hrelabel e he).trans ?_
  cases e.site.isSynthetic <;> rfl

/-- All numbers in the trees come from events. -/
theorem carries_walkAll {f : Forest}
    (hfeed : (es.map (Event.crossing t)).foldlM Forest.feed (.empty none) = .ok f) :
    ∀ v ∈ Invocation.walkAll 0 f.roots, t.Carries t' v.function := by
  intro v hv
  have hmem := List.mem_map_of_mem (f := Visit.crossing) hv
  rw [Forest.map_crossing_walkAll_of_foldlM hfeed] at hmem
  obtain ⟨e, he, hev⟩ := List.mem_map.1 hmem
  have hfunction : v.function = (e.crossing t).function := by
    rw [hev]
    rfl
  rw [hfunction]
  exact carries_crossing ht hes hes' e he

end

/-- The sites that are not passed over can be numbered if all sites can. -/
theorem exists_numberAll_taken {es : List Event} {t : Site.Table}
    (h : Site.Table.empty.numberAll (es.map Event.site) = .ok t) :
    ∃ t', Site.Table.empty.numberAll ((taken true es).map Event.site) = .ok t' := by
  have hlines := (Site.Table.exists_numberAll_iff .empty (es.map Event.site)).1 ⟨t, h⟩
  refine (Site.Table.exists_numberAll_iff _ _).2 fun u hu => ?_
  obtain ⟨e, he, rfl⟩ := List.mem_map.1 hu
  exact hlines _ (List.mem_map_of_mem (mem_taken_true.1 he).1)

/-- **Passing over synthetic sites keeps a good recording good.**  When a session that passes
nothing over records events without a fault, one that passes over synthetic sites does so as well.
Its trees, by their sites, are those of the first with the synthetic activations spliced out. -/
theorem recordAll_of_keeping (initial initial' : Sample) {es : List Event} {s : Session}
    (h : (start none false initial).recordAll es = .ok () s) :
    ∃ s' ts, (start none true initial').recordAll es = .ok () s' ∧ s.located = .ok ts ∧
      s'.located = .ok (Located.spliceAll Site.isSynthetic ts) := by
  obtain ⟨hnumber, hfeed⟩ :=
    (exists_recordAll_start_iff none false initial es s.sites s.forest).1 ⟨s, h, rfl, rfl⟩
  rw [taken_false] at hnumber hfeed
  obtain ⟨t', hnumber'⟩ := exists_numberAll_taken hnumber
  obtain ⟨hes, -, ht⟩ := Site.Table.numberAll_spec hnumber
  obtain ⟨hes', -, ht'⟩ := Site.Table.numberAll_spec hnumber'
  rw [List.forall_mem_map] at hes hes'
  -- The second session takes in the events of the first, carried to its own numbers.
  obtain ⟨f', hfeed', hroots⟩ := Forest.foldlM_relabel (s.sites.carry t') hfeed
  rw [filterMap_relabel_crossing (ht Site.Table.consistent_empty) hes hes'] at hfeed'
  obtain ⟨s', hs', hsites', hforest'⟩ :=
    (exists_recordAll_start_iff none true initial' es t' f').2 ⟨hnumber', hfeed'⟩
  have hcarries := carries_walkAll (ht Site.Table.consistent_empty) hes hes' hfeed
  obtain ⟨ts, hts, hts'⟩ :=
    Invocation.locateAll_carry (ht' Site.Table.consistent_empty) 0 s.forest.roots hcarries
  refine ⟨s', ts, hs', hts, ?_⟩
  rw [located, hsites', hforest', hroots]
  exact hts'

/-- The body of a module, still running, called one function twice; without it, two trees are left
and the second is open. -/
theorem recordAll_inside_module :
    let body : Site := ⟨"app.py", "<module>", 1⟩
    let main : Site := ⟨"app.py", "main", 3⟩
    let es : List Event :=
      [⟨.enter, body, ⟨.zero, 1⟩⟩, ⟨.enter, main, ⟨.zero, 2⟩⟩, ⟨.leave, main, ⟨.zero, 3⟩⟩,
        ⟨.enter, main, ⟨.zero, 4⟩⟩]
    ∃ s s', (start none false .zero).recordAll es = .ok () s ∧
      (start none true .zero).recordAll es = .ok () s' ∧
      s'.located = .ok [⟨main, ⟨.zero, 2⟩, some ⟨.zero, 3⟩, []⟩, ⟨main, ⟨.zero, 4⟩, none, []⟩] := by
  intro body main es
  let t : Site.Table := ⟨(Site.Table.empty.numbers.insert body 0).insert main 1, #[body, main]⟩
  have hnumber : Site.Table.empty.numberAll (es.map Event.site) = .ok t := by
    simp [t, es, Site.Table.numberAll, Site.Table.number, Site.Table.empty, body, main]
  have hcrossings : es.map (Event.crossing t) =
      [⟨.enter, 0, ⟨.zero, 1⟩⟩, ⟨.enter, 1, ⟨.zero, 2⟩⟩, ⟨.leave, 1, ⟨.zero, 3⟩⟩,
        ⟨.enter, 1, ⟨.zero, 4⟩⟩] := by
    simp [t, es, Event.crossing, body, main, Std.HashMap.getElem_insert]
  have hfeed : (es.map (Event.crossing t)).foldlM Forest.feed (.empty none) =
      .ok ⟨[⟨0, ⟨.zero, 1⟩, none,
        [⟨1, ⟨.zero, 2⟩, some ⟨.zero, 3⟩, []⟩, ⟨1, ⟨.zero, 4⟩, none, []⟩]⟩], none, 0⟩ := by
    rw [hcrossings, Forest.foldlM_empty]
    rfl
  obtain ⟨s, hs, hsites, hforest⟩ :=
    (exists_recordAll_start_iff none false .zero es t _).2 ⟨hnumber, hfeed⟩
  obtain ⟨s', ts, hs', hts, hts'⟩ := recordAll_of_keeping .zero .zero hs
  refine ⟨s, s', hs, hs', hts'.trans ?_⟩
  rw [located, hsites, hforest] at hts
  cases hts
  have hbody : body.isSynthetic = true := by decide
  have hmain : main.isSynthetic = false := by decide
  simp [t, Located.spliceAll, Located.splice, hbody, hmain]

end Session

end CallForest
