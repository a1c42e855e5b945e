import CallForest.Proofs.LevelOrder
import CallForest.Proofs.Operations
import CallForest.Report.Csv
import CallForest.Report.Dump

/-!
# The numbers of a session lead back to its sites

A session holds numbers in the place of sites, and events that fail may have been given numbers as
well.  Still every number in its forest leads back to the site of the events it came from, and no
report of the session meets a number that it does not know.

* `Invocation.mapM_event_walkAll`: the visits of a forest told by a chronicle, read through the
  table, are the events of the chronicle;
* `Csv.exists_rowsOf`, `Dump.onlyOverflows_forest`: reports whose numbers all have sites;
* `Session.located_run`: both for every session that operations can reach.
-/

namespace CallForest

/-- The event that a visit shows, its function read through a table. -/
def Visit.event (t : Site.Table) (v : Visit) : Except Fault Event :=
  (t.site? v.function).map fun site => ⟨v.boundary, site, v.sample⟩

theorem mapM_append_of_eq_ok {α β ε : Type} {f : α → Except ε β} {as as' : List α} {bs bs' : List β}
    (h : as.mapM f = .ok bs) (h' : as'.mapM f = .ok bs') :
    (as ++ as').mapM f = .ok (bs ++ bs') := by
  rw [List.mapM_append, h, h']
  rfl

/-! ### The visits of a forest that is told -/

namespace Invocation

variable {t : Site.Table}

/-- The visits of an episode's own call and return are its events. -/
theorem event_ownVisits {u : Invocation} {x : Episode} (hx : x.Matched)
    (hsite : t.site? u.function = .ok x.call.site) (hentered : u.entered = x.call.sample)
    (hleft : u.left = x.ret.map Event.sample) (depth : Nat) :
    (u.callVisit depth).event t = .ok x.call ∧
      (u.returnVisit? depth).toList.mapM (Visit.event t) = .ok x.ret.toList := by
  obtain ⟨hcall, hret, -⟩ := hx
  obtain ⟨call, ret, callees⟩ := x
  obtain ⟨boundary, site, sample⟩ := call
  simp only at hcall hsite hentered hleft hret
  subst hcall
  refine ⟨?_, ?_⟩
  · simp only [Visit.event, callVisit, hsite, hentered]
    rfl
  · cases ret with
    | none =>
      rw [returnVisit?, hleft]
      rfl
    | some e =>
      obtain ⟨hleave, hback⟩ := hret e rfl
      obtain ⟨boundary, site', sample'⟩ := e
      simp only at hleave hback
      subst hleave hback
      rw [returnVisit?, hleft]
      simp only [Option.map_some, Option.toList_some, List.mapM_cons, List.mapM_nil, Visit.event,
        hsite]
      rfl

/-- **The visits of a forest that is told are the events of its chronicle**, read through the
table. -/
theorem mapM_event_walkAll {us : List Invocation} {xs : List Episode}
    (h : locateAll t us = .ok (Episode.locatedAll xs)) (hmatched : ∀ x ∈ xs, x.Matched)
    (depth : Nat) : (walkAll depth us).mapM (Visit.event t) = .ok (Episode.eventsAll xs) := by
  induction us using listInduction generalizing xs depth with
  | nil =>
    cases xs with
    | nil => rfl
    | cons x xs => cases h
  | cons u us callees ih =>
    obtain ⟨l, ls, hu, hus, hl⟩ := locateAll_cons_eq_ok_iff.1 h
    cases xs with
    | nil => cases hl
    | cons x xs =>
      obtain ⟨rfl, rfl⟩ := List.cons.inj hl
      obtain ⟨s, ks, hs, hks, hx⟩ := locate_eq_ok_iff.1 hu
      rw [Episode.located_eq] at hx
      obtain ⟨rfl, hentered, hleft, rfl⟩ := Located.mk.inj hx
      obtain ⟨hxm, hxs⟩ := List.forall_mem_cons.1 hmatched
      obtain ⟨hcall, hreturn⟩ := event_ownVisits hxm hs hentered.symm hleft.symm depth
      have hcallees : ∀ y ∈ x.callees, y.Matched := by
        cases hxm with
        | intro _ _ hcallees => exact hcallees
      -- The visits of `u` and the events of `x` come in the same order: call, callees, return.
      rw [walkAll, walk_eq, Episode.eventsAll, Episode.events_eq]
      refine mapM_append_of_eq_ok ?_ (ih hus hxs depth)
      rw [List.mapM_cons, hcall]
      have hrest := mapM_append_of_eq_ok (callees hks hcallees (depth + 1)) hreturn
      rw [hrest]
      rfl

/-- Every function in trees that can be read has a site. -/
theorem exists_site_of_mem_walkAll {us : List Invocation} {ls : List Located}
    (h : locateAll t us = .ok ls) (depth : Nat) :
    ∀ v ∈ walkAll depth us, ∃ s, t.site? v.function = .ok s := by
  induction us using listInduction generalizing ls depth with
  | nil => simp [walkAll]
  | cons u us callees ih =>
    obtain ⟨l, ls', hu, hus, -⟩ := locateAll_cons_eq_ok_iff.1 h
    obtain ⟨s, ks, hs, hks, -⟩ := locate_eq_ok_iff.1 hu
    have hreturn : ∀ v ∈ (u.returnVisit? depth).toList, ∃ s, t.site? v.function = .ok s := by
      rw [returnVisit?]
      cases u.left with
      | none => simp
      | some sample => simpa using ⟨s, hs⟩
    rw [walkAll, walk_eq]
    refine List.forall_mem_append.2 ⟨List.forall_mem_cons.2 ⟨⟨s, hs⟩, ?_⟩, ih hus depth⟩
    exact List.forall_mem_append.2 ⟨callees hks (depth + 1), hreturn⟩

end Invocation

theorem Forest.exists_site_of_mem_visits {t : Site.Table} {f : Forest} {ls : List Located}
    (h : Invocation.locateAll t f.roots = .ok ls) (order : Order) :
    ∀ p ∈ f.visits order, ∃ s, t.site? p.visit.function = .ok s := by
  intro p hp
  have hmem : p.visit ∈ Invocation.walkAll 0 f.roots := by
    rw [← f.map_visit_depthFirst]
    cases order with
    | depth => exact List.mem_map_of_mem hp
    | width => exact f.perm_visit_widthFirst.subset (List.mem_map_of_mem hp)
  exact Invocation.exists_site_of_mem_walkAll h 0 p.visit hmem

/-! ### Reports whose numbers have sites -/

section

variable {sites : Site.Table} {f : Forest} {order : Order}

theorem Csv.exists_rowsOf (h : ∀ p ∈ f.visits order, ∃ s, sites.site? p.visit.function = .ok s) :
    ∃ rows, rowsOf f order sites = .ok rows := by
  refine ⟨_, History.mapM_eq_ok_iff.2 ⟨fun p hp => ?_, rfl⟩⟩
  obtain ⟨s, hs⟩ := h p hp
  exact ⟨⟨p, s⟩, by rw [hs]; rfl⟩

namespace Dump

variable {α β : Type}

/-- The text can fail to be written for one reason only, a difference out of range. -/
def OnlyOverflows (w : Writing α) : Prop :=
  ∀ text fault text', w text = .error fault text' → ∃ cause, fault = .overflow cause

theorem OnlyOverflows.of_ok {w : Writing α} (h : ∀ text, ∃ a text', w text = .ok a text') :
    OnlyOverflows w := by
  intro text fault text' hw
  obtain ⟨a, text₁, ha⟩ := h text
  rw [ha] at hw
  cases hw

theorem OnlyOverflows.bind {w : Writing α} {next : α → Writing β} (hw : OnlyOverflows w)
    (hnext : ∀ a, OnlyOverflows (next a)) : OnlyOverflows (w >>= next) := by
  intro text fault text' h
  change EStateM.bind w next text = _ at h
  rw [EStateM.bind] at h
  cases ha : w text with
  | error fault' text₁ =>
    rw [ha] at h
    cases h
    exact hw _ _ _ ha
  | ok a text₁ =>
    rw [ha] at h
    exact hnext a _ _ _ h

theorem onlyOverflows_pure (a : α) : OnlyOverflows (pure a) := .of_ok fun text => ⟨a, text, rfl⟩

theorem onlyOverflows_line (s : String) : OnlyOverflows (line s) :=
  .of_ok fun text => ⟨(), text ++ s ++ "\n", rfl⟩

theorem onlyOverflows_cost (a b : Sample) : OnlyOverflows (cost a b) := by
  intro text fault text' h
  rw [cost] at h
  cases hsub : a.sub b with
  | ok d =>
    rw [hsub] at h
    cases h
  | error cause =>
    rw [hsub] at h
    cases h
    exact ⟨cause, rfl⟩

theorem onlyOverflows_siteOf {n : Nat} (h : ∃ s, sites.site? n = .ok s) :
    OnlyOverflows (siteOf sites n) := by
  obtain ⟨s, hs⟩ := h
  rw [siteOf, hs]
  exact onlyOverflows_pure s

theorem onlyOverflows_visitLine {p : Placed} (hp : ∃ s, sites.site? p.visit.function = .ok s)
    (baseline previous : Sample) : OnlyOverflows (visitLine sites baseline previous p) :=
  (onlyOverflows_siteOf hp).bind fun _ => (onlyOverflows_cost _ _).bind fun relative =>
    (onlyOverflows_cost _ _).bind fun _ => (onlyOverflows_line _).bind fun _ =>
      onlyOverflows_pure relative

theorem onlyOverflows_visitLines {ps : List Placed}
    (h : ∀ p ∈ ps, ∃ s, sites.site? p.visit.function = .ok s) (baseline previous : Sample) :
    OnlyOverflows (ps.foldlM (visitLine sites baseline) previous) := by
  induction ps generalizing previous with
  | nil => exact onlyOverflows_pure previous
  | cons p ps ih =>
    obtain ⟨hp, hps⟩ := List.forall_mem_cons.1 h
    rw [List.foldlM_cons]
    exact (onlyOverflows_visitLine hp baseline previous).bind (ih hps)

/-- A dump of visits that all have sites fails only where a difference is out of range. -/
theorem onlyOverflows_forest
    (h : ∀ p ∈ f.visits order, ∃ s, sites.site? p.visit.function = .ok s) (baseline : Sample) :
    OnlyOverflows (forest f order baseline sites) :=
  (onlyOverflows_line _).bind fun _ => (onlyOverflows_visitLines h baseline .zero).bind fun _ =>
    (onlyOverflows_line _).bind fun _ => onlyOverflows_pure _

end Dump

end

namespace Session

/-- **The numbers of a session lead back to its sites.**  After any operations, failed ones
included, the forest of a session is the one that the events taken in build, episode by episode:
every number is one of the table, and leads to the site of the call that began the activation, which
is that of the return that ended it as well.  So reports of either order find every site, and a dump
can only fail in a difference.  Without a rule, the visits in depth-first order, read through the
table, are the events taken in. -/
theorem located_run (rule : Option Retention) (skipsSynthetic : Bool) (initial : Sample)
    (ops : List Operation) :
    let start := start rule skipsSynthetic initial
    let s := start.run ops
    (∃ c, (start.accepted ops).foldlM (Chronicle.observe rule) .empty = .ok c ∧
      (∀ x ∈ c.roots, x.Matched) ∧ s.located = .ok (Episode.locatedAll c.roots)) ∧
    (∀ v ∈ Invocation.walkAll 0 s.forest.roots, v.function < s.sites.size) ∧
    (∀ order, ∃ rows, Csv.rowsOf s.forest order s.sites = .ok rows) ∧
    (∀ order baseline, Dump.OnlyOverflows (Dump.forest s.forest order baseline s.sites)) ∧
    (let start := Session.start none skipsSynthetic initial
      let s := start.run ops
      (s.forest.depthFirst.map Placed.visit).mapM (Visit.event s.sites) =
        .ok (start.accepted ops)) := by
  intro start s
  obtain ⟨c, hc, htells⟩ := tells_run rule skipsSynthetic initial ops
  have hlocated : s.located = .ok (Episode.locatedAll c.roots) := htells.locateAll_roots
  have hmatched : ∀ x ∈ c.roots, x.Matched := (Chronicle.sound_empty.foldlM hc).roots
  have hsites : ∀ order, ∀ p ∈ s.forest.visits order, ∃ site,
      s.sites.site? p.visit.function = .ok site := fun order =>
    Forest.exists_site_of_mem_visits hlocated order
  refine ⟨⟨c, hc, hmatched, hlocated⟩, fun v hv => ?_,
    fun order => Csv.exists_rowsOf (hsites order),
    fun order baseline => Dump.onlyOverflows_forest (hsites order) baseline, ?_⟩
  · obtain ⟨site, hsite⟩ := Invocation.exists_site_of_mem_walkAll hlocated 0 v hv
    have hsize : s.sites.size = s.sites.sites.size := htells.size
    rw [hsize]
    exact (Array.getElem?_eq_some_iff.1 (Site.Table.site?_eq_ok_iff.1 hsite)).1
  · intro start s
    obtain ⟨c, hc, htells⟩ := tells_run none skipsSynthetic initial ops
    have hevents : c.events = start.accepted ops := Chronicle.events_of_foldlM hc
    rw [s.forest.map_visit_depthFirst, ← hevents]
    exact Invocation.mapM_event_walkAll htells.locateAll_roots
      (Chronicle.sound_empty.foldlM hc).roots 0

/-- A return outside fails and still gives its site the first number; the call after it gets the
second one, and its visit is read as that call. -/
theorem located_run_refused_return :
    let main : Site := ⟨"app.py", "main", 3⟩
    let other : Site := ⟨"app.py", "other", 7⟩
    let ops : List Operation :=
      [.record ⟨.leave, other, ⟨.zero, 1⟩⟩, .record ⟨.enter, main, ⟨.zero, 2⟩⟩]
    let s := (start none false .zero).run ops
    s.sites.sites = #[other, main] ∧
      (s.forest.depthFirst.map Placed.visit).mapM (Visit.event s.sites) =
        .ok [⟨.enter, main, ⟨.zero, 2⟩⟩] := by
  intro main other ops s
  let s₀ := start none false .zero
  let t₁ : Site.Table := ⟨Site.Table.empty.numbers.insert other 0, #[other]⟩
  let t₂ : Site.Table := ⟨t₁.numbers.insert main 1, #[other, main]⟩
  have hother : s₀.sites.number other = .ok (0, t₁) := by
    simp [t₁, s₀, start, other, Site.Table.number, Site.Table.empty]
  have hmain : t₁.number main = .ok (1, t₂) := by
    simp [t₂, t₁, main, other, Site.Table.number, Site.Table.empty]
  have h₁ : s₀.record ⟨.leave, other, ⟨.zero, 1⟩⟩ =
      .error (.leaveOutside 0) { s₀ with sites := t₁ } := by
    rw [record_eq rfl rfl, hother]
    rfl
  have h₂ : ∃ s₂, { s₀ with sites := t₁ }.record ⟨.enter, main, ⟨.zero, 2⟩⟩ = .ok () s₂ ∧
      s₂.sites = t₂ := by
    rw [record_eq rfl rfl, hmain]
    exact ⟨_, rfl, rfl⟩
  obtain ⟨s₂, h₂, hsites⟩ := h₂
  refine ⟨?_, ((located_run none false .zero ops).2.2.2.2).trans ?_⟩
  · change (s₀.run ops).sites.sites = _
    simp only [ops, run, after, perform, numbering, h₁, h₂, hsites, t₂]
  · change Except.ok (s₀.accepted ops) = _
    simp only [ops, accepted, accepts, after, perform, numbering, h₁, h₂]
    rfl

end Session

end CallForest
