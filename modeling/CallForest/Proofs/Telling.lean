import CallForest.Proofs.Episodes

/-!
# Forests told by chronicles

A chronicle tells a forest if the forest, read through a table of sites, has the sites and samples
of the chronicle's events.  The table grows while events come in; what it has once told stays so.

* `Chronicle.Tells`: the relation between a chronicle, a table and a forest;
* `Chronicle.Tells.observe`: an event does to the forest what it does to the chronicle, and is
  refused by the one for the reason that the other gives.
-/

namespace CallForest

namespace Site.Table

variable {t t' : Table} {n : Nat} {s : Site}

theorem Consistent.site?_eq_ok_iff (h : t.Consistent) :
    t.site? n = .ok s ↔ t.numbers[s]? = some n :=
  Table.site?_eq_ok_iff.trans (h s n).symm

/-- A number keeps its site. -/
theorem Consistent.site?_of_extends (ht : t.Consistent) (ht' : t'.Consistent)
    (hext : t.Extends t') (hs : t.site? n = .ok s) : t'.site? n = .ok s :=
  ht'.site?_eq_ok_iff.2 (hext s n (ht.site?_eq_ok_iff.1 hs))

/-- The number of a site that has one. -/
def numberOf (t : Table) (s : Site) : Nat := t.numbers[s]?.getD 0

theorem numberOf_eq (h : t.numbers[s]? = some n) : t.numberOf s = n := by
  rw [numberOf, h]
  rfl

end Site.Table

namespace Invocation

variable {t : Site.Table}

theorem locate_eq_ok_iff {u : Invocation} {l : Located} :
    u.locate t = .ok l ↔
      ∃ s ls, t.site? u.function = .ok s ∧ locateAll t u.callees = .ok ls ∧
        l = ⟨s, u.entered, u.left, ls⟩ := by
  obtain ⟨function, entered, left, callees⟩ := u
  rw [locate]
  cases t.site? function with
  | error fault => simp [bind, Except.bind]
  | ok s =>
    cases locateAll t callees with
    | error fault => simp [bind, Except.bind]
    | ok ls => simp [bind, Except.bind, pure, Except.pure, eq_comm]

theorem locateAll_cons_eq_ok_iff {u : Invocation} {us : List Invocation} {ls : List Located} :
    locateAll t (u :: us) = .ok ls ↔
      ∃ l ls', u.locate t = .ok l ∧ locateAll t us = .ok ls' ∧ ls = l :: ls' := by
  rw [locateAll]
  cases u.locate t with
  | error fault => simp [bind, Except.bind]
  | ok l =>
    cases locateAll t us with
    | error fault => simp [bind, Except.bind]
    | ok ls' => simp [bind, Except.bind, pure, Except.pure, eq_comm]

/-- Trees read through a table are read in the same way through every later one. -/
theorem locateAll_of_extends {t' : Site.Table} (ht : t.Consistent) (ht' : t'.Consistent)
    (hext : t.Extends t') {us : List Invocation} {ls : List Located}
    (h : locateAll t us = .ok ls) : locateAll t' us = .ok ls := by
  induction us using listInduction generalizing ls with
  | nil => exact h
  | cons u us callees ih =>
    obtain ⟨l, ls', hu, hus, rfl⟩ := locateAll_cons_eq_ok_iff.1 h
    obtain ⟨s, ks, hs, hks, rfl⟩ := locate_eq_ok_iff.1 hu
    exact locateAll_cons_of_ok (locate_of_ok (ht.site?_of_extends ht' hext hs) (callees hks))
      (ih hus)

end Invocation

/-- The fault of a refused event, with the numbers that a table gives to the sites. -/
def Refusal.fault (t : Site.Table) : Refusal → Fault
  | outside site => .leaveOutside (t.numberOf site)
  | mismatch expected found => .mismatch (t.numberOf expected) (t.numberOf found)
  | unanswered cause => .overflow cause

namespace Chronicle

/-- The parts of a chronicle are those of a spine, read through a table. -/
structure TellsSpine (c : Chronicle) (t : Site.Table) (S : Spine) : Prop where
  past : Invocation.locateAll t S.trees = .ok (Episode.locatedAll c.past)
  running : Invocation.locateAll t (S.pending.map Pending.node) =
    .ok (Episode.locatedAll (c.running.map Opening.episode))
  dropped : S.dropped = c.dropped

/-- A chronicle tells a forest: the forest can be taken apart into a spine, and the chronicle's
parts are those of the spine, read through the table. -/
structure Tells (c : Chronicle) (t : Site.Table) (f : Forest) : Prop where
  consistent : t.Consistent
  size : t.numbers.size = t.sites.size
  spine : ∃ S : Spine, f = S.forest f.rule ∧ c.TellsSpine t S

variable {c : Chronicle} {t : Site.Table} {S : Spine} {e : Event} {n : Nat}

namespace TellsSpine

theorem of_extends {t' : Site.Table} (h : c.TellsSpine t S) (ht : t.Consistent)
    (ht' : t'.Consistent) (hext : t.Extends t') : c.TellsSpine t' S :=
  ⟨Invocation.locateAll_of_extends ht ht' hext h.past,
    Invocation.locateAll_of_extends ht ht' hext h.running, h.dropped⟩

theorem running_eq_nil_iff (h : c.TellsSpine t S) : c.running = [] ↔ S.pending = [] := by
  obtain ⟨past, running, dropped⟩ := c
  obtain ⟨trees, settled, pending, count⟩ := S
  have hrunning := h.running
  cases pending with
  | nil =>
    cases running with
    | nil => simp
    | cons o outer => cases hrunning
  | cons p outer =>
    obtain ⟨l, ls, -, -, hl⟩ := Invocation.locateAll_cons_eq_ok_iff.1 hrunning
    cases running with
    | nil => cases hl
    | cons o outer => simp

/-- The innermost opening is the innermost pending activation. -/
theorem of_cons (h : c.TellsSpine t S) {o : Opening} {outer : List Opening}
    (hrunning : c.running = o :: outer) :
    ∃ p waiting, S.pending = p :: waiting ∧ t.site? p.node.function = .ok o.call.site ∧
      p.node.entered = o.call.sample ∧
      Invocation.locateAll t p.node.callees = .ok (Episode.locatedAll o.callees) ∧
      TellsSpine { c with running := outer } t { S with pending := waiting } := by
  cases hpending : S.pending with
  | nil =>
    rw [h.running_eq_nil_iff.2 hpending] at hrunning
    cases hrunning
  | cons p waiting =>
    have hall := h.running
    rw [hpending, hrunning] at hall
    obtain ⟨l, ls, hp, hwaiting, hl⟩ := Invocation.locateAll_cons_eq_ok_iff.1 hall
    obtain ⟨s, ks, hs, hks, hlocated⟩ := Invocation.locate_eq_ok_iff.1 hp
    rw [List.map_cons, Episode.locatedAll, Episode.located_eq] at hl
    obtain ⟨rfl, rfl⟩ := List.cons.inj hl
    obtain ⟨hsite, hentered, -, hcallees⟩ := Located.mk.inj hlocated
    subst hcallees
    refine ⟨p, waiting, rfl, ?_, hentered.symm, hks, ⟨h.past, hwaiting, h.dropped⟩⟩
    exact hs.trans (congrArg _ hsite.symm)

/-- A chronicle and a spine with one more ended episode. -/
theorem settle (h : c.TellsSpine t S) {x : Episode} {u : Invocation} (hu : u.Settled)
    (hx : u.locate t = .ok x.located) :
    (c.settle x).TellsSpine t (S.settle [u] (by simpa using hu)) := by
  have hsingle : Invocation.locateAll t [u] = .ok (Episode.locatedAll [x]) :=
    Invocation.locateAll_cons_of_ok hx rfl
  cases hrunning : c.running with
  | nil =>
    have hpending := h.running_eq_nil_iff.1 hrunning
    obtain ⟨past, running, dropped⟩ := c
    obtain ⟨trees, settled, pending, count⟩ := S
    cases hrunning
    cases hpending
    refine ⟨?_, h.running, h.dropped⟩
    simp only [Spine.settle, Chronicle.settle, Episode.locatedAll_append]
    exact Invocation.locateAll_append_of_ok h.past hsingle
  | cons o outer =>
    obtain ⟨p, waiting, hpending, hs, hentered, hcallees, hrest⟩ := h.of_cons hrunning
    obtain ⟨past, running, dropped⟩ := c
    obtain ⟨trees, settled, pending, count⟩ := S
    cases hrunning
    cases hpending
    refine ⟨h.past, ?_, h.dropped⟩
    simp only [Spine.settle, Chronicle.settle, List.map_cons, Episode.locatedAll]
    refine Invocation.locateAll_cons_of_ok ?_ hrest.running
    refine (Invocation.locate_of_ok (u := (p.add [u] _).node) hs
      (Invocation.locateAll_append_of_ok hcallees hsingle)).trans ?_
    simp only [Pending.add, Episode.located_eq, Opening.episode, Episode.locatedAll_append,
      hentered, p.left_eq]
    rfl

theorem enter (h : c.TellsSpine t S) (hn : t.site? n = .ok e.site) :
    (c.enter e).TellsSpine t (S.enter n e.sample) :=
  ⟨h.past, Invocation.locateAll_cons_of_ok (Invocation.locate_of_ok hn rfl) h.running, h.dropped⟩

theorem leave {o : Opening} {outer : List Opening} {p : Pending} {waiting : List Pending}
    (hs : t.site? p.node.function = .ok o.call.site) (hentered : p.node.entered = o.call.sample)
    (hcallees : Invocation.locateAll t p.node.callees = .ok (Episode.locatedAll o.callees))
    (hrest : TellsSpine { c with running := outer } t { S with pending := waiting })
    (e : Event) (v : Verdict) :
    (c.leave o outer e v).TellsSpine t (S.leave p waiting e.sample v) := by
  cases v with
  | dropped => exact ⟨hrest.past, hrest.running, congrArg (· + 1) hrest.dropped⟩
  | kept =>
    refine hrest.settle (p.settled_leave e.sample) ?_
    refine (Invocation.locate_of_ok (u := p.leave e.sample) hs hcallees).trans ?_
    rw [Episode.located_eq]
    simp only [Pending.leave, hentered]
    rfl

/-- **An event does to a spine what it does to the chronicle.** -/
theorem observe (h : c.TellsSpine t S) (rule : Option Retention) (ht : t.Consistent)
    (hn : t.numbers[e.site]? = some n) :
    match c.observe rule e with
    | .ok c' => ∃ S', S.observe rule ⟨e.boundary, n, e.sample⟩ = .ok S' ∧ c'.TellsSpine t S'
    | .error r => S.observe rule ⟨e.boundary, n, e.sample⟩ = .error (r.fault t) := by
  have hsite : t.site? n = .ok e.site := ht.site?_eq_ok_iff.2 hn
  obtain ⟨boundary, site, sample⟩ := e
  cases boundary with
  | enter => exact ⟨_, rfl, h.enter hsite⟩
  | leave =>
    cases hrunning : c.running with
    | nil =>
      have hpending := h.running_eq_nil_iff.1 hrunning
      simp only [Chronicle.observe, hrunning, Spine.observe, hpending, Refusal.fault,
        Site.Table.numberOf_eq hn]
    | cons o outer =>
      obtain ⟨p, waiting, hpending, hs, hentered, hcallees, hrest⟩ := h.of_cons hrunning
      have hfunction : t.numbers[o.call.site]? = some p.node.function :=
        ht.site?_eq_ok_iff.1 hs
      simp only [Chronicle.observe, hrunning, Spine.observe, hpending]
      -- The numbers are the same just if the sites are.
      by_cases heq : o.call.site = site
      · have hnumber : p.node.function = n := by
          rw [heq, hn] at hfunction
          exact (Option.some.inj hfunction).symm
        rw [if_pos heq, if_pos hnumber, Invocation.judge_eq_verdict, hentered]
        cases Retention.verdict rule o.call.sample sample with
        | error cause => rfl
        | ok v => exact ⟨_, rfl, leave hs hentered hcallees hrest ⟨.leave, site, sample⟩ v⟩
      · have hnumber : p.node.function ≠ n := by
          rintro rfl
          rw [hsite] at hs
          exact heq (Except.ok.inj hs).symm
        rw [if_neg heq, if_neg hnumber]
        simp only [Refusal.fault, Site.Table.numberOf_eq hn, Site.Table.numberOf_eq hfunction]

theorem locateAll_rootsWith (h : c.TellsSpine t S) {us : List Invocation} {ys : List Episode}
    (hus : Invocation.locateAll t us = .ok (Episode.locatedAll ys)) :
    Invocation.locateAll t (Spine.rootsWith S.trees S.pending us) =
      .ok (Episode.locatedAll (rootsWith c.past c.running ys)) := by
  induction hrunning : c.running generalizing c S us ys with
  | nil =>
    rw [h.running_eq_nil_iff.1 hrunning, rootsWith, Episode.locatedAll_append]
    exact Invocation.locateAll_append_of_ok h.past hus
  | cons o outer ih =>
    obtain ⟨p, waiting, hpending, hs, hentered, hcallees, hrest⟩ := h.of_cons hrunning
    rw [hpending]
    refine ih hrest ?_ rfl
    refine Invocation.locateAll_cons_of_ok ?_ rfl
    refine (Invocation.locate_of_ok (u := p.node.pushAll us) hs
      (Invocation.locateAll_append_of_ok hcallees hus)).trans ?_
    simp only [Invocation.pushAll, Episode.located_eq, Episode.locatedAll_append, hentered,
      p.left_eq]
    rfl

end TellsSpine

namespace Tells

variable {f : Forest}

theorem empty (rule : Option Retention) : Chronicle.empty.Tells .empty (.empty rule) :=
  ⟨Site.Table.consistent_empty, rfl, .empty, rfl, rfl, rfl, rfl⟩

/-- The trees of a forest, read through the table, are the episodes of the chronicle. -/
theorem locateAll_roots (h : c.Tells t f) :
    Invocation.locateAll t f.roots = .ok (Episode.locatedAll c.roots) := by
  obtain ⟨S, hf, hS⟩ := h.spine
  have hroots : f.roots = S.roots := congrArg Forest.roots hf
  rw [hroots, Spine.roots_eq_rootsWith]
  exact hS.locateAll_rootsWith rfl

theorem droppedCount_eq (h : c.Tells t f) : f.droppedCount = c.dropped := by
  obtain ⟨S, hf, hS⟩ := h.spine
  exact (congrArg Forest.droppedCount hf).trans hS.dropped

theorem isOpen_iff (h : c.Tells t f) : f.isOpen = true ↔ c.running ≠ [] := by
  obtain ⟨S, hf, hS⟩ := h.spine
  rw [hf, Spine.isOpen_forest, ne_eq, ne_eq, hS.running_eq_nil_iff]

/-- A site that gets its number changes nothing of what is told. -/
theorem number {t' : Site.Table} (h : c.Tells t f) {s : Site} (hn : t.number s = .ok (n, t')) :
    c.Tells t' f := by
  obtain ⟨-, hext, hconsistent⟩ := Site.Table.number_spec hn
  obtain ⟨S, hf, hS⟩ := h.spine
  have ht' := hconsistent h.consistent
  exact ⟨ht', Site.Table.size_eq_of_number hn h.size, S, hf, hS.of_extends h.consistent ht' hext⟩

/-- **An event does to a forest what it does to the chronicle.** -/
theorem observe (h : c.Tells t f) (hn : t.numbers[e.site]? = some n) :
    match c.observe f.rule e with
    | .ok c' => ∃ f', f.observe e.boundary n e.sample = .ok f' ∧ c'.Tells t f' ∧ f'.rule = f.rule
    | .error r => f.observe e.boundary n e.sample = .error (r.fault t) := by
  obtain ⟨S, hf, hS⟩ := h.spine
  have hobserve := hS.observe f.rule h.consistent hn
  have hfeed : f.observe e.boundary n e.sample =
      (S.observe f.rule ⟨e.boundary, n, e.sample⟩).map (Spine.forest f.rule) := by
    rw [← Spine.feed_forest, ← hf]
    rfl
  rw [hfeed]
  cases hc : c.observe f.rule e with
  | error r =>
    rw [hc] at hobserve
    rw [hobserve]
    rfl
  | ok c' =>
    rw [hc] at hobserve
    obtain ⟨S', hS', htells⟩ := hobserve
    rw [hS']
    exact ⟨_, rfl, ⟨h.consistent, h.size, S', rfl, htells⟩, rfl⟩

end Tells

end Chronicle

end CallForest
