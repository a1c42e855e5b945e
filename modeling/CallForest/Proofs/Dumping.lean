import CallForest.Proofs.Census
import CallForest.Proofs.Extremes

/-!
# Dumps of sizes that are not negative

A dump subtracts memories: the least one of the session from each visit, the relative memory of each
line from that of the next, and the first figures of a summary from the last.  As long as no memory
is negative, the differences of any two of them are in range; and as the least memory bounds them
all, the relative ones are not negative either, in whatever order the visits come.

* `Dump.Completes`: a text is written to its end, with a result of a given kind;
* `Dump.completes_visitLines`: the loop over the visits, of which a relative memory that is not
  negative is the invariant;
* `Session.completes_dumps`: the dumps of every session that operations can reach without a negative
  memory.
-/

namespace CallForest

/-! ### Differences -/

theorem Checked.nonneg_iff {n : Int64} : 0 ≤ n ↔ 0 ≤ n.toInt := Int64.le_iff_toInt_le

namespace Sample

variable {a b d : Sample}

theorem memory_of_sub (h : a.sub b = .ok d) :
    d.memory.toInt = a.memory.toInt - b.memory.toInt := by
  rw [sub] at h
  rcases hm : Checked.sub a.memory b.memory with cause | memory
  · rw [hm] at h
    cases h
  · rw [hm] at h
    cases h
    exact Checked.sub_eq_ok_iff.1 hm

/-- Memories that are not negative have a difference. -/
theorem exists_sub_of_nonneg (ha : 0 ≤ a.memory) (hb : 0 ≤ b.memory) :
    ∃ d, a.sub b = .ok d := by
  have hleast : Int64.minValue.toInt = -2 ^ 63 := Int64.toInt_minValue
  have hgreatest : Int64.maxValue.toInt = 2 ^ 63 - 1 := Int64.toInt_maxValue
  have hafrom := (Checked.inRange_toInt a.memory).2
  have hbfrom := (Checked.inRange_toInt b.memory).2
  rw [Checked.nonneg_iff] at ha hb
  refine Retention.exists_sub_iff.2 ⟨?_, ?_⟩ <;> omega

/-- The difference to a lesser memory is not negative. -/
theorem nonneg_of_sub (h : a.sub b = .ok d) (hle : b.memory ≤ a.memory) : 0 ≤ d.memory := by
  rw [Int64.le_iff_toInt_le] at hle
  rw [Checked.nonneg_iff, memory_of_sub h]
  omega

end Sample

/-! ### Texts written to their end -/

namespace Dump

section

variable {α β : Type} {w : Writing α} {P : α → Prop} {Q : β → Prop}

/-- The text is written to its end, whatever stands before it, and the result is such that `P`
holds of it. -/
def Completes (w : Writing α) (P : α → Prop) : Prop :=
  ∀ text, ∃ a text', w text = .ok a text' ∧ P a

theorem Completes.bind {next : α → Writing β} (hw : Completes w P)
    (hnext : ∀ a, P a → Completes (next a) Q) : Completes (w >>= next) Q := by
  intro text
  obtain ⟨a, text₁, ha, hP⟩ := hw text
  obtain ⟨b, text₂, hb, hQ⟩ := hnext a hP text₁
  refine ⟨b, text₂, ?_, hQ⟩
  change EStateM.bind w next text = _
  rw [EStateM.bind, ha]
  exact hb

theorem completes_pure {a : α} (h : P a) : Completes (pure a) P :=
  fun text => ⟨a, text, rfl, h⟩

theorem completes_line (s : String) : Completes (line s) fun _ => True :=
  fun text => ⟨(), text ++ s ++ "\n", rfl, trivial⟩

theorem completes_cost {a b d : Sample} (h : a.sub b = .ok d) : Completes (cost a b) (· = d) := by
  rw [cost, h]
  exact completes_pure rfl

end

/-! ### Visits -/

/-- A visit can be shown relative to a baseline: its function has a site, and its memory is not
below that of the baseline. -/
structure Shown (sites : Site.Table) (baseline : Sample) (p : Placed) : Prop where
  site : ∃ s, sites.site? p.visit.function = .ok s
  relative : ∃ d, p.visit.sample.sub baseline = .ok d ∧ 0 ≤ d.memory

variable {sites : Site.Table} {baseline previous : Sample}

theorem completes_visitLine {p : Placed} (hp : Shown sites baseline p)
    (hprevious : 0 ≤ previous.memory) :
    Completes (visitLine sites baseline previous p) fun d =>
      p.visit.sample.sub baseline = .ok d ∧ 0 ≤ d.memory := by
  obtain ⟨⟨s, hs⟩, d, hd, hnonneg⟩ := hp
  obtain ⟨change, hchange⟩ := Sample.exists_sub_of_nonneg hnonneg hprevious
  have hsite : Completes (siteOf sites p.visit.function) fun _ => True := by
    rw [siteOf, hs]
    exact completes_pure trivial
  refine hsite.bind fun _ _ => (completes_cost hd).bind fun relative hrelative => ?_
  subst hrelative
  exact (completes_cost hchange).bind fun _ _ => (completes_line _).bind fun _ _ =>
    completes_pure ⟨hd, hnonneg⟩

/-- **From line to line the relative memory is not negative**, so that the change from one to the
next is in range. -/
theorem completes_visitLines {ps : List Placed} (h : ∀ p ∈ ps, Shown sites baseline p)
    (hprevious : 0 ≤ previous.memory) :
    Completes (ps.foldlM (visitLine sites baseline) previous) fun d => 0 ≤ d.memory := by
  induction ps generalizing previous with
  | nil => exact completes_pure hprevious
  | cons p ps ih =>
    obtain ⟨hp, hps⟩ := List.forall_mem_cons.1 h
    rw [List.foldlM_cons]
    exact (completes_visitLine hp hprevious).bind fun d hd => ih hps hd.2

theorem completes_forest {f : Forest} {order : Order}
    (h : ∀ p ∈ f.visits order, Shown sites baseline p) :
    Completes (forest f order baseline sites) (· = (f.visits order).length) :=
  (completes_line _).bind fun _ _ => (completes_visitLines h (Int64.le_refl 0)).bind fun _ _ =>
    (completes_line _).bind fun _ _ => completes_pure rfl

/-! ### Figures -/

theorem completes_range (titleFrom titleTo : String) {first last : Sample}
    (hfirst : 0 ≤ first.memory) (hlast : 0 ≤ last.memory) :
    Completes (range titleFrom titleTo first last) fun _ => True := by
  obtain ⟨d, hd⟩ := Sample.exists_sub_of_nonneg hlast hfirst
  exact (completes_line _).bind fun _ _ => (completes_line _).bind fun _ _ =>
    (completes_cost hd).bind fun _ _ => completes_line _

theorem completes_final {s : Session} (hinitial : 0 ≤ s.initial.memory)
    (hfinal : ∀ m, s.final = some m → 0 ≤ m.memory) :
    Completes (match s.final with
      | none => line ("   memtrace data_initial: " ++ s.initial.text)
      | some final => range "   memtrace data_initial" "     memtrace data_final" s.initial final)
      fun _ => True := by
  rcases h : s.final with _ | final
  · exact completes_line _
  · exact completes_range _ _ hinitial (hfinal final h)

theorem completes_summary {s : Session} (hinitial : 0 ≤ s.initial.memory)
    (hextremes : ∀ m, s.least = some m ∨ s.greatest = some m → 0 ≤ m.memory)
    (hfinal : ∀ m, s.final = some m → 0 ≤ m.memory) :
    Completes (summary s) fun _ => True := by
  have hlast := completes_final hinitial hfinal
  refine (completes_line _).bind fun _ _ => (completes_line _).bind fun _ _ =>
    (completes_line _).bind fun _ _ => (completes_line _).bind fun _ _ =>
    (completes_line _).bind fun _ _ => ?_
  -- The extremes are shown together or not at all.
  rcases hleast : s.least with _ | least
  · exact hlast
  · rcases hgreatest : s.greatest with _ | greatest
    · exact hlast
    · exact (completes_range _ _ (hextremes least (.inl hleast))
        (hextremes greatest (.inr hgreatest))).bind fun _ _ => hlast

end Dump

namespace Session

variable {rule : Option Retention} {skipsSynthetic : Bool} {initial : Sample}
variable {ops : List Operation}

theorem initial_run (s : Session) (ops : List Operation) : (s.run ops).initial = s.initial := by
  induction ops generalizing s with
  | nil => rfl
  | cons op ops ih =>
    rw [run, ih]
    rcases s.intake op with ⟨-, after⟩ | ⟨-, -, -, after⟩
    · rw [after]
    · rw [after]
      rfl

/-- What a session is shown relative to has a memory that is not negative. -/
theorem baseline_nonneg
    (h : ∀ e ∈ (start rule skipsSynthetic initial).accepted ops, 0 ≤ e.sample.memory) :
    0 ≤ (Dump.baseline ((start rule skipsSynthetic initial).run ops)).memory := by
  rw [Dump.baseline]
  rcases hleast : ((start rule skipsSynthetic initial).run ops).least with _ | least
  · exact Int64.le_refl 0
  · obtain ⟨e, he, hmemory⟩ := exists_accepted_of_extreme (.inl hleast)
    exact hmemory ▸ h e he

/-- Every visit can be shown, since none is below the least memory. -/
theorem shown_of_mem_visits
    (h : ∀ e ∈ (start rule skipsSynthetic initial).accepted ops, 0 ≤ e.sample.memory)
    {order : Order} :
    let s := (start rule skipsSynthetic initial).run ops
    ∀ p ∈ s.forest.visits order, Dump.Shown s.sites (Dump.baseline s) p := by
  intro s p hp
  obtain ⟨c, -, htells⟩ := tells_run rule skipsSynthetic initial ops
  refine ⟨Forest.exists_site_of_mem_visits htells.locateAll_roots order p hp, ?_⟩
  obtain ⟨least, greatest, hleast, -, hle, -⟩ := exists_extremes_of_mem_visits hp
  have hbaseline : Dump.baseline s = least := by rw [Dump.baseline, hleast]; rfl
  have hnonneg : 0 ≤ least.memory := hbaseline ▸ baseline_nonneg h
  rw [hbaseline]
  obtain ⟨d, hd⟩ := Sample.exists_sub_of_nonneg (Int64.le_trans hnonneg hle) hnonneg
  exact ⟨d, hd, Sample.nonneg_of_sub hd hle⟩

/-- **Dumps of memories that are not negative**, however large, are written to their end.  Whatever
a session has been through, if no event taken in, nor the sample at the start or at the end, has a
negative memory, then its summary is written; and so are its visits in either order, relative to
the least sample.  Their number is that of the visits of calls and of the closed activations, and
the relative memory of each line is not negative. -/
theorem completes_dumps (rule : Option Retention) (skipsSynthetic : Bool) {initial : Sample}
    (ops : List Operation) (hinitial : 0 ≤ initial.memory)
    (hmemory : ∀ e ∈ (start rule skipsSynthetic initial).accepted ops, 0 ≤ e.sample.memory)
    (hfinal : ∀ m, ((start rule skipsSynthetic initial).run ops).final = some m → 0 ≤ m.memory) :
    let s := (start rule skipsSynthetic initial).run ops
    Dump.Completes (Dump.summary s) (fun _ => True) ∧
    ∀ order,
      Dump.Completes (Dump.forest s.forest order (Dump.baseline s) s.sites)
        (· = (s.forest.visits order).countP (·.visit.boundary = .enter) + s.forest.closedCount) ∧
      ∀ before p after, s.forest.visits order = before ++ p :: after →
        Dump.Completes ((before ++ [p]).foldlM (Dump.visitLine s.sites (Dump.baseline s)) .zero)
          fun d => p.visit.sample.sub (Dump.baseline s) = .ok d ∧ 0 ≤ d.memory := by
  intro s
  refine ⟨Dump.completes_summary ?_ ?_ hfinal, fun order => ⟨?_, ?_⟩⟩
  · rw [initial_run]
    exact hinitial
  · intro m hm
    obtain ⟨e, he, hm⟩ := exists_accepted_of_extreme hm
    exact hm ▸ hmemory e he
  · have hlength := Boundary.length_eq_add (·.visit.boundary) (s.forest.visits order)
    have hclosed := s.forest.countP_visits order fun v => v.boundary = .leave
    rw [Invocation.countP_leave_walkAll, ← Forest.closedCount] at hclosed
    rw [← hclosed, ← hlength]
    exact Dump.completes_forest (shown_of_mem_visits hmemory)
  · intro before p after hvisits
    have hshown : ∀ p ∈ s.forest.visits order, Dump.Shown s.sites (Dump.baseline s) p :=
      shown_of_mem_visits hmemory
    rw [hvisits, List.forall_mem_append, List.forall_mem_cons] at hshown
    obtain ⟨hbefore, hp, -⟩ := hshown
    rw [List.foldlM_append]
    refine (Dump.completes_visitLines hbefore (Int64.le_refl 0)).bind fun previous hprevious => ?_
    rw [List.foldlM_cons]
    exact (Dump.completes_visitLine hp hprevious).bind fun d hd => Dump.completes_pure hd

/-- The memory drops from the greatest one to none during the only call, and is the greatest one
again at the end. -/
theorem completes_dumps_greatest :
    let main : Site := ⟨"app.py", "main", 3⟩
    let ops : List Operation :=
      [.record ⟨.enter, main, ⟨.zero, Int64.maxValue⟩⟩, .add ⟨.leave, main, ⟨.zero, 0⟩⟩,
        .finish ⟨.zero, Int64.maxValue⟩]
    let s := (start none false .zero).run ops
    Dump.Completes (Dump.summary s) (fun _ => True) ∧
      ∀ order, Dump.Completes (Dump.forest s.forest order (Dump.baseline s) s.sites) (· = 2) := by
  intro main ops s
  obtain ⟨haccepted, hfinal, hsizes, hclosed⟩ :
      (start none false .zero).accepted ops =
          [⟨.enter, main, ⟨.zero, Int64.maxValue⟩⟩, ⟨.leave, main, ⟨.zero, 0⟩⟩] ∧
        s.final = some ⟨.zero, Int64.maxValue⟩ ∧ Invocation.sizes s.forest.roots = 1 ∧
        s.forest.closedCount = 1 := by
    subst s ops main
    cbv
  have hmemory : ∀ e ∈ (start none false .zero).accepted ops, 0 ≤ e.sample.memory := by
    rw [haccepted]
    decide
  have hlast : ∀ m, s.final = some m → 0 ≤ m.memory := by
    intro m hm
    cases hfinal.symm.trans hm
    decide
  obtain ⟨hsummary, hforest⟩ := completes_dumps none false ops (Int64.le_refl 0) hmemory hlast
  refine ⟨hsummary, fun order => ?_⟩
  have hcalls := s.forest.countP_visits order fun v => v.boundary = .enter
  rw [Invocation.countP_enter_walkAll, hsizes] at hcalls
  obtain ⟨hforest, -⟩ := hforest order
  rw [hcalls, hclosed] at hforest
  exact hforest

end Session

end CallForest
