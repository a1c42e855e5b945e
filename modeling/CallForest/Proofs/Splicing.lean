import CallForest.Proofs.Spine

/-!
# Splicing activations out

A relabelling gives every function another number or none.  An activation of a function without a
number is spliced out of its forest: those it called take its place.

* `Invocation.relabelAll` relabels a forest, and `Crossing.relabel` an event;
* `Spine.relabel_of_hidden`, `Spine.observe_relabel`: relabelling the parts of a forest commutes
  with every event taken in, an event without a number counting for nothing;
* `Forest.foldlM_relabel`: when nothing of a history is refused, nothing of it is after relabelling,
  and what it builds is the relabelled forest.
-/

namespace CallForest

/-- New numbers for functions; those without one are left out. -/
abbrev Relabelling := Nat → Option Nat

/-- The event under a relabelling. -/
def Crossing.relabel (ρ : Relabelling) (e : Crossing) : Option Crossing :=
  (ρ e.function).map fun m => { e with function := m }

namespace Invocation

mutual

/-- What a relabelling makes of a tree: the tree, or those that its root called. -/
def relabel (ρ : Relabelling) : Invocation → List Invocation
  | ⟨function, entered, left, callees⟩ =>
    match ρ function with
    | some m => [⟨m, entered, left, relabelAll ρ callees⟩]
    | none => relabelAll ρ callees

/-- What a relabelling makes of several trees. -/
def relabelAll (ρ : Relabelling) : List Invocation → List Invocation
  | [] => []
  | t :: ts => t.relabel ρ ++ relabelAll ρ ts

end

variable {ρ : Relabelling}

theorem relabel_of_some {t : Invocation} {m : Nat} (h : ρ t.function = some m) :
    t.relabel ρ = [⟨m, t.entered, t.left, relabelAll ρ t.callees⟩] := by
  cases t
  simp only at h
  rw [relabel, h]

theorem relabel_of_none {t : Invocation} (h : ρ t.function = none) :
    t.relabel ρ = relabelAll ρ t.callees := by
  cases t
  simp only at h
  rw [relabel, h]

theorem relabelAll_append (ts us : List Invocation) :
    relabelAll ρ (ts ++ us) = relabelAll ρ ts ++ relabelAll ρ us := by
  induction ts with
  | nil => rfl
  | cons t ts ih => rw [List.cons_append, relabelAll, ih, relabelAll, List.append_assoc]

theorem relabelAll_singleton (t : Invocation) : relabelAll ρ [t] = t.relabel ρ := by
  rw [relabelAll, relabelAll, List.append_nil]

theorem settled_relabelAll (ρ : Relabelling) {ts : List Invocation} (h : ∀ t ∈ ts, t.Settled) :
    ∀ t ∈ relabelAll ρ ts, t.Settled := by
  induction ts using listInduction with
  | nil => exact h
  | cons t ts callees ih =>
    obtain ⟨ht, hts⟩ := List.forall_mem_cons.1 h
    rw [relabelAll]
    refine List.forall_mem_append.2 ⟨?_, ih hts⟩
    cases hm : ρ t.function with
    | some m =>
      rw [relabel_of_some hm]
      simpa using Settled.intro (t := ⟨m, t.entered, t.left, relabelAll ρ t.callees⟩) ht.left
        (callees ht.callees)
    | none =>
      rw [relabel_of_none hm]
      exact callees ht.callees

/-- The activation with more callees, of any shape. -/
def pushAll (t : Invocation) (ts : List Invocation) : Invocation :=
  { t with callees := t.callees ++ ts }

theorem pushAll_nil (t : Invocation) : t.pushAll [] = t := by
  ext1 <;> simp [pushAll]

end Invocation

namespace Spine

/-! ### More about settling -/

theorem settle_settle (S : Spine) (ts us : List Invocation) (hts : ∀ t ∈ ts, t.Settled)
    (hus : ∀ t ∈ us, t.Settled) :
    (S.settle ts hts).settle us hus =
      S.settle (ts ++ us) (List.forall_mem_append.2 ⟨hts, hus⟩) := by
  obtain ⟨trees, settled, pending, dropped⟩ := S
  cases pending <;> simp [settle, Pending.add]

/-- The trees once more trees, of any shape, stand where execution is. -/
def rootsWith (trees : List Invocation) : List Pending → List Invocation → List Invocation
  | [], ts => trees ++ ts
  | p :: outer, ts => rootsWith trees outer [p.node.pushAll ts]

theorem rootsWith_rebuild (trees : List Invocation) (outer : List Pending) (t : Invocation) :
    rootsWith trees outer [t] = trees ++ [Cursor.rebuild t (outer.map Pending.node)] := by
  induction outer generalizing t with
  | nil => rfl
  | cons p outer ih => exact ih (p.node.push t)

theorem roots_eq_rootsWith (S : Spine) : S.roots = rootsWith S.trees S.pending [] := by
  cases h : S.pending with
  | nil => rw [roots_of_nil h, rootsWith, List.append_nil]
  | cons p outer =>
    rw [roots_of_cons h, rootsWith, Invocation.pushAll_nil, rootsWith_rebuild]

theorem rootsWith_settle (S : Spine) (ts us : List Invocation) (hts : ∀ t ∈ ts, t.Settled) :
    rootsWith (S.settle ts hts).trees (S.settle ts hts).pending us =
      rootsWith S.trees S.pending (ts ++ us) := by
  obtain ⟨trees, settled, pending, dropped⟩ := S
  cases pending <;> simp [settle, rootsWith, Pending.add, Invocation.pushAll]

/-! ### Relabelling a spine -/

variable (ρ : Relabelling)

/-- The spine after a call, if the function has a number. -/
def enter? (S : Spine) (function : Nat) (sample : Sample) : Spine :=
  match ρ function with
  | some m => S.enter m sample
  | none => S

/-- Relabels pending activations on top of relabelled trees. -/
def relabelPending (base : Spine) : List Pending → Spine
  | [] => base
  | p :: outer =>
    ((relabelPending base outer).enter? ρ p.node.function p.node.entered).settle
      (Invocation.relabelAll ρ p.node.callees) (Invocation.settled_relabelAll ρ p.settled)

/-- What a relabelling makes of a spine. -/
def relabel (S : Spine) : Spine :=
  relabelPending ρ
    ⟨Invocation.relabelAll ρ S.trees, Invocation.settled_relabelAll ρ S.settled, [], S.dropped⟩
    S.pending

variable {ρ}

theorem relabel_enter (S : Spine) (function : Nat) (sample : Sample) :
    (S.enter function sample).relabel ρ = (S.relabel ρ).enter? ρ function sample :=
  settle_nil _ _

theorem relabel_settle (S : Spine) (ts : List Invocation) (h : ∀ t ∈ ts, t.Settled) :
    (S.settle ts h).relabel ρ =
      (S.relabel ρ).settle (Invocation.relabelAll ρ ts) (Invocation.settled_relabelAll ρ h) := by
  obtain ⟨trees, settled, pending, dropped⟩ := S
  cases pending with
  | nil => simp [relabel, settle, relabelPending, Invocation.relabelAll_append]
  | cons p outer =>
    have hcallees : Invocation.relabelAll ρ (p.add ts h).node.callees =
        Invocation.relabelAll ρ p.node.callees ++ Invocation.relabelAll ρ ts :=
      Invocation.relabelAll_append _ _
    refine Eq.trans ?_ (settle_settle _ _ _ _ _).symm
    rw [relabel, settle, relabelPending]
    simp only [hcallees]
    rfl

/-- A relabelled activation that returns is what its callees and its return make of it. -/
theorem relabel_of_cons {S : Spine} {p : Pending} {outer : List Pending}
    (h : S.pending = p :: outer) :
    S.relabel ρ = ((({ S with pending := outer } : Spine).relabel ρ).enter? ρ p.node.function
      p.node.entered).settle (Invocation.relabelAll ρ p.node.callees)
        (Invocation.settled_relabelAll ρ p.settled) := by
  rw [relabel, h]
  rfl

theorem relabel_leave (S : Spine) (p : Pending) (outer : List Pending) (sample : Sample) :
    (S.leave p outer sample .kept).relabel ρ =
      (({ S with pending := outer } : Spine).relabel ρ).settle
        (Invocation.relabelAll ρ [p.leave sample])
        (Invocation.settled_relabelAll ρ (by simpa using p.settled_leave sample)) :=
  relabel_settle _ _ _

/-- An event without a number counts for nothing. -/
theorem relabel_of_hidden {S S' : Spine} {e : Crossing} (h : S.observe none e = .ok S')
    (he : e.relabel ρ = none) : S'.relabel ρ = S.relabel ρ := by
  have hnone : ρ e.function = none := by simpa [Crossing.relabel] using he
  obtain ⟨-, rfl⟩ | ⟨p, outer, v, hp, heq, hv, rfl⟩ := observe_cases h
  · rw [relabel_enter, enter?, hnone]
  · cases hv
    have hp' : ρ p.node.function = none := by
      rw [heq] at hnone
      exact hnone
    have hleave : Invocation.relabelAll ρ [p.leave e.sample] =
        Invocation.relabelAll ρ p.node.callees := by
      rw [Invocation.relabelAll_singleton, Invocation.relabel_of_none (t := p.leave e.sample) hp']
      rfl
    rw [relabel_leave, relabel_of_cons hp, enter?, hp']
    simp only [hleave]

/-- **Relabelling a spine commutes with every event taken in.** -/
theorem observe_relabel {S S' : Spine} {e e' : Crossing} (h : S.observe none e = .ok S')
    (he : e.relabel ρ = some e') : (S.relabel ρ).observe none e' = .ok (S'.relabel ρ) := by
  obtain ⟨m, hm, rfl⟩ := Option.map_eq_some_iff.1 he
  obtain ⟨heq, rfl⟩ | ⟨p, outer, v, hp, heq, hv, rfl⟩ := observe_cases h
  · rw [relabel_enter, enter?, hm, heq]
    rfl
  · cases hv
    have hp' : ρ p.node.function = some m := by
      rw [heq] at hm
      exact hm
    have hleave : Invocation.relabelAll ρ [p.leave e.sample] =
        [⟨m, p.node.entered, some e.sample, Invocation.relabelAll ρ p.node.callees⟩] := by
      rw [Invocation.relabelAll_singleton, Invocation.relabel_of_some (t := p.leave e.sample) hp']
      rfl
    rw [relabel_leave, relabel_of_cons hp, enter?, hp', heq]
    simp only [hleave]
    exact if_pos rfl

/-- **When nothing of a history is refused, nothing of it is after relabelling.** -/
theorem foldlM_relabel {S S' : Spine} {es : List Crossing}
    (h : es.foldlM (observe none) S = .ok S') :
    (es.filterMap (Crossing.relabel ρ)).foldlM (observe none) (S.relabel ρ) =
      .ok (S'.relabel ρ) :=
  History.foldlM_filterMap (relabel ρ) (Crossing.relabel ρ) (fun _ _ _ => relabel_of_hidden)
    (fun _ _ _ _ => observe_relabel) h

theorem rootsWith_relabelPending (base : Spine) (hbase : base.pending = [])
    (trees : List Invocation) (htrees : base.trees = Invocation.relabelAll ρ trees)
    (path : List Pending) (ts : List Invocation) :
    rootsWith (relabelPending ρ base path).trees (relabelPending ρ base path).pending
        (Invocation.relabelAll ρ ts) =
      Invocation.relabelAll ρ (rootsWith trees path ts) := by
  induction path generalizing ts with
  | nil => rw [relabelPending, rootsWith, hbase, rootsWith, htrees, Invocation.relabelAll_append]
  | cons p outer ih =>
    rw [relabelPending, rootsWith_settle, rootsWith, ← ih, Invocation.relabelAll_singleton, enter?]
    have hcallees : Invocation.relabelAll ρ (p.node.pushAll ts).callees =
        Invocation.relabelAll ρ p.node.callees ++ Invocation.relabelAll ρ ts :=
      Invocation.relabelAll_append _ _
    cases hm : ρ p.node.function with
    | none => rw [Invocation.relabel_of_none (t := p.node.pushAll ts) hm, hcallees]
    | some m =>
      have hleft : (p.node.pushAll ts).left = none := p.left_eq
      rw [Invocation.relabel_of_some (t := p.node.pushAll ts) hm, hcallees, hleft]
      rfl

/-- The trees of the relabelled spine are the relabelled trees. -/
theorem roots_relabel (S : Spine) : (S.relabel ρ).roots = Invocation.relabelAll ρ S.roots := by
  rw [roots_eq_rootsWith, roots_eq_rootsWith]
  exact rootsWith_relabelPending _ rfl S.trees rfl S.pending []

end Spine

/-- **A forest without a rule takes in a relabelled history as well**, and its trees are relabelled
in the same way. -/
theorem Forest.foldlM_relabel (ρ : Relabelling) {es : List Crossing} {f : Forest}
    (h : es.foldlM feed (empty none) = .ok f) :
    ∃ f', (es.filterMap (Crossing.relabel ρ)).foldlM feed (empty none) = .ok f' ∧
      f'.roots = Invocation.relabelAll ρ f.roots := by
  rw [foldlM_empty] at h
  cases hS : es.foldlM (Spine.observe none) .empty with
  | error fault =>
    rw [hS] at h
    cases h
  | ok S =>
    rw [hS] at h
    cases h
    have hrelabel := Spine.foldlM_relabel (ρ := ρ) hS
    refine ⟨(S.relabel ρ).forest none, ?_, S.roots_relabel⟩
    rw [foldlM_empty]
    exact congrArg (Except.map (Spine.forest none)) hrelabel

end CallForest
