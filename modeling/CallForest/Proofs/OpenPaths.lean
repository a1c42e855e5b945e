import CallForest.Proofs.Shape

/-!
# What the check of a tree finds

The check of a tree counts open callees, one activation at a time and in no order that matters.
Here it is compared with what it is there for: that the open activations are those from the root
down along the last callees, as far as any is open.  The trees may have any shape, also one that no
events lead to.

* `Invocation.OpenBelowOpen`: an activation is open only as the last callee of an open one;
* `Invocation.inShape_iff_openBelowOpen`, `Invocation.inShape_iff_exists_openUpTo`: a tree in shape
  is one of which this holds, and one whose open activations are an initial segment of a path;
* `Forest.integrity_iff_openUpTo`: so the checks find out exactly this.
-/

namespace CallForest

namespace Invocation

/-- An activation below the root is open only as the last callee of an open activation. -/
def OpenBelowOpen (t : Invocation) : Prop :=
  ∀ path i u, t.at? (path ++ [i]) = some u → u.isOpen = true →
    ∃ p, t.at? path = some p ∧ p.isOpen = true ∧ i + 1 = p.callees.length

variable {t : Invocation}

theorem at?_concat_eq_some_iff {u : Invocation} {path : List Nat} {i : Nat} :
    t.at? (path ++ [i]) = some u ↔ ∃ p, t.at? path = some p ∧ p.callees[i]? = some u := by
  induction path generalizing t with
  | nil => simp [at?]
  | cons j path ih =>
    rw [List.cons_append, at?_cons_eq_some_iff]
    simp only [ih, at?_cons_eq_some_iff]
    constructor
    · rintro ⟨c, hc, p, hp, hu⟩
      exact ⟨p, ⟨c, hc, hp⟩, hu⟩
    · rintro ⟨p, ⟨c, hc, hp⟩, hu⟩
      exact ⟨c, hc, p, hp, hu⟩

/-- A path with one step more follows the last callees just if the step leads to one, too. -/
theorem followsLast_concat_iff {p : Invocation} {path : List Nat} {i : Nat}
    (hp : t.at? path = some p) (hi : i < p.callees.length) :
    t.FollowsLast (path ++ [i]) ↔ t.FollowsLast path ∧ i + 1 = p.callees.length := by
  induction path generalizing t with
  | nil =>
    cases hp
    simp [FollowsLast, hi]
  | cons j path ih =>
    obtain ⟨c, hc, hp⟩ := at?_cons_eq_some_iff.1 hp
    simp [FollowsLast, hc, ih hp, and_assoc]

/-! ### One activation at a time -/

theorem OpenBelowOpen.of_mem (h : t.OpenBelowOpen) {c : Invocation} (hc : c ∈ t.callees) :
    c.OpenBelowOpen := by
  obtain ⟨j, hj⟩ := List.mem_iff_getElem?.1 hc
  intro path i u hu hopen
  obtain ⟨p, hp, hpopen, hlast⟩ :=
    h (j :: path) i u (at?_cons_eq_some_iff.2 ⟨c, hj, hu⟩) hopen
  obtain ⟨d, hd, hp⟩ := at?_cons_eq_some_iff.1 hp
  rw [hj] at hd
  cases hd
  exact ⟨p, hp, hpopen, hlast⟩

/-- Of the callees themselves, only the last may be open, and only inside an open activation. -/
theorem OpenBelowOpen.of_getElem? (h : t.OpenBelowOpen) {i : Nat} {c : Invocation}
    (hc : t.callees[i]? = some c) (hopen : c.isOpen = true) :
    t.isOpen = true ∧ i + 1 = t.callees.length := by
  obtain ⟨p, hp, hpopen, hlast⟩ := h [] i c (at?_concat_eq_some_iff.2 ⟨t, rfl, hc⟩) hopen
  cases hp
  exact ⟨hpopen, hlast⟩

theorem OpenBelowOpen.onlyLastOpen (h : t.OpenBelowOpen) : OnlyLastOpen t.callees := by
  intro c hc
  obtain ⟨i, hi⟩ := List.mem_iff_getElem?.1 hc
  obtain ⟨hlt, hi⟩ := List.getElem?_eq_some_iff.1 hi
  rw [List.getElem_dropLast] at hi
  rw [List.length_dropLast] at hlt
  cases hopen : c.isOpen with
  | false => rfl
  | true =>
    have hlast := (h.of_getElem? (List.getElem?_eq_some_iff.2 ⟨by omega, hi⟩) hopen).2
    omega

theorem OpenBelowOpen.closed_of_mem (h : t.OpenBelowOpen) (hclosed : t.isOpen = false)
    {c : Invocation} (hc : c ∈ t.callees) : c.isOpen = false := by
  obtain ⟨i, hi⟩ := List.mem_iff_getElem?.1 hc
  cases hopen : c.isOpen with
  | false => rfl
  | true =>
    rw [(h.of_getElem? hi hopen).1] at hclosed
    cases hclosed

/-- What holds along the paths holds of each activation and its callees. -/
theorem inShape_of_openBelowOpen (ts : List Invocation) :
    ∀ t ∈ ts, t.OpenBelowOpen → t.InShape := by
  induction ts using listInduction with
  | nil => exact List.forall_mem_nil _
  | cons t ts callees ih =>
    refine List.forall_mem_cons.2 ⟨fun h => ?_, ih⟩
    exact .intro h.onlyLastOpen (fun hclosed _ hc => h.closed_of_mem hclosed hc)
      fun c hc => callees c hc (h.of_mem hc)

/-! ### A path from the root -/

theorem OpenUpTo.openBelowOpen {n : Nat} (h : t.OpenUpTo n) : t.OpenBelowOpen := by
  intro path i u hu hopen
  obtain ⟨p, hp, hcallee⟩ := at?_concat_eq_some_iff.1 hu
  obtain ⟨hlength, hfollows⟩ := (h _ u hu).1 hopen
  rw [followsLast_concat_iff hp (List.getElem?_eq_some_iff.1 hcallee).1] at hfollows
  rw [List.length_append] at hlength
  exact ⟨p, hp, (h path p hp).2 ⟨by omega, hfollows.1⟩, hfollows.2⟩

theorem inShape_iff_openBelowOpen : t.InShape ↔ t.OpenBelowOpen := by
  constructor
  · intro h
    obtain ⟨n, hn⟩ := h.exists_openUpTo
    exact hn.openBelowOpen
  · exact inShape_of_openBelowOpen [t] t List.mem_cons_self

theorem inShape_iff_exists_openUpTo : t.InShape ↔ ∃ n, t.OpenUpTo n := by
  constructor
  · exact InShape.exists_openUpTo
  · rintro ⟨n, hn⟩
    exact inShape_iff_openBelowOpen.2 hn.openBelowOpen

end Invocation

namespace Forest

/-- **The checks are exact.**  A tree of any shape passes the check just if its open activations are
an initial segment of the path along the last callees, and just if an activation below the root is
open only as the last callee of an open one; what has returned has then returned with everything
below it.  Any trees pass the check of a forest just if each of them does and none but the last is
open. -/
theorem integrity_iff_openUpTo :
    (∀ t : Invocation,
      (t.integrity = true ↔ ∃ n, t.OpenUpTo n) ∧
      (t.integrity = true ↔ t.OpenBelowOpen) ∧
      (t.integrity = true →
        ∀ path u, t.at? path = some u → u.isOpen = false → u.Settled)) ∧
    ∀ f : Forest, f.integrity = true ↔
      (∀ t ∈ f.roots, ∃ n, t.OpenUpTo n) ∧ Invocation.OnlyLastOpen f.roots := by
  refine ⟨fun t => ?_, fun f => ?_⟩
  · rw [t.integrity_iff]
    exact ⟨Invocation.inShape_iff_exists_openUpTo, Invocation.inShape_iff_openBelowOpen,
      fun h path u hu hclosed => (h.of_at? hu).settled hclosed⟩
  · rw [f.integrity_iff, and_comm]
    simp only [Invocation.inShape_iff_exists_openUpTo]

/-- An open callee next to one that has returned and made a call of its own. -/
theorem integrity_iff_openUpTo_uneven :
    let u : Invocation := ⟨1, .zero, some .zero, [⟨2, .zero, some .zero, []⟩]⟩
    let t : Invocation := ⟨0, .zero, none, [u, ⟨3, .zero, none, []⟩]⟩
    t.integrity = true ∧ t.at? [0] = some u ∧ u.isOpen = false ∧ u.Settled := by
  intro u t
  have hcheck : t.integrity = true := by
    rw [Invocation.integrity, Invocation.foldNodes_eq_foldl _ _ []]
    rfl
  exact ⟨hcheck, rfl, rfl, (integrity_iff_openUpTo.1 t).2.2 hcheck [0] u rfl rfl⟩

end Forest

end CallForest
