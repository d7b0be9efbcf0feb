import Mathlib.Order.Bounds.Basic
import Placement.Proofs.AnnealingWalk
import Placement.Proofs.GeneticSearch

/-!
# How long a walk lasts

A walk draws a pair of slots in every step, and sometimes a number that decides about the step. None of
this reaches its counter or its temperature: each step adds one to the first and multiplies the second
by the same rate (`Counted`). Of the three reasons to stop, two depend on these alone, and the third is
the deadline. So with a deadline that never comes a walk ends after the least number of steps at which
the budget is used up or the temperature lies below the floor, whatever the instance is and however the
draws fall (`run_length_undrawn`).

The floor is compared before a step is taken. A walk that starts below it, or at a temperature that is
not a number, takes no step at all.
-/

namespace Placement

namespace Annealing

open Draw

/-- The temperature after so many steps. -/
def cooled (temperature rate : Float) : Nat → Float
  | 0 => temperature
  | k + 1 => cooled temperature rate k * rate

/-- What a walk counts, once it has taken `k` steps from the temperature it started with. -/
structure Counted {α : Type} (temperature rate : Float) (k : Nat) (w : Walk α) : Prop where
  iterations_eq : w.iterations = k
  temperature_eq : w.temperature = cooled temperature rate k
  accepted_le : w.accepted ≤ k
  improving_le : w.improving ≤ w.accepted

theorem counted_start {α : Type} {temperature rate : Float} (p : Array Nat) (cost : α) :
    Counted temperature rate 0 (Walk.start p cost temperature) :=
  ⟨rfl, rfl, Nat.le_refl 0, Nat.le_refl 0⟩

/-- The annotations of a finding tell how many proposals were taken and how cold it was at the end. -/
structure Tells {α : Type} (temperature rate : Float) (maxIterations : Nat) (found : Finding α) :
    Prop where
  moves : ∃ accepted improving,
    found.annotations["accepted_moves"]? = some (.ofNat accepted) ∧
    found.annotations["improving_moves"]? = some (.ofNat improving) ∧
    improving ≤ accepted ∧ accepted ≤ found.iterations
  iterations_le : found.iterations ≤ maxIterations
  final_eq : found.annotations["final_temperature"]? =
    some (.number (cooled temperature rate found.iterations))

theorem tells_finding {α : Type} [Zero α] [Add α] [Mul α] {t : Instance α} {temperature rate : Float}
    {k m : Nat} {w : Walk α} (h : Counted temperature rate k w) (hk : k ≤ m) (timedOut : Bool) :
    Tells temperature rate m (finding t w timedOut) := by
  refine ⟨⟨w.accepted, w.improving, ?_, ?_, h.improving_le, ?_⟩, ?_, ?_⟩
  · rw [finding, Std.ExtTreeMap.getElem?_insert, if_neg (by decide),
      Std.ExtTreeMap.getElem?_insert, if_neg (by decide), Std.ExtTreeMap.getElem?_insert_self]
  · rw [finding, Std.ExtTreeMap.getElem?_insert, if_neg (by decide),
      Std.ExtTreeMap.getElem?_insert_self]
  · exact h.accepted_le.trans_eq h.iterations_eq.symm
  · exact h.iterations_eq.trans_le hk
  · rw [finding, Std.ExtTreeMap.getElem?_insert_self, h.temperature_eq, h.iterations_eq]

section Walks

variable {σ α : Type} [RandomSource σ]
variable [Zero α] [Add α] [Sub α] [Mul α] [LT α] [DecidableLT α] [LE α] [DecidableLE α]
variable {t : Instance α} {rule : α → Float → Float → Bool} {temperature rate : Float}

theorem Counted.step {k : Nat} {w v : Walk α} {s s' : σ} (h : Counted temperature rate k w)
    (hy : Yields (Annealing.step t rule rate w) s v s') : Counted temperature rate (k + 1) v := by
  obtain ⟨r, j, s₁, accept, -, -, -, rfl⟩ := yields_step.mp hy
  have hcooled : w.temperature * rate = cooled temperature rate (k + 1) := by
    rw [h.temperature_eq]
    rfl
  have hiterations : w.iterations + 1 = k + 1 := by
    rw [h.iterations_eq]
  have haccepted := h.accepted_le
  have himproving := h.improving_le
  cases accept with
  | false => exact ⟨hiterations, hcooled, Nat.le_succ_of_le haccepted, himproving⟩
  | true =>
      refine ⟨hiterations, hcooled, Nat.succ_le_succ haccepted, ?_⟩
      show (if _ then w.improving + 1 else w.improving) ≤ w.accepted + 1
      split
      · exact Nat.succ_le_succ himproving
      · exact Nat.le_succ_of_le himproving

theorem counted_of_passes {b c : Walk α × σ} {past : List (Walk α × σ)}
    (hp : Passes (step t rule rate) b past c) (hb : Counted temperature rate 0 b.1) :
    Counted temperature rate past.length c.1 := by
  refine hp.history (I := fun past c => Counted temperature rate past.length c.1) hb ?_
  intro past c d _ hc hy
  rw [List.length_append, List.length_singleton]
  exact hc.step hy

/-! ## The end of a walk -/

/-- The walk can go no further than `k` steps: they are all that it may take, or it is too cold then. -/
def Ends (maxIterations : Nat) (temperature rate floor : Float) (k : Nat) : Prop :=
  k = maxIterations ∨ ¬floor ≤ cooled temperature rate k

variable {floor : Float} {deadline : Deadline} {n : Nat} {b c : Walk α × σ}
  {past : List (Walk α × σ)} {timedOut : Bool}

/-- Before each step that was taken, the deadline had not come and the temperature had not fallen below
the floor. -/
theorem going_of_ran (h : Ran (step t rule rate) (halt? floor deadline) n b past c timedOut)
    (hb : Counted temperature rate 0 b.1) {j : Nat} (hj : j < past.length) :
    floor ≤ cooled temperature rate j ∧ deadline.expired j = false := by
  obtain ⟨front, u, hp, rfl, hgo⟩ := h.going_at hj
  have hu := counted_of_passes hp hb
  have hdeadline := halt?_eq_none hgo
  rw [hu.iterations_eq] at hdeadline
  refine ⟨?_, hdeadline⟩
  by_contra hcold
  rw [halt?, if_neg (hu.temperature_eq ▸ hcold)] at hgo
  cases hgo

/-- With a deadline that does not come, a walk ends as soon as it can go no further. -/
theorem isLeast_of_ran (h : Ran (step t rule rate) (halt? floor deadline) n b past c timedOut)
    (hb : Counted temperature rate 0 b.1) (hdeadline : ∀ j, deadline.expired j = false) :
    IsLeast {k | Ends n temperature rate floor k} past.length ∧ timedOut = false := by
  have hc := counted_of_passes h.passes hb
  have hend : Ends n temperature rate floor past.length ∧ timedOut = false := by
    rcases h.ended with ⟨-, hstop⟩ | ⟨hlength, hflag⟩
    · unfold halt? at hstop
      split at hstop
      · rw [hdeadline] at hstop
        cases hstop
      · next hcold =>
        cases hstop
        exact ⟨Or.inr (hc.temperature_eq ▸ hcold), rfl⟩
    · exact ⟨Or.inl hlength, hflag⟩
  refine ⟨⟨hend.1, ?_⟩, hend.2⟩
  intro j hj
  by_contra hlt
  rcases hj with rfl | hcold
  · exact hlt h.length_le
  · exact hcold (going_of_ran h hb (Nat.lt_of_not_le hlt)).1

/-- A walk whose deadline has come when it starts takes no step. -/
theorem length_of_expired (h : Ran (step t rule rate) (halt? floor deadline) n b past c timedOut)
    (hb : Counted temperature rate 0 b.1) (hdeadline : deadline.expired 0 = true) :
    past.length = 0 := by
  by_contra hne
  have hgoing := (going_of_ran h hb (Nat.pos_of_ne_zero hne)).2
  rw [hdeadline] at hgoing
  cases hgoing

/-- There is a last step, since the budget is finite. -/
theorem exists_isLeast_ends (m : Nat) (temperature rate floor : Float) :
    ∃ k, IsLeast {k | Ends m temperature rate floor k} k := by
  classical
  have hsome : ∃ k, Ends m temperature rate floor k := ⟨m, Or.inl rfl⟩
  exact ⟨Nat.find hsome, Nat.find_spec hsome, fun k hk => Nat.find_min' hsome hk⟩

/-! ## Runs -/

/-- How a run from any source ends, in terms of what it counts. -/
theorem exists_counted (a : Annealing) (t : Instance α) (rule : α → Float → Float → Bool)
    (deadline : Deadline) (s : σ) : ∃ found s',
      Yields (a.run t rule deadline) s found s' ∧
      Tells a.temperature a.cooling a.maxIterations found ∧
      (2 ≤ t.side → (∀ j, deadline.expired j = false) → found.timedOut = false ∧
        IsLeast {k | Ends a.maxIterations a.temperature a.cooling a.floor k} found.iterations) ∧
      (t.side < 2 ∨ deadline.expired 0 = true → found.iterations = 0) := by
  obtain ⟨p, s₀, past, last, timedOut, -, hran, -, hrun⟩ := a.exists_ran t rule deadline s
  have hstart : Counted a.temperature a.cooling 0 (Walk.start p (t.objective p) a.temperature) :=
    counted_start p (t.objective p)
  have hlast := counted_of_passes hran.passes hstart
  have hiterations : (finding t last.1 timedOut).iterations = past.length := hlast.iterations_eq
  have hbudget : a.budget t ≤ a.maxIterations := by
    unfold budget
    split
    · exact Nat.le_refl _
    · exact Nat.zero_le _
  refine ⟨_, _, hrun, tells_finding hlast (hran.length_le.trans hbudget) timedOut, ?_, ?_⟩
  · intro hside hdeadline
    rw [budget, if_pos hside] at hran
    obtain ⟨hleast, hflag⟩ := isLeast_of_ran hran hstart hdeadline
    rw [hiterations]
    exact ⟨hflag, hleast⟩
  · rw [hiterations]
    rintro (hside | hdeadline)
    · have hlength := hran.length_le
      rw [budget, if_neg (Nat.not_le.mpr hside)] at hlength
      exact Nat.le_zero.mp hlength
    · exact length_of_expired hran hstart hdeadline

/-- The parameters alone settle after how many steps a walk ends and how cold it is then: for every
instance of at least two slots, every rule and every source, as long as the deadline does not come. So
two runs with the same parameters agree on both. A run that is out of time when it starts, or that has
nothing to exchange, stays at the temperature it was given; and every run takes at most as many
proposals as it has steps, and at most as many steps as it may. -/
theorem run_length_undrawn {m : Nat} {temperature rate floor : Float} {a : Annealing}
    (ha : ofParameters m temperature rate floor = .ok a) :
    ∃ k, IsLeast {k | Ends m temperature rate (if 0 ≤ floor then floor else 0) k} k ∧
      (∀ (t : Instance α) (rule : α → Float → Float → Bool) (deadline : Deadline) (s : σ),
        ∃ found s', Yields (a.run t rule deadline) s found s' ∧
          Tells temperature rate m found ∧
          (2 ≤ t.side → (∀ j, deadline.expired j = false) →
            found.iterations = k ∧ found.timedOut = false) ∧
          (t.side < 2 ∨ deadline.expired 0 = true → found.iterations = 0 ∧
            found.annotations["final_temperature"]? = some (.number temperature))) ∧
      ∀ (t t' : Instance α) (rule rule' : α → Float → Float → Bool) (deadline deadline' : Deadline)
        (s s' e e' : σ) (found found' : Finding α), 2 ≤ t.side → 2 ≤ t'.side →
        (∀ j, deadline.expired j = false) → (∀ j, deadline'.expired j = false) →
        Yields (a.run t rule deadline) s found e → Yields (a.run t' rule' deadline') s' found' e' →
        found.iterations = found'.iterations ∧
          found.annotations["final_temperature"]? = found'.annotations["final_temperature"]? := by
  obtain ⟨-, -, -, rfl⟩ := ofParameters_eq_ok.mp ha
  obtain ⟨k, hk⟩ := exists_isLeast_ends m temperature rate (if 0 ≤ floor then floor else 0)
  have hruns := exists_counted (σ := σ) (α := α)
    ⟨m, temperature, rate, if 0 ≤ floor then floor else 0⟩
  refine ⟨k, hk, ?_, ?_⟩
  · intro t rule deadline s
    obtain ⟨found, s', hrun, htells, hleast, hnone⟩ := hruns t rule deadline s
    refine ⟨found, s', hrun, htells, fun hside hdeadline => ?_, fun hstuck => ?_⟩
    · obtain ⟨hflag, hfound⟩ := hleast hside hdeadline
      exact ⟨hfound.unique hk, hflag⟩
    · have hzero := hnone hstuck
      have hfinal := htells.final_eq
      rw [hzero] at hfinal
      exact ⟨hzero, hfinal⟩
  · intro t t' rule rule' deadline deadline' s s' e e' found found' hside hside' hdeadline hdeadline'
      hrun hrun'
    obtain ⟨one, _, hone, htells, hleast, -⟩ := hruns t rule deadline s
    obtain ⟨other, _, hother, htells', hleast', -⟩ := hruns t' rule' deadline' s'
    obtain ⟨rfl, -⟩ := hone.unique hrun
    obtain ⟨rfl, -⟩ := hother.unique hrun'
    have hsame : one.iterations = other.iterations :=
      (hleast hside hdeadline).2.unique (hleast' hside' hdeadline').2
    refine ⟨hsame, ?_⟩
    rw [htells.final_eq, htells'.final_eq, hsame]

end Walks

/-- Half as warm after every step, a walk from ten degrees is below one degree after four. -/
theorem run_length_undrawn_halving : ∃ a found s',
    ofParameters 1000 10 0.5 1 = .ok a ∧
      Yields (a.run Genetic.twoSlots metropolis .never) (RandomSource.ofSeed 1 : KeyStream) found s' ∧
      found.iterations = 4 ∧
      found.annotations["final_temperature"]? = some (.number 0.625) := by
  have hadmits : ofParameters 1000 10 0.5 1 = .ok ⟨1000, 10, 0.5, 1⟩ :=
    ofParameters_eq_ok.mpr ⟨by decide, by decide, by decide, rfl⟩
  obtain ⟨k, hk, hruns, -⟩ := run_length_undrawn (σ := KeyStream) (α := Float) hadmits
  have hfour : IsLeast {k | Ends 1000 10 0.5 (if 0 ≤ (1 : Float) then 1 else 0) k} 4 := by
    refine ⟨Or.inr (by decide), fun j hj => ?_⟩
    by_contra hlt
    have hwarm : ∀ j < 4, j ≠ 1000 ∧ (1 : Float) ≤ cooled 10 0.5 j := by decide
    obtain ⟨hbudget, hfloor⟩ := hwarm j (Nat.lt_of_not_le hlt)
    rcases hj with hspent | hcold
    · exact hbudget hspent
    · exact hcold hfloor
  obtain ⟨found, s', hrun, htells, hlength, -⟩ :=
    hruns Genetic.twoSlots metropolis .never (RandomSource.ofSeed 1)
  have hiterations : found.iterations = 4 :=
    (hlength (by decide) fun _ => rfl).1.trans (hk.unique hfour)
  have hfinal := htells.final_eq
  rw [hiterations] at hfinal
  exact ⟨_, found, s', hadmits, hrun, hiterations, hfinal⟩

end Annealing

end Placement
