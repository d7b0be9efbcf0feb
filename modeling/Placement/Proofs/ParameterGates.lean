import Placement.Proofs.FloatOrder
import Placement.Settings.Basic

/-!
# What the gates let through

Parameters are checked twice: as settings, and again by the search that they are handed to. Each check
is a chain of tests that ends at the first failure, so what it lets through is the conjunction of its
tests. The checks of the settings ask for no less than those of either search, which is why settings
without a fault always lead to a search.

Only one step of this is about floats: what lies above zero does not lie at or below it.
-/

namespace Placement

/-! ## Chains of tests -/

section Chain

variable {β ε : Type} {c : Prop} [Decidable c]

/-- A chain of tests lets through what its first test and all others let through. -/
theorem ite_error_eq_ok {e : ε} {x : Except ε β} {b : β} :
    (if c then .error e else x) = .ok b ↔ ¬c ∧ x = .ok b := by
  by_cases hc : c
  · rw [if_pos hc]
    constructor
    · intro h
      cases h
    · rintro ⟨hnot, -⟩
      exact absurd hc hnot
  · rw [if_neg hc]
    exact ⟨fun h => ⟨hc, h⟩, fun h => h.2⟩

/-- A chain of tests finds nothing if its first test does not and the others do not. -/
theorem ite_some_eq_none {b : β} {o : Option β} :
    (if c then some b else o) = none ↔ ¬c ∧ o = none := by
  by_cases hc : c
  · rw [if_pos hc]
    constructor
    · intro h
      cases h
    · rintro ⟨hnot, -⟩
      exact absurd hc hnot
  · rw [if_neg hc]
    exact ⟨fun h => ⟨hc, h⟩, fun h => h.2⟩

end Chain

/-! ## The gates of the searches -/

/-- Exactly the parameters in their ranges are admitted, and the floor counts as zero unless it is a
number from there on. -/
theorem Annealing.ofParameters_eq_ok {m : Nat} {temperature cooling floor : Float} {a : Annealing} :
    ofParameters m temperature cooling floor = .ok a ↔
      0 < m ∧ ¬temperature ≤ 0 ∧ isCooling cooling = true ∧
        a = ⟨m, temperature, cooling, if 0 ≤ floor then floor else 0⟩ := by
  rw [ofParameters, ite_error_eq_ok, ite_error_eq_ok, ite_error_eq_ok, Nat.pos_iff_ne_zero,
    Bool.not_eq_true', Bool.not_eq_false, Except.ok.injEq, eq_comm (b := a)]

/-- The tests of a genetic search, one after the other. -/
theorem Genetic.ofParameters_eq (m p k : Nat) (r : Float) : ofParameters m p r k =
    if m = 0 then .error .noIterations
    else if p < 2 then .error .populationSize
    else if (!isRate r) = true then .error .mutationRate
    else if k < 1 then .error .tournamentSize
    else .ok ⟨m, p, r, ⟨k, false⟩⟩ := by
  rw [ofParameters, Tournament.ofSize]
  by_cases hk : k < 1
  · rw [if_pos hk, if_pos hk]
    rfl
  · rw [if_neg hk, if_neg hk]
    rfl

/-- Exactly the parameters in their ranges are admitted, and the lowest objective wins. -/
theorem Genetic.ofParameters_eq_ok {m p k : Nat} {r : Float} {g : Genetic} :
    ofParameters m p r k = .ok g ↔
      0 < m ∧ 2 ≤ p ∧ isRate r = true ∧ 1 ≤ k ∧ g = ⟨m, p, r, ⟨k, false⟩⟩ := by
  rw [ofParameters_eq, ite_error_eq_ok, ite_error_eq_ok, ite_error_eq_ok, ite_error_eq_ok,
    Nat.pos_iff_ne_zero, not_lt, not_lt, Bool.not_eq_true', Bool.not_eq_false, Except.ok.injEq,
    eq_comm (b := g)]

/-! ## The gate of the settings -/

namespace Settings

/-- Every setting lies in its range. -/
structure InRange (s : Settings) : Prop where
  maxIterations : 0 < s.maxIterations.toNat
  temperature : 0 < s.temperature ∧ s.temperature.isFinite = true
  cooling : isCooling s.cooling = true
  floor : 0 ≤ s.floor ∧ s.floor < s.temperature
  mutationRate : isRate s.mutationRate = true
  tournamentSize : 1 ≤ s.tournamentSize.toNat
  maxPopulation : 2 ≤ s.maxPopulation.toNat

theorem toNat_pos_iff {n : UInt64} : 0 < n.toNat ↔ ¬n = 0 := by
  rw [Nat.pos_iff_ne_zero, ne_eq, ← UInt64.toNat_inj]
  rfl

theorem fault?_eq_none_iff {s : Settings} : s.fault? = none ↔ s.InRange := by
  simp only [fault?, ite_some_eq_none, Bool.not_eq_true', Bool.not_eq_false, Bool.and_eq_true,
    decide_eq_true_eq, and_true, UInt64.not_lt, UInt64.le_iff_toNat_le]
  constructor
  · rintro ⟨hm, ht, hc, hf, hr, hk, hp⟩
    exact ⟨toNat_pos_iff.mpr hm, ht, hc, hf, hr, hk, hp⟩
  · rintro ⟨hm, ht, hc, hf, hr, hk, hp⟩
    exact ⟨toNat_pos_iff.mp hm, ht, hc, hf, hr, hk, hp⟩

variable {s : Settings}

theorem validate_eq_ok_iff : s.validate = .ok () ↔ s.fault? = none := by
  unfold validate
  cases s.fault? with
  | none => exact ⟨fun _ => rfl, fun _ => rfl⟩
  | some fault =>
      constructor
      · intro h
        cases h
      · intro h
        cases h

/-- Settings in range describe a walk. -/
theorem InRange.toAnnealing_eq (h : s.InRange) : s.toAnnealing =
    .ok ⟨s.maxIterations.toNat, s.temperature, s.cooling, s.floor⟩ := by
  refine Annealing.ofParameters_eq_ok.mpr ⟨h.maxIterations, ?_, h.cooling, ?_⟩
  · exact FloatOrder.not_le_of_lt h.temperature.1
  · rw [if_pos h.floor.1]

/-- Settings in range describe a genetic search. -/
theorem InRange.toGenetic_eq (h : s.InRange) : s.toGenetic =
    .ok ⟨s.maxIterations.toNat, s.maxPopulation.toNat, s.mutationRate,
      ⟨s.tournamentSize.toNat, false⟩⟩ :=
  Genetic.ofParameters_eq_ok.mpr
    ⟨h.maxIterations, h.maxPopulation, h.mutationRate, h.tournamentSize, rfl⟩

end Settings

end Placement
