import Placement.Proofs.FloatClass
import Placement.Proofs.SolverContract

/-!
# How far a reported improvement is finite

An answer is given only if the objectives of the best and of the baseline are finite. The improvement
is computed from them in three steps: their difference, its quotient by the magnitude of the baseline,
and the percentage. Each of these can overflow though the objectives do not, and what has overflowed
stays so (`FloatClass.Scaled`). What is not a number never comes out.
-/

namespace Placement

namespace AssignmentSolver

open FloatClass

/-- On the way from two objectives to the improvement, nothing overflows. -/
structure StaysFinite (baseline objective : Float) : Prop where
  difference : (baseline - objective).isFinite = true
  quotient : ((baseline - objective) / baseline.abs).isFinite = true
  percentage : ((baseline - objective) / baseline.abs * 100).isFinite = true

section Improvement

variable {baseline objective : Float}

theorem improvement_of_zero (h : (baseline == 0) = true) : improvement baseline objective = 0 := by
  simp [improvement, bne, h]

theorem improvement_of_ne_zero (h : (baseline == 0) = false) :
    improvement baseline objective = (baseline - objective) / baseline.abs * 100 := by
  simp [improvement, bne, h]

/-- The quotient and the percentage scale the difference. -/
theorem scaled_improvement (hbaseline : baseline.isFinite = true) (h : (baseline == 0) = false)
    (objective : Float) :
    Scaled (of (baseline - objective)) (of ((baseline - objective) / baseline.abs)) ∧
    Scaled (of ((baseline - objective) / baseline.abs)) (of (improvement baseline objective)) := by
  have hregular : of baseline = regular := of_eq_regular hbaseline (by simp [bne, h])
  rw [improvement_of_ne_zero h]
  exact ⟨scaled_div _ (of_abs hregular), scaled_mul _ (by decide)⟩

theorem isNaN_improvement (hbaseline : baseline.isFinite = true) (hobjective : objective.isFinite = true) :
    (improvement baseline objective).isNaN = false := by
  cases h : baseline == 0 with
  | true =>
      rw [improvement_of_zero h]
      decide
  | false =>
      obtain ⟨hquotient, hpercentage⟩ := scaled_improvement hbaseline h objective
      have hnan := (hquotient.trans hpercentage).ne_nan (of_sub_ne_nan hbaseline hobjective)
      rw [ne_eq, ← isNaN_iff] at hnan
      exact Bool.eq_false_of_not_eq_true hnan

theorem isFinite_improvement_iff (hbaseline : baseline.isFinite = true) :
    (improvement baseline objective).isFinite = true ↔
      (baseline == 0) = true ∨ StaysFinite baseline objective := by
  cases h : baseline == 0 with
  | true =>
      rw [improvement_of_zero h]
      exact ⟨fun _ => Or.inl rfl, fun _ => by decide⟩
  | false =>
      obtain ⟨hquotient, hpercentage⟩ := scaled_improvement hbaseline h objective
      constructor
      · intro hfinite
        rw [← isFinite_of] at hfinite
        have hmiddle := hpercentage.isFinite hfinite
        have hfirst := hquotient.isFinite hmiddle
        rw [isFinite_of] at hfirst hmiddle hfinite
        rw [improvement_of_ne_zero h] at hfinite
        exact Or.inr ⟨hfirst, hmiddle, hfinite⟩
      · rintro (hzero | hstays)
        · cases hzero
        · rw [improvement_of_ne_zero h]
          exact hstays.percentage

end Improvement

variable {σ : Type} [RandomSource σ]

variable {s : AssignmentSolver σ} {p : Problem} {t : Instance Float} {found : Finding Float}
  {random : Array Nat}

theorem solve_of_finite (hvalid : p.kind = .assignment ∧ p.validate.valid = true)
    (h : Trial s p t found random) (hfound : found.objective.isFinite = true)
    (hrandom : (t.objective random).isFinite = true) :
    (s.solve p).1 = report s p t found random := by
  rw [solve_fst, run_attempt_of_trial hvalid h, if_pos ⟨hfound, hrandom⟩]
  rfl

theorem refused_of_overflow (hvalid : p.kind = .assignment ∧ p.validate.valid = true)
    (h : Trial s p t found random)
    (hover : ¬(found.objective.isFinite = true ∧ (t.objective random).isFinite = true)) :
    Refused (s.solve p).1 := by
  rw [solve_fst, run_attempt_of_trial hvalid h, if_neg hover]
  exact refused_guard name _

/-- A valid problem is refused exactly if an objective of its trial overflows; every other answer to
one has finite objectives. Its improvement is then computed from these two, is never something that is
not a number, and is finite exactly if no step on the way to it overflows. No such step makes the
solve fail. -/
theorem solve_finite_up_to_improvement (s : AssignmentSolver σ) (p : Problem) :
    (p.kind = .assignment ∧ p.validate.valid = true → ∀ t found random, Trial s p t found random →
      (Refused (s.solve p).1 ↔
        ¬(found.objective.isFinite = true ∧ (t.objective random).isFinite = true))) ∧
    ((s.solve p).1.status = .success ∨ (s.solve p).1.status = .timeout →
      ∃ t found random, Trial s p t found random ∧
        (s.solve p).1.objective = some found.objective ∧ found.objective.isFinite = true ∧
        (t.objective random).isFinite = true ∧
        (s.solve p).1.improvement = improvement (t.objective random) found.objective ∧
        (s.solve p).1.improvement.isNaN = false ∧
        ((s.solve p).1.improvement.isFinite = true ↔
          (t.objective random == 0) = true ∨ StaysFinite (t.objective random) found.objective)) := by
  refine ⟨fun hvalid t found random htrial => ?_, fun husable => ?_⟩
  · by_cases hfinite : found.objective.isFinite = true ∧ (t.objective random).isFinite = true
    · have hanswered := htrial.answered hfinite.1
      rw [solve_of_finite hvalid htrial hfinite.1 hfinite.2]
      simp [hfinite, hanswered.not_refused]
    · simp [hfinite, refused_of_overflow hvalid htrial hfinite]
  · have hnot : ¬Refused (s.solve p).1 := by
      intro hrefused
      rw [hrefused.status_eq] at husable
      simp at husable
    have hvalid : p.kind = .assignment ∧ p.validate.valid = true := by
      by_contra hinvalid
      exact hnot (s.refused_of_invalid hinvalid)
    obtain ⟨t, hstated, -, -⟩ := exists_instance hvalid.1 hvalid.2
    obtain ⟨found, random, htrial⟩ := s.exists_trial hstated
    by_cases hfinite : found.objective.isFinite = true ∧ (t.objective random).isFinite = true
    · obtain ⟨hfound, hrandom⟩ := hfinite
      refine ⟨t, found, random, htrial, ?_⟩
      rw [solve_of_finite hvalid htrial hfound hrandom]
      exact ⟨rfl, hfound, hrandom, rfl, isNaN_improvement hrandom hfound,
        isFinite_improvement_iff hrandom⟩
    · exact absurd (refused_of_overflow hvalid htrial hfinite) hnot

/-- Two units, of which only the one in the first slot counts: as much for it as the other against. -/
def opposite : Problem :=
  .assignment ⟨2, 2, #[1, 0, 0, 0], rfl⟩ ⟨2, 2, #[1.5e308, 0, 0, -1.5e308], rfl⟩

def briefly : AssignmentSolver KeyStream where
  settings := { strategy := .genetic, maxIterations := 1, maxPopulation := 2, seed := some 2 }
  admissible := by decide
  clock := .still
  source := RandomSource.ofSeed 0

/-- The best is the one arrangement and the baseline the other, so their difference overflows. -/
theorem improvement_overflows :
    opposite.kind = .assignment ∧ opposite.validate.valid = true ∧
      (briefly.solve opposite).1.status = .success ∧
      (briefly.solve opposite).1.objective = some (-1.5e308) ∧
      (briefly.solve opposite).1.improvement.isFinite = false := by
  decide +kernel

end AssignmentSolver

end Placement
