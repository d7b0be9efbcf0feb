import Placement.Proofs.EngineChoice
import Placement.Proofs.SolverContract
import Placement.Random.KeyStream

/-!
# How far the gates agree

The same ranges are tested in three places: in the gate of each search, and in the gate of the settings
that stands before both. Read as conditions on the parameters, the gate of a genetic search and that of
the settings say what they are meant to say. The gate of a walk asks that the temperature is not at or
below zero. A temperature that is not a number is neither that nor above zero, so it is let through.

The settings ask for a temperature above zero, so nothing of this reaches a solver: whatever its settings
let through is taken by either search, and a solve can only fail on its problem or on an objective that
has overflowed (`attempt_reports_or_stops`).
-/

namespace Placement

open Draw

theorem isCooling_iff {rate : Float} : isCooling rate = true ↔ 0 < rate ∧ rate < 1 := by
  simp only [isCooling, Bool.and_eq_true, decide_eq_true_eq]

theorem isRate_iff {rate : Float} : isRate rate = true ↔ 0 ≤ rate ∧ rate ≤ 1 := by
  simp only [isRate, Bool.and_eq_true, decide_eq_true_eq]

/-- Among numbers, what does not lie at or below zero lies above it. -/
theorem not_le_zero_iff {t : Float} : ¬t ≤ 0 ↔ 0 < t ∨ t.isNaN = true := by
  have hzero : (0 : Float).isNaN ≠ true := by decide
  rw [FloatOrder.not_le_iff, or_iff_left hzero]

namespace Annealing

theorem exists_ofParameters_iff {m : Nat} {temperature cooling floor : Float} :
    (∃ a, ofParameters m temperature cooling floor = .ok a) ↔
      1 ≤ m ∧ (0 < temperature ∨ temperature.isNaN = true) ∧ 0 < cooling ∧ cooling < 1 := by
  simp only [ofParameters_eq_ok, exists_and_left, exists_eq, and_true, not_le_zero_iff, isCooling_iff]
  rfl

end Annealing

namespace Genetic

theorem exists_ofParameters_iff {m p k : Nat} {rate : Float} :
    (∃ g, ofParameters m p rate k = .ok g) ↔ 1 ≤ m ∧ 2 ≤ p ∧ (0 ≤ rate ∧ rate ≤ 1) ∧ 1 ≤ k := by
  simp only [ofParameters_eq_ok, exists_and_left, exists_eq, and_true, isRate_iff]
  rfl

end Genetic

/-! ## Solvers -/

/-- A text that begins with one letter is not one that begins with another. -/
theorem append_ne_append {lead lead' : String} {c c' : Char} (h : lead.toList.head? = some c)
    (h' : lead'.toList.head? = some c') (hne : c ≠ c') (text text' : String) :
    lead ++ text ≠ lead' ++ text' := by
  intro hsame
  have hfirst := congrArg (fun s : String => s.toList.head?) hsame
  simp only [String.toList_append, List.head?_append, h, h', Option.some_or] at hfirst
  exact hne (Option.some.inj hfirst)

/-- The text of a failure tells whether a parameter was at fault. -/
theorem Failure.message_ne_configuration {cause : Failure}
    (h : (∃ text, cause = .validation text) ∨ ∃ text, cause = .algorithm text) (text : String) :
    cause.message ≠ (Failure.configuration text).message := by
  have hconfiguration : "Configuration error: ".toList.head? = some 'C' := rfl
  rcases h with ⟨text', rfl⟩ | ⟨text', rfl⟩
  · have hvalidation : "Validation error: ".toList.head? = some 'V' := rfl
    exact append_ne_append hvalidation hconfiguration (by decide) text' text
  · have halgorithm : "Algorithm error: ".toList.head? = some 'A' := rfl
    exact append_ne_append halgorithm hconfiguration (by decide) text' text

namespace AssignmentSolver

variable {σ : Type}

theorem status_report (s : AssignmentSolver σ) (p : Problem) (t : Instance Float)
    (found : Finding Float) (random : Array Nat) : (report s p t found random).status ≠ .failed := by
  unfold report
  dsimp only
  split
  · exact Status.noConfusion
  · exact Status.noConfusion

variable [RandomSource σ]

/-- A solve ends with a report, or stops at its problem, or at an objective that is not finite. -/
theorem attempt_reports_or_stops (s : AssignmentSolver σ) (p : Problem) :
    (∃ t found random, ((attempt s.settings s.clock p : Draw σ Answer).run s.origin).1 =
      .ok (report s p t found random)) ∨
    ∃ cause, ((attempt s.settings s.clock p : Draw σ Answer).run s.origin).1 =
        .error (.failure cause) ∧
      ((∃ text, cause = .validation text) ∨ ∃ text, cause = .algorithm text) := by
  by_cases hvalid : p.kind = .assignment ∧ p.validate.valid = true
  · obtain ⟨t, hstated, -, -⟩ := exists_instance hvalid.1 hvalid.2
    obtain ⟨found, random, htrial⟩ := s.exists_trial hstated
    rw [run_attempt_of_trial hvalid htrial]
    split
    · exact Or.inl ⟨t, found, random, rfl⟩
    · exact Or.inr ⟨_, rfl, Or.inr ⟨_, rfl⟩⟩
  · obtain ⟨text, hrun⟩ := s.run_attempt_of_invalid hvalid
    exact Or.inr ⟨_, hrun, Or.inl ⟨text, rfl⟩⟩

/-- No solver, whatever it is asked, finds fault with its own settings. -/
theorem not_configuration (s : AssignmentSolver σ) (p : Problem) (text : String) :
    ((attempt s.settings s.clock p : Draw σ Answer).run s.origin).1 ≠
        .error (.failure (.configuration text)) ∧
      ((s.solve p).1.status = .failed →
        (s.solve p).1.error? ≠ some (Failure.configuration text).message) := by
  rw [solve_fst]
  rcases s.attempt_reports_or_stops p with ⟨t, found, random, hrun⟩ | ⟨cause, hrun, hkind⟩
  · rw [hrun]
    exact ⟨fun hsame => (nomatch hsame), fun hfailed => absurd hfailed (status_report s p t found random)⟩
  · have hmessage := Failure.message_ne_configuration hkind text
    rw [hrun, error?_guard]
    refine ⟨fun hsame => ?_, fun _ hsame => hmessage (Option.some.inj hsame)⟩
    cases hsame
    exact hmessage rfl

end AssignmentSolver

/-- For all parameters, those that are infinite or not a number included: the gate of a genetic search
lets through exactly what lies in its ranges, and that of a walk exactly what lies in its ranges or has
a temperature that is not a number. What the gate of the settings lets through is taken by both, just as
it is, so no solver made from settings ever fails on account of them. -/
theorem gates_admit_up_to_nan (m p k : Nat) (temperature cooling floor rate : Float)
    (settings : Settings) {σ : Type} [RandomSource σ] (clock : Clock) (source : σ) :
    ((∃ a, Annealing.ofParameters m temperature cooling floor = .ok a) ↔
      1 ≤ m ∧ (0 < temperature ∨ temperature.isNaN = true) ∧ 0 < cooling ∧ cooling < 1) ∧
    ((∃ g, Genetic.ofParameters m p rate k = .ok g) ↔
      1 ≤ m ∧ 2 ≤ p ∧ (0 ≤ rate ∧ rate ≤ 1) ∧ 1 ≤ k) ∧
    (settings.validate = .ok () →
      settings.toAnnealing = .ok ⟨settings.maxIterations.toNat, settings.temperature,
        settings.cooling, settings.floor⟩ ∧
      settings.toGenetic = .ok ⟨settings.maxIterations.toNat, settings.maxPopulation.toNat,
        settings.mutationRate, ⟨settings.tournamentSize.toNat, false⟩⟩) ∧
    ∀ solver, AssignmentSolver.ofSettings settings clock source = .ok solver →
      ∀ (problem : Problem) (text : String),
        ((AssignmentSolver.attempt solver.settings solver.clock problem : Draw σ Answer).run
          solver.origin).1 ≠ .error (.failure (.configuration text)) ∧
        ((solver.solve problem).1.status = .failed →
          (solver.solve problem).1.error? ≠ some (Failure.configuration text).message) := by
  refine ⟨Annealing.exists_ofParameters_iff, Genetic.exists_ofParameters_iff, fun hvalid => ?_,
    fun solver _ => solver.not_configuration⟩
  have hrange := Settings.fault?_eq_none_iff.mp (Settings.validate_eq_ok_iff.mp hvalid)
  exact ⟨hrange.toAnnealing_eq, hrange.toGenetic_eq⟩

/-- An infinite temperature is let through by a walk. The standard settings are let through by all three
gates, and no solve with them is ever refused on their account. -/
theorem gates_admit_up_to_nan_standard :
    (∃ a, Annealing.ofParameters 1 (1 / 0) 0.5 (0 / 0) = .ok a) ∧
    (∃ g, Genetic.ofParameters 1 2 0 1 = .ok g) ∧ Settings.standard.validate = .ok () ∧
    (∃ a, Settings.standard.toAnnealing = .ok a) ∧ (∃ g, Settings.standard.toGenetic = .ok g) ∧
    ∃ solver : AssignmentSolver KeyStream,
      AssignmentSolver.ofSettings .standard .still (RandomSource.ofSeed 7) = .ok solver ∧
      ∀ p text, (solver.solve p).1.status = .failed →
        (solver.solve p).1.error? ≠ some (Failure.configuration text).message := by
  have hfault : Settings.standard.fault? = none := by decide
  have hvalid := Settings.validate_eq_ok_iff.mpr hfault
  have hsolver := AssignmentSolver.ofSettings_eq hfault .still (RandomSource.ofSeed 7 : KeyStream)
  obtain ⟨hwalk, hbreed, hsearches, hsolves⟩ :=
    gates_admit_up_to_nan 1 2 1 (1 / 0) 0.5 (0 / 0) 0 .standard .still
      (RandomSource.ofSeed 7 : KeyStream)
  obtain ⟨hannealing, hgenetic⟩ := hsearches hvalid
  refine ⟨hwalk.mpr ?_, hbreed.mpr ?_, hvalid, ⟨_, hannealing⟩, ⟨_, hgenetic⟩, _, hsolver,
    fun p text => (hsolves _ hsolver p text).2⟩
  · exact ⟨le_rfl, Or.inl (by decide), by decide, by decide⟩
  · exact ⟨le_rfl, le_rfl, by decide, le_rfl⟩

/-- Nothing divided by nothing is no temperature above zero, and a walk takes it all the same. The
settings do not. -/
theorem nan_admitted_by_walk : (∃ a, Annealing.ofParameters 10 (0 / 0) 0.9 0.1 = .ok a) ∧
    ¬(0 : Float) < 0 / 0 ∧
    ({ temperature := 0 / 0 } : Settings).validate = .error ParameterFault.temperature.toFailure := by
  refine ⟨Annealing.exists_ofParameters_iff.mpr ?_, by decide, by decide⟩
  exact ⟨by decide, Or.inr (by decide), by decide, by decide⟩

end Placement
