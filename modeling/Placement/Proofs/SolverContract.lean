import Placement.Assignment.Solver
import Placement.Proofs.AnnealingWalk
import Placement.Proofs.GeneticSearch
import Placement.Proofs.ValidProblems

/-!
# The contract of the assignment solver

A solve has two shapes. It is refused if the problem is no valid assignment problem, or if one of the
two objectives it rests on is not finite; otherwise it is answered by an arrangement with its
objective. There is no third: code outside its precondition is never reached, whatever the problem
holds and whatever is drawn.

The argument is one chain. A problem without a defect states an instance; settings in range describe a
search; either search ends at a sound finding (`Sound`), wherever its source stands; and the baseline
is an arrangement, which has an objective. The shape is then decided by two tests for finiteness.
-/

namespace Placement

open Draw

/-- A valid assignment problem states an instance of its two matrices. -/
theorem exists_instance {p : Problem} (hkind : p.kind = .assignment)
    (hvalid : p.validate.valid = true) : ∃ t, Instance.ofProblem p = .ok t ∧
      p.get? DataKey.distance = some t.distance ∧ p.get? DataKey.flow = some t.flow := by
  obtain ⟨t, ht⟩ := Instance.exists_ofProblem_iff.mpr ⟨hkind, hvalid⟩
  exact ⟨t, ht, Instance.get?_of_ofProblem ht⟩

/-! ## The two shapes of an answer -/

/-- The answer says that nothing was found, and why. -/
structure Refused (a : Answer) : Prop where
  status_eq : a.status = .failed
  reason : ∃ text, a.error? = some text
  solution_eq : a.solution = none
  objective_eq : a.objective = none
  gap_eq : a.gap = none
  iterations_eq : a.iterations = 0
  improvement_eq : a.improvement = 0

theorem error?_guard (solver : String) (cause : Abort) :
    (Optimizer.guard solver (.error cause)).error? = some cause.toFailure.message := by
  rw [Optimizer.guard, Result.error?, Result.annotate, Std.ExtTreeMap.getElem?_insert,
    if_neg (by decide)]
  exact Result.error?_failed _

/-- Whatever stopped a solve, the answer is refused with its text. -/
theorem refused_guard (solver : String) (cause : Abort) :
    Refused (Optimizer.guard solver (.error cause)) where
  status_eq := rfl
  reason := ⟨_, error?_guard solver cause⟩
  solution_eq := rfl
  objective_eq := rfl
  gap_eq := rfl
  iterations_eq := rfl
  improvement_eq := rfl

variable {σ : Type}

namespace AssignmentSolver

/-- The deadline of a solve. -/
def deadline (s : AssignmentSolver σ) : Deadline := .within s.clock s.settings.timeout

/-- The answer is `best` with its objective, in time or cut short by the deadline, and measured
against the baseline `random`. -/
structure Answered (s : AssignmentSolver σ) (t : Instance Float) (best random : Array Nat)
    (a : Answer) : Prop where
  status_eq : a.status = if s.deadline.expired a.iterations then .timeout else .success
  unexpired : ∀ i < a.iterations, s.deadline.expired i = false
  solution_eq : a.solution = some (.permutation best)
  arranges : Arranges best t.side
  objective_eq : a.objective = some (t.objective best)
  finite : (t.objective best).isFinite = true
  gap_eq : a.gap = none
  iterations_le : a.iterations ≤ s.settings.maxIterations.toNat
  improvement_eq : a.improvement = improvement (t.objective random) (t.objective best)

theorem Answered.not_refused {s : AssignmentSolver σ} {t : Instance Float} {best random : Array Nat}
    {a : Answer} (h : Answered s t best random a) : ¬Refused a := by
  intro hrefused
  have hsolution := h.solution_eq.symm.trans hrefused.solution_eq
  cases hsolution

end AssignmentSolver

/-! ## What either search hands back -/

/-- A finding that can be trusted: an arrangement with its objective, after no more steps than there
may be, none of which began past the deadline. -/
structure Sound (t : Instance Float) (deadline : Deadline) (limit : Nat) (found : Finding Float) :
    Prop where
  arranges : Arranges found.best t.side
  objective_eq : found.objective = t.objective found.best
  iterations_le : found.iterations ≤ limit
  unexpired : ∀ i < found.iterations, deadline.expired i = false
  expired : found.timedOut = true → deadline.expired found.iterations = true

variable [RandomSource σ]

theorem Annealing.ensures_run (a : Annealing) (t : Instance Float)
    (rule : Float → Float → Float → Bool) (deadline : Deadline) :
    Ensures (a.run t rule deadline : Draw σ (Finding Float)) (Sound t deadline a.maxIterations) := by
  intro s
  obtain ⟨p, s₀, past, last, timedOut, -, hran, hlast, hrun⟩ := a.exists_ran t rule deadline s
  have hcount : ∀ {front u}, Passes (step t rule a.cooling)
      (Walk.start p (t.objective p) a.temperature, s₀) front u → u.1.iterations = front.length :=
    fun hp => (iterations_of_passes hp).trans (Nat.zero_add _)
  have hiterations := hcount hran.passes
  refine ⟨_, _, hrun, hlast.best, rfl, ?_, ?_, ?_⟩
  · calc last.1.iterations = past.length := hiterations
      _ ≤ a.budget t := hran.length_le
      _ ≤ a.maxIterations := by
        unfold budget
        split
        · exact Nat.le_refl _
        · exact Nat.zero_le _
  · intro i hi
    obtain ⟨front, u, hp, hfront, hgo⟩ := hran.going_at (hi.trans_eq hiterations)
    rw [← hfront, ← hcount hp]
    exact halt?_eq_none hgo
  · intro hlate
    rcases hran.ended with ⟨-, hstop⟩ | ⟨-, hflag⟩
    · rw [show timedOut = true from hlate] at hstop
      exact halt?_eq_true hstop
    · exact absurd (hflag.symm.trans hlate) Bool.false_ne_true

theorem Genetic.ensures_run (g : Genetic) (hm : 0 < g.maxIterations) (t : Instance Float)
    (deadline : Deadline) :
    Ensures (g.run t deadline : Draw σ (Finding Float)) (Sound t deadline g.maxIterations) := by
  intro s
  obtain ⟨population, hsize, s₀, past, last, timedOut, -, hran, hall, hbest, hrun⟩ :=
    g.exists_ran t deadline s
  have hlast := hall hran.passes
  have hiterations := hlast.completed_eq
  refine ⟨_, _, hrun, hbest, finding_objective hlast timedOut, ?_, ?_, ?_⟩
  · calc last.1.completed = past.length := hiterations
      _ ≤ max (g.maxIterations / g.populationSize t.side) 1 := hran.length_le
      _ ≤ g.maxIterations := max_le (Nat.div_le_self _ _) hm
  · intro i hi
    obtain ⟨front, u, hp, hfront, hgo⟩ := hran.going_at (hi.trans_eq hiterations)
    rw [← hfront, ← (hall hp).completed_eq]
    exact halt?_eq_none hgo
  · intro hlate
    rcases hran.ended with ⟨-, hstop⟩ | ⟨-, hflag⟩
    · exact halt?_eq_some hstop
    · exact absurd (hflag.symm.trans hlate) Bool.false_ne_true

namespace AssignmentSolver

/-- Settings in range always lead to a sound finding. -/
theorem ensures_search {settings : Settings} (h : settings.InRange) (t : Instance Float)
    (deadline : Deadline) :
    Ensures (search settings t deadline : Draw σ (Finding Float))
      (Sound t deadline settings.maxIterations.toNat) := by
  unfold search
  cases settings.strategy with
  | annealing =>
      rw [h.toAnnealing_eq]
      exact Annealing.ensures_run _ t Annealing.metropolis deadline
  | genetic =>
      rw [h.toGenetic_eq]
      exact Genetic.ensures_run _ h.maxIterations t deadline

/-! ## One solve -/

/-- Where the source of a solve stands at first. -/
def origin (s : AssignmentSolver σ) : σ :=
  match s.settings.seed with
  | some seed => RandomSource.ofSeed seed
  | none => s.source

theorem solve_fst (s : AssignmentSolver σ) (p : Problem) : (s.solve p).1 =
    Optimizer.guard name ((attempt s.settings s.clock p : Draw σ Answer).run s.origin).1 := by
  unfold solve origin
  cases s.settings.seed with
  | some seed => rfl
  | none => rfl

/-- What a solve tries on a problem that states an instance: first its search comes to a finding,
then a random assignment is drawn for the baseline. -/
structure Trial (s : AssignmentSolver σ) (p : Problem) (t : Instance Float) (found : Finding Float)
    (random : Array Nat) : Prop where
  stated : Instance.ofProblem p = .ok t
  drawn : ∃ s₁ s₂, Yields (search s.settings t s.deadline) s.origin found s₁ ∧
    (Random.permutation t.side).run s₁ = (random, s₂)

theorem run_attempt_of_invalid (s : AssignmentSolver σ) {p : Problem}
    (h : ¬(p.kind = .assignment ∧ p.validate.valid = true)) :
    ∃ text, ((attempt s.settings s.clock p : Draw σ Answer).run s.origin).1 =
      .error (.failure (.validation text)) := by
  have hinvalid : ¬(p.validateFor name kinds).valid = true :=
    fun hvalid => h ((validateFor_valid_iff p).mp hvalid)
  rw [attempt, Verdict.toExcept, if_neg hinvalid, run_bind]
  exact ⟨_, rfl⟩

theorem refused_of_invalid (s : AssignmentSolver σ) {p : Problem}
    (h : ¬(p.kind = .assignment ∧ p.validate.valid = true)) : Refused (s.solve p).1 := by
  obtain ⟨cause, hrun⟩ := s.run_attempt_of_invalid h
  rw [solve_fst, hrun]
  exact refused_guard name _

theorem exists_trial (s : AssignmentSolver σ) {p : Problem} {t : Instance Float}
    (h : Instance.ofProblem p = .ok t) : ∃ found random, Trial s p t found random := by
  have hrange := Settings.fault?_eq_none_iff.mp s.admissible
  obtain ⟨found, s₁, hsearch, -⟩ := ensures_search hrange t s.deadline s.origin
  exact ⟨found, _, h, s₁, _, hsearch, rfl⟩

theorem Trial.sound {s : AssignmentSolver σ} {p : Problem} {t : Instance Float}
    {found : Finding Float} {random : Array Nat} (h : Trial s p t found random) :
    Sound t s.deadline s.settings.maxIterations.toNat found := by
  obtain ⟨s₁, s₂, hsearch, -⟩ := h.drawn
  exact (ensures_search (Settings.fault?_eq_none_iff.mp s.admissible) t s.deadline).of_yields hsearch

/-- What is reported of a trial whose objectives are finite. -/
def report (s : AssignmentSolver σ) (p : Problem) (t : Instance Float) (found : Finding Float)
    (random : Array Nat) : Answer :=
  { status := if found.timedOut || s.deadline.expired found.iterations then .timeout else .success
    solution := some (.permutation found.best)
    objective := some found.objective
    annotations := (annotations s.settings p t.side (t.objective random)).overlay found.annotations
    iterations := found.iterations
    gap := none
    improvement := improvement (t.objective random) found.objective }

/-- A solve of a valid problem is its trial, reported if both objectives are finite. -/
theorem run_attempt_of_trial {s : AssignmentSolver σ} {p : Problem} {t : Instance Float}
    {found : Finding Float} {random : Array Nat}
    (hvalid : p.kind = .assignment ∧ p.validate.valid = true) (h : Trial s p t found random) :
    ((attempt s.settings s.clock p : Draw σ Answer).run s.origin).1 =
      if found.objective.isFinite = true ∧ (t.objective random).isFinite = true then
        .ok (report s p t found random)
      else .error (.failure (overflow found.objective (t.objective random))) := by
  obtain ⟨hstated, s₁, s₂, hsearch, hrandom⟩ := h
  have harranges : Arranges random t.side := by
    have h := permutation_arranges t.side s₁
    rwa [hrandom] at h
  have hpass : Yields (obtained (p.validateFor name kinds).toExcept) s.origin () s.origin := by
    rw [Verdict.toExcept, if_pos ((validateFor_valid_iff p).mpr hvalid)]
    rfl
  have hstate : Yields (obtained (Instance.ofProblem p)) s.origin t s.origin := by
    rw [hstated]
    rfl
  have hbaseline : Yields (checked (t.objective? random)) s₂ (t.objective random) s₂ :=
    yields_checked.mpr ⟨Instance.objective?_eq harranges, rfl⟩
  rw [attempt, hpass.run_bind, hstate.run_bind]
  change (ExceptT.run (search s.settings t s.deadline >>= _) s.origin).1 = _
  rw [hsearch.run_bind, (yields_lift.mpr hrandom).run_bind, hbaseline.run_bind]
  cases hfound : found.objective.isFinite with
  | false => rfl
  | true =>
      cases hrand : (t.objective random).isFinite with
      | false => rfl
      | true => rfl

/-- A trial with finite objectives makes for an answer. A search that was cut short saw the deadline
expired at its last reading, so that reading alone decides about the status. -/
theorem Trial.answered {s : AssignmentSolver σ} {p : Problem} {t : Instance Float}
    {found : Finding Float} {random : Array Nat} (h : Trial s p t found random)
    (hfinite : found.objective.isFinite = true) :
    Answered s t found.best random (report s p t found random) := by
  have hsound := h.sound
  have hobjective := hsound.objective_eq
  refine ⟨?_, hsound.unexpired, rfl, hsound.arranges, congrArg some hobjective, ?_, rfl,
    hsound.iterations_le, ?_⟩
  · have hlate : (found.timedOut || s.deadline.expired found.iterations) =
        s.deadline.expired found.iterations := by
      cases hout : found.timedOut with
      | false => rfl
      | true => exact (hsound.expired hout).symm
    rw [report, hlate]
  · rw [← hobjective]
    exact hfinite
  · rw [report, hobjective]

/-- Every solve, whatever the problem and wherever the source stands, has one of two ends, and neither
is a broken precondition. It is refused exactly if the problem is no valid assignment problem or an
objective of its trial is not finite. Otherwise it is answered by the best of its trial, an
arrangement of as many units as the matrices of the problem have rows. -/
theorem solve_refused_or_answered (s : AssignmentSolver σ) (p : Problem) :
    (s.solve p).1 =
      Optimizer.guard name ((attempt s.settings s.clock p : Draw σ Answer).run s.origin).1 ∧
    (∀ cause, ((attempt s.settings s.clock p : Draw σ Answer).run s.origin).1 ≠
      .error (.breach cause)) ∧
    (Refused (s.solve p).1 ↔ ¬(p.kind = .assignment ∧ p.validate.valid = true) ∨
      ∃ t found random, Trial s p t found random ∧
        ¬(found.objective.isFinite = true ∧ (t.objective random).isFinite = true)) ∧
    (¬Refused (s.solve p).1 → ∃ t found random, Trial s p t found random ∧
      p.get? DataKey.distance = some t.distance ∧ p.get? DataKey.flow = some t.flow ∧
      Answered s t found.best random (s.solve p).1) := by
  have hsolve := s.solve_fst p
  refine ⟨hsolve, ?_⟩
  by_cases hvalid : p.kind = .assignment ∧ p.validate.valid = true
  · obtain ⟨t, hstated, hdistance, hflow⟩ := exists_instance hvalid.1 hvalid.2
    obtain ⟨found, random, htrial⟩ := s.exists_trial hstated
    have hrun := run_attempt_of_trial hvalid htrial
    by_cases hfinite : found.objective.isFinite = true ∧ (t.objective random).isFinite = true
    · rw [if_pos hfinite] at hrun
      rw [hrun] at hsolve ⊢
      have hanswered : Answered s t found.best random (s.solve p).1 := by
        rw [hsolve]
        exact htrial.answered hfinite.1
      refine ⟨fun cause h => (by cases h), ?_, fun _ => ⟨t, found, random, htrial, hdistance, hflow,
        hanswered⟩⟩
      refine ⟨fun h => absurd h hanswered.not_refused, ?_⟩
      rintro (hinvalid | ⟨t', found', random', htrial', hnot⟩)
      · exact absurd hvalid hinvalid
      · have hrun' := run_attempt_of_trial hvalid htrial'
        rw [if_neg hnot, hrun] at hrun'
        cases hrun'
    · rw [if_neg hfinite] at hrun
      rw [hrun] at hsolve ⊢
      have hrefused : Refused (s.solve p).1 := by
        rw [hsolve]
        exact refused_guard name _
      refine ⟨fun cause h => (by cases h), ?_, fun h => absurd hrefused h⟩
      exact ⟨fun _ => Or.inr ⟨t, found, random, htrial, hfinite⟩, fun _ => hrefused⟩
  · obtain ⟨cause, hrun⟩ := s.run_attempt_of_invalid hvalid
    have hrefused := s.refused_of_invalid hvalid
    rw [hrun]
    refine ⟨fun cause h => (by cases h), ?_, fun h => absurd hrefused h⟩
    exact ⟨fun _ => Or.inl hvalid, fun _ => hrefused⟩

end AssignmentSolver

end Placement
