import Placement.Proofs.NearestRoute
import Placement.Proofs.SolverContract

/-!
# The heuristic answers whatever is valid

Three parts of the library look up the data of a problem, each by its kind: the check, the dimension
and the heuristic. Here they are shown to agree. A problem without a defect has a dimension, that
dimension is not zero, and what the heuristic asks for is there and has the size of the dimension.

The one place where code could leave its precondition is the route, which reads cells one at a time.
Those of a square are all stored, so it comes to an end, and what the answer gives as the order of visits
is the nearest node at every move (`solve_visits_nearest`).
-/

namespace Placement

open Draw

/-! ## What a check that finds nothing provides -/

theorem Matrix.rows_pos {α : Type} {m : Matrix α} (h : 0 < m.values.size) : 0 < m.rows := by
  rw [m.size_values] at h
  exact Nat.pos_of_mul_pos_right h

/-- Where any data will do, the first matrix is there and has a row. -/
theorem Problem.exists_first {p : Problem} (h : p.anyDataDefect? = none) :
    ∃ entry, p.data.toList.head? = some entry ∧ 0 < entry.2.rows := by
  obtain ⟨⟨key, m, hm⟩, hall⟩ := anyDataDefect?_eq_none_iff.mp h
  have hmem : (key, m) ∈ p.data.toList := Std.ExtTreeMap.mem_toList_iff_getElem?_eq_some.mpr hm
  cases hentries : p.data.toList with
  | nil => simp [hentries] at hmem
  | cons entry entries =>
      have hentry : (entry.1, entry.2) ∈ p.data.toList := by simp [hentries]
      rw [Std.ExtTreeMap.mem_toList_iff_getElem?_eq_some] at hentry
      exact ⟨entry, rfl, Matrix.rows_pos (hall _ _ hentry).1⟩

/-! ## One solve -/

/-- The form of a solution of dimension `n`: equal amounts, one for each consumer, if there is
something to divide, and an order of `0, …, n - 1` in all other kinds of problems. -/
def Solves (p : Problem) (n : Nat) : Solution → Prop
  | .permutation slots => p.kind ≠ .allocation ∧ Arranges slots n
  | .allocation amounts => p.kind = .allocation ∧
      (∃ demand, p.get? DataKey.demand = some demand ∧ n = demand.values.size) ∧
      ∃ amount, amounts = Array.replicate n amount

namespace Heuristic

/-- What the heuristic calls its way with each kind of problem. -/
def strategy : ProblemKind → String
  | .assignment => "random_permutation"
  | .routing => "greedy_route"
  | .allocation => "equal_split"
  | .topology | .adversarial | .multiObjective => "identity"

/-- The answer to a problem of dimension `n`: a solution, with the way it was found, and no objective. -/
structure StoodIn (p : Problem) (n : Nat) (a : Answer) : Prop where
  status_eq : a.status = .fallback
  solves : ∃ solution, a.solution = some solution ∧ Solves p n solution
  strategy_eq : a.annotations["strategy"]? = some (.text (strategy p.kind))
  solver_eq : a.annotations[Optimizer.solverKey]? = some (.text name)
  objective_eq : a.objective = none
  gap_eq : a.gap = none
  iterations_eq : a.iterations = 1
  improvement_eq : a.improvement = 0

/-- The answer with a solution, and the way it was found. -/
def answered (proposal : Solution × String) : Answer :=
  { ((Result.ofStatus .fallback).annotate Optimizer.solverKey (.text name)).annotate "strategy"
      (.text proposal.2) with
    solution := some proposal.1
    iterations := 1 }

variable {σ : Type} [RandomSource σ]

theorem ensures_propose {p : Problem} (hvalid : p.validate.valid = true) :
    ∃ n, p.dimension? = some n ∧ 1 ≤ n ∧ Ensures (propose p : Draw σ (Solution × String))
      fun proposal => Solves p n proposal.1 ∧ proposal.2 = strategy p.kind := by
  have hdefect := p.validate_valid_iff.mp hvalid
  unfold Problem.defect? at hdefect
  cases hkind : p.kind with
  | assignment =>
      rw [hkind] at hdefect
      obtain ⟨distance, -, hd, -, side, hpos, hgrid, -⟩ :=
        Problem.assignmentDefect?_eq_none_iff.mp hdefect
      have hdim : p.dimension? = some distance.rows := by simp [Problem.dimension?, hkind, hd]
      refine ⟨_, hdim, hgrid.rows_eq ▸ hpos, ?_⟩
      simp only [propose, hdim, hkind, pure_bind]
      refine (ensures_permutation distance.rows).bind fun slots hslots => ensures_pure ⟨?_, rfl⟩
      exact ⟨by simp [hkind], hslots⟩
  | routing =>
      rw [hkind] at hdefect
      obtain ⟨distance, hd, side, hpos, hgrid⟩ := Problem.squareDefect?_eq_none_iff.mp hdefect
      have hdim : p.dimension? = some distance.rows := by simp [Problem.dimension?, hkind, hd]
      obtain ⟨visits, hvisits, harranges, -⟩ :=
        Route.greedy_goesTo (hgrid.rows_eq.trans hgrid.cols_eq.symm)
      refine ⟨_, hdim, hgrid.rows_eq ▸ hpos, ?_⟩
      simp only [propose, hdim, hkind, hd, pure_bind]
      refine (ensures_checked (P := (· = visits)) hvisits rfl).bind ?_
      rintro _ rfl
      exact ensures_pure ⟨⟨by simp [hkind], harranges⟩, rfl⟩
  | allocation =>
      rw [hkind] at hdefect
      obtain ⟨demand, hd, hpos, -⟩ := Problem.allocationDefect?_eq_none_iff.mp hdefect
      have hdim : p.dimension? = some demand.values.size := by
        simp [Problem.dimension?, hkind, hd]
      refine ⟨_, hdim, hpos, ?_⟩
      simp only [propose, hdim, hkind, hd, pure_bind]
      exact ensures_pure ⟨⟨hkind, ⟨demand, hd, rfl⟩, _, rfl⟩, rfl⟩
  | topology =>
      rw [hkind] at hdefect
      obtain ⟨links, hl, side, hpos, hgrid⟩ := Problem.squareDefect?_eq_none_iff.mp hdefect
      have hdim : p.dimension? = some links.rows := by simp [Problem.dimension?, hkind, hl]
      refine ⟨_, hdim, hgrid.rows_eq ▸ hpos, ?_⟩
      simp only [propose, hdim, hkind, pure_bind]
      exact ensures_pure ⟨⟨by simp [hkind], arranges_range links.rows⟩, rfl⟩
  | adversarial | multiObjective =>
      rw [hkind] at hdefect
      obtain ⟨first, hf, hpos⟩ := Problem.exists_first hdefect
      have hdim : p.dimension? = some (max first.2.rows first.2.cols) := by
        simp [Problem.dimension?, hkind, hf]
      refine ⟨_, hdim, by omega, ?_⟩
      simp only [propose, hdim, hkind, pure_bind]
      exact ensures_pure ⟨⟨by simp [hkind], arranges_range _⟩, rfl⟩

theorem solve_fst (h : Heuristic σ) (p : Problem) :
    (h.solve p).1 = Optimizer.guard name ((attempt p : Draw σ Answer).run h.source).1 := rfl

/-- The heuristic takes problems of all kinds, so only the check can turn one away. -/
theorem validateFor_eq (p : Problem) : p.validateFor name ProblemKind.all = p.validate := by
  have hall : ProblemKind.all.contains p.kind = true := by simp [p.kind.mem_all]
  rw [Problem.validateFor, if_pos hall]

theorem attempt_of_valid {p : Problem} (hvalid : p.validate.valid = true) :
    (attempt p : Draw σ Answer) = propose p >>= fun proposal => pure (answered proposal) := by
  rw [attempt, validateFor_eq, Verdict.toExcept, if_pos hvalid]
  rfl

theorem ensures_attempt {p : Problem} (hvalid : p.validate.valid = true) :
    ∃ n, p.dimension? = some n ∧ 1 ≤ n ∧ Ensures (attempt p : Draw σ Answer) (StoodIn p n) := by
  obtain ⟨n, hdim, hpos, hpropose⟩ := ensures_propose (σ := σ) hvalid
  refine ⟨n, hdim, hpos, ?_⟩
  rw [attempt_of_valid hvalid]
  refine hpropose.bind ?_
  rintro ⟨solution, way⟩ ⟨hsolves, rfl⟩
  refine ensures_pure ⟨rfl, ⟨solution, rfl, hsolves⟩, ?_, ?_, rfl, rfl, rfl, rfl⟩
  · simp [answered, Result.annotate]
  · rw [answered, Result.annotate, Std.ExtTreeMap.getElem?_insert, if_neg (by decide)]
    exact Std.ExtTreeMap.getElem?_insert_self

theorem run_attempt_of_invalid {p : Problem} (hinvalid : p.validate.valid = false) (s : σ) :
    ∃ message, p.validate.message = some message ∧ ((attempt p : Draw σ Answer).run s).1 =
      .error (.failure (.validation message)) := by
  have hstop : ¬p.validate.valid = true := by simp [hinvalid]
  cases hdefect : p.defect? with
  | none => exact absurd (p.validate_valid_iff.mpr hdefect) hstop
  | some defect =>
      have hmessage : p.validate.message = some defect.message := by
        rw [p.validate_message, hdefect, Option.map_some]
      refine ⟨_, hmessage, ?_⟩
      rw [attempt, validateFor_eq, Verdict.toExcept, if_neg hstop, run_bind, hmessage]
      rfl

/-- The heuristic turns away exactly what is invalid. -/
theorem refused_of_invalid (h : Heuristic σ) {p : Problem} (hinvalid : p.validate.valid = false) :
    Refused (h.solve p).1 := by
  obtain ⟨message, -, hrun⟩ := run_attempt_of_invalid hinvalid h.source
  rw [solve_fst, hrun]
  exact refused_guard name _

/-- Every problem, of whatever kind and with whatever data, is answered as its check says, wherever
the source stands. A valid one has a dimension of at least one and gets a solution of that dimension;
no step on the way to it stops. An invalid one is refused with the text of the check. Neither breaks a
precondition. -/
theorem solve_answers_iff_valid (h : Heuristic σ) (p : Problem) :
    (h.solve p).1 = Optimizer.guard name ((attempt p : Draw σ Answer).run h.source).1 ∧
    (∀ cause, ((attempt p : Draw σ Answer).run h.source).1 ≠ .error (.breach cause)) ∧
    ((h.solve p).1.status = .fallback ↔ p.validate.valid = true) ∧
    (p.validate.valid = true →
      (∃ n, p.dimension? = some n ∧ 1 ≤ n ∧ StoodIn p n (h.solve p).1) ∧
      ∀ s, ∃ proposal s', Yields (propose p : Draw σ (Solution × String)) s proposal s') ∧
    (p.validate.valid = false → Refused (h.solve p).1 ∧
      ∃ message, p.validate.message = some message ∧
        (h.solve p).1.error? = some ("Validation error: " ++ message)) := by
  refine ⟨h.solve_fst p, ?_⟩
  cases hvalid : p.validate.valid with
  | true =>
      obtain ⟨n, hdim, hpos, hattempt⟩ := ensures_attempt (σ := σ) hvalid
      obtain ⟨answer, s', hrun, hstood⟩ := hattempt h.source
      have hanswer : (h.solve p).1 = answer := by rw [solve_fst, hrun]; rfl
      refine ⟨?_, ?_, fun _ => ⟨⟨n, hdim, hpos, hanswer ▸ hstood⟩, ?_⟩, nofun⟩
      · intro cause hbreach
        rw [hrun] at hbreach
        cases hbreach
      · simp [hanswer, hstood.status_eq]
      · intro s
        obtain ⟨_, -, -, hpropose⟩ := ensures_propose (σ := σ) hvalid
        obtain ⟨proposal, s', hyields, -⟩ := hpropose s
        exact ⟨proposal, s', hyields⟩
  | false =>
      obtain ⟨message, hmessage, hrun⟩ := run_attempt_of_invalid hvalid h.source
      have hrefused := h.refused_of_invalid hvalid
      refine ⟨?_, ?_, nofun, fun _ => ⟨hrefused, message, hmessage, ?_⟩⟩
      · intro cause hbreach
        rw [hrun] at hbreach
        cases hbreach
      · simp [hrefused.status_eq]
      · rw [solve_fst, hrun]
        exact error?_guard name _

/-! ## Routes -/

/-- Whatever its distances are, a valid problem of routing is answered by a route that starts at node
zero and goes from each node to the nearest of those it has not visited, the smallest of several. -/
theorem solve_visits_nearest (h : Heuristic σ) {p : Problem} (hkind : p.kind = .routing)
    (hvalid : p.validate.valid = true) : ∃ distance n visits,
      p.get? DataKey.distance = some distance ∧ 1 ≤ n ∧ distance.dim = (n, n) ∧
      (h.solve p).1.status = .fallback ∧ (h.solve p).1.solution = some (.permutation visits) ∧
      Arranges visits n ∧ visits[0]? = some 0 ∧
      ∀ t, 1 ≤ t → t < n → ∃ u v, visits[t - 1]? = some u ∧ visits[t]? = some v ∧
        Route.GoesTo distance (visits.toList.take t) u v := by
  have hdefect := p.validate_valid_iff.mp hvalid
  rw [Problem.defect?, hkind] at hdefect
  obtain ⟨distance, hd, n, hpos, hgrid⟩ := Problem.squareDefect?_eq_none_iff.mp hdefect
  obtain rfl := hgrid.rows_eq
  obtain ⟨visits, hvisits, harranges, hfirst, hgoes⟩ := Route.greedy_goesTo hgrid.cols_eq.symm
  have hdim : p.dimension? = some distance.rows := by simp [Problem.dimension?, hkind, hd]
  have hpropose : (propose p : Draw σ (Solution × String)) =
      pure (.permutation visits.toArray, strategy .routing) := by
    simp only [propose, hdim, hkind, hd, hvisits, pure_bind]
    rfl
  have hsolve : (h.solve p).1 = answered (.permutation visits.toArray, strategy .routing) := by
    rw [solve_fst, attempt_of_valid hvalid, hpropose]
    rfl
  refine ⟨distance, distance.rows, visits.toArray, hd, hpos, hgrid.dim_eq, by rw [hsolve]; rfl,
    by rw [hsolve]; rfl, harranges, by simpa using hfirst hpos, fun t ht htn => ?_⟩
  obtain ⟨u, v, hu, hv, hmove⟩ := hgoes (t - 1) (by omega)
  rw [Nat.sub_add_cancel ht] at hv hmove
  exact ⟨u, v, by simpa using hu, by simpa using hv, hmove⟩

/-- A route with ties: from node zero to three nodes equally far, and the two zeros apart. -/
def tied : Problem :=
  (Problem.empty .routing).withData DataKey.distance
    ⟨4, 4, #[0, 2, 2, 2, 1, 0, 0, -0.0, 1, 1, 0, 5, 1, 3, 3, 0], rfl⟩

/-- Node three is taken before node two, since it stands at negative zero. -/
theorem solve_visits_nearest_tied : tied.kind = .routing ∧ tied.validate.valid = true ∧
    ∃ distance, tied.get? DataKey.distance = some distance ∧
      ((ofSeed none (RandomSource.ofSeed 7 : KeyStream)).solve tied).1.solution =
        some (.permutation #[0, 1, 3, 2]) ∧
      Route.GoesTo distance [0, 1] 1 3 := by
  have hvalid : tied.validate.valid = true := by decide +kernel
  have hvisits : (((ofSeed none (RandomSource.ofSeed 7 : KeyStream)).solve tied).1.solution.bind
      Solution.permutation?) = some #[0, 1, 3, 2] := by decide +kernel
  obtain ⟨distance, n, visits, hd, -, -, -, hsolution, harranges, -, hgoes⟩ :=
    solve_visits_nearest (ofSeed none (RandomSource.ofSeed 7 : KeyStream)) rfl hvalid
  rw [hsolution] at hvisits
  cases hvisits
  have hn : 4 = n := harranges.size_eq
  obtain ⟨u, v, hu, hv, hmove⟩ := hgoes 2 (by omega) (by omega)
  cases hu
  cases hv
  exact ⟨rfl, hvalid, distance, hd, hsolution, hmove⟩

end Heuristic

end Placement
