import Placement.Proofs.GeneticSearch
import Placement.Proofs.HeuristicAnswers

/-!
# Where the source of the heuristic stands

The heuristic keeps its source from one solve to the next, so what it answers could depend on all that
it was asked before. Only a valid assignment problem draws, though, and what is drawn for it depends on
its dimension alone. Everything else is `Undrawn`: its outcome is the same wherever the source stands,
and the source stays there. This goes for what is refused as well, since the check comes before the
draw.

So the permutations of a whole run are those of its `drawnSizes`, drawn one after the other
(`solveEach_dealt`), and runs with the same sizes deal the same ones. Preparing starts the source over
from the seed, which no solve changes.
-/

namespace Placement

open Draw

namespace Heuristic

/-! ## One solve -/

/-- The problems that a permutation is drawn for. -/
def DrawsFor (p : Problem) : Prop :=
  p.kind = .assignment ∧ p.validate.valid = true

instance : DecidablePred DrawsFor := fun p =>
  inferInstanceAs (Decidable (p.kind = .assignment ∧ p.validate.valid = true))

def dealt (slots : Array Nat) : Answer := answered (.permutation slots, "random_permutation")

variable {σ : Type} [RandomSource σ]

theorem undrawn_propose {p : Problem} (hkind : p.kind ≠ .assignment) :
    Undrawn (propose p : Draw σ (Solution × String)) := by
  cases hdim : p.dimension? with
  | none =>
      simp only [propose, hdim]
      exact undrawn_throw_bind _ _
  | some n =>
      cases hcase : p.kind with
      | assignment => exact absurd hcase hkind
      | routing =>
          cases hd : p.get? DataKey.distance with
          | none =>
              simp only [propose, hdim, hcase, hd, pure_bind]
              exact undrawn_throw _
          | some distance =>
              simp only [propose, hdim, hcase, hd, pure_bind]
              exact (undrawn_checked (Route.greedy distance)).bind fun visits => undrawn_pure _
      | allocation =>
          cases hd : p.get? DataKey.demand with
          | none =>
              simp only [propose, hdim, hcase, hd, pure_bind]
              exact undrawn_throw _
          | some demand =>
              simp only [propose, hdim, hcase, hd, pure_bind]
              exact undrawn_pure _
      | topology | adversarial | multiObjective =>
          simp only [propose, hdim, hcase, pure_bind]
          exact undrawn_pure _

theorem undrawn_attempt {p : Problem} (hdraw : ¬DrawsFor p) :
    Undrawn (attempt p : Draw σ Answer) := by
  cases hvalid : p.validate.valid with
  | true =>
      have hkind : p.kind ≠ .assignment := fun hkind => hdraw ⟨hkind, hvalid⟩
      rw [attempt_of_valid hvalid]
      exact (undrawn_propose hkind).bind fun proposal => undrawn_pure _
  | false =>
      rw [attempt, validateFor_eq, Verdict.toExcept, if_neg (by simp [hvalid])]
      exact undrawn_throw_bind _ _

/-- A problem that nothing is drawn for gets the same answer from every state, which stays as it is. -/
theorem solve_of_not_drawsFor {p : Problem} (hdraw : ¬DrawsFor p) :
    ∃ answer, ∀ h : Heuristic σ, h.solve p = (answer, h) := by
  obtain ⟨outcome, hattempt⟩ := undrawn_attempt (σ := σ) hdraw
  refine ⟨Optimizer.guard name outcome, fun h => ?_⟩
  rw [solve, hattempt]

theorem dimension?_of_drawsFor {p : Problem} (hdraw : DrawsFor p) : ∃ n, p.dimension? = some n := by
  obtain ⟨n, hdim, -⟩ := ensures_attempt (σ := KeyStream) hdraw.2
  exact ⟨n, hdim⟩

theorem solve_of_drawsFor {p : Problem} {n : Nat} (hdraw : DrawsFor p)
    (hdim : p.dimension? = some n) (h : Heuristic σ) :
    h.solve p = (dealt ((Random.permutation n).run h.source).1,
      { h with source := ((Random.permutation n).run h.source).2 }) := by
  have hpropose : Yields (propose p) h.source
      (.permutation ((Random.permutation n).run h.source).1, "random_permutation")
      ((Random.permutation n).run h.source).2 := by
    simp only [propose, hdim, hdraw.1, pure_bind]
    exact (yields_lift.mpr rfl).bind rfl
  rw [solve, attempt_of_valid hdraw.2, hpropose.run_bind]
  rfl

/-! ## One solve after the other -/

/-- The answers to problems solved one after the other, and the state behind the last. -/
def solveEach (h : Heuristic σ) : List Problem → List Answer × Heuristic σ
  | [] => ([], h)
  | p :: ps =>
    let (answer, h) := h.solve p
    let (answers, h) := h.solveEach ps
    (answer :: answers, h)

/-- The dimensions of those problems that a permutation is drawn for, in order. -/
def drawnSizes (ps : List Problem) : List Nat :=
  (ps.filter DrawsFor).filterMap Problem.dimension?

/-- The answers to those problems, out of the answers to all. -/
def drawnAnswers (ps : List Problem) (answers : List Answer) : List Answer :=
  ((ps.zip answers).filter fun pair => DrawsFor pair.1).map Prod.snd

theorem drawnAnswers_cons_of_drawsFor {p : Problem} (hdraw : DrawsFor p) (ps : List Problem)
    (answer : Answer) (answers : List Answer) :
    drawnAnswers (p :: ps) (answer :: answers) = answer :: drawnAnswers ps answers := by
  simp [drawnAnswers, hdraw]

theorem drawnAnswers_cons_of_not_drawsFor {p : Problem} (hdraw : ¬DrawsFor p) (ps : List Problem)
    (answer : Answer) (answers : List Answer) :
    drawnAnswers (p :: ps) (answer :: answers) = drawnAnswers ps answers := by
  simp [drawnAnswers, hdraw]

/-- A run deals the permutations of its sizes, drawn one after the other from where its source stands. -/
theorem solveEach_dealt (h : Heuristic σ) (ps : List Problem) :
    drawnAnswers ps (h.solveEach ps).1 =
        (((drawnSizes ps).mapM Random.permutation).run h.source).1.map dealt ∧
      (h.solveEach ps).2 =
        { h with source := (((drawnSizes ps).mapM Random.permutation).run h.source).2 } := by
  induction ps generalizing h with
  | nil => exact ⟨rfl, rfl⟩
  | cons p ps ih =>
      by_cases hdraw : DrawsFor p
      -- one draw of size `n`, and the rest of the run starts where it leaves the source
      · obtain ⟨n, hdim⟩ := dimension?_of_drawsFor hdraw
        have hsizes : drawnSizes (p :: ps) = n :: drawnSizes ps := by
          simp [drawnSizes, hdraw, hdim]
        obtain ⟨hanswers, hlast⟩ := ih (h.solve p).2
        simp only [solve_of_drawsFor hdraw hdim] at hanswers hlast
        rw [hsizes, List.mapM_cons]
        constructor
        · simp only [solveEach, solve_of_drawsFor hdraw hdim, drawnAnswers_cons_of_drawsFor hdraw,
            hanswers]
          rfl
        · simp only [solveEach, solve_of_drawsFor hdraw hdim, hlast]
          rfl
      -- nothing has moved, so the rest of the run starts where the whole run did
      · obtain ⟨answer, hsolve⟩ := solve_of_not_drawsFor (σ := σ) hdraw
        have hsizes : drawnSizes (p :: ps) = drawnSizes ps := by
          simp [drawnSizes, hdraw]
        simp only [solveEach, hsolve, drawnAnswers_cons_of_not_drawsFor hdraw, hsizes]
        exact ih h

theorem arranges_permutation (n : Nat) (s : σ) : Arranges ((Random.permutation n).run s).1 n :=
  (ensures_permutation n).of_yields (yields_lift.mpr rfl)

theorem arranges_permutations (ns : List Nat) (s : σ) :
    List.Forall₂ (fun n slots => Arranges slots n) ns ((ns.mapM Random.permutation).run s).1 := by
  induction ns generalizing s with
  | nil => exact .nil
  | cons n ns ih =>
      rw [List.mapM_cons]
      exact .cons (arranges_permutation n s) (ih _)

/-! ## Starting over -/

/-- What the heuristic can be asked to do. -/
inductive Call where
  | solve (p : Problem)
  | prepare

def call (h : Heuristic σ) : Call → Heuristic σ
  | .solve p => (h.solve p).2
  | .prepare => h.restart

/-- The heuristic after a history of calls. -/
def after (h : Heuristic σ) (calls : List Call) : Heuristic σ := calls.foldl call h

theorem call_seed (h : Heuristic σ) (c : Call) : (h.call c).seed = h.seed := by
  cases c with
  | solve p => rfl
  | prepare => rfl

theorem after_seed (h : Heuristic σ) (calls : List Call) : (h.after calls).seed = h.seed := by
  induction calls generalizing h with
  | nil => rfl
  | cons c calls ih =>
      rw [after, List.foldl_cons, ← after, ih, call_seed]

theorem restart_of_seed {h : Heuristic σ} {seed : UInt64} (hseed : h.seed = some seed) (source : σ) :
    h.restart = ofSeed (some seed) source := by
  rw [restart, hseed]
  rfl

/-- With a seed, the permutations of a run are settled by the sizes of the valid assignment problems in
it. Whatever else is solved in between gets the answer that it gets everywhere, and moves nothing. And
once prepared, the heuristic goes on as one that was never used, after any history of calls. -/
theorem solveEach_settled_by_sizes (seed : UInt64) (source source' : σ) :
    (∀ p, ¬DrawsFor p → ∃ answer, ∀ h : Heuristic σ, h.solve p = (answer, h)) ∧
    (∀ ps qs, drawnSizes ps = drawnSizes qs → ∃ permutations,
      List.Forall₂ (fun n slots => Arranges slots n) (drawnSizes ps) permutations ∧
      drawnAnswers ps ((ofSeed (some seed) source).solveEach ps).1 = permutations.map dealt ∧
      drawnAnswers qs ((ofSeed (some seed) source').solveEach qs).1 = permutations.map dealt) ∧
    ∀ calls ps, ∃ h, Optimizer.prepare ((ofSeed (some seed) source).after calls) = .ok h ∧
      h.solveEach ps = (ofSeed (some seed) source').solveEach ps := by
  refine ⟨fun p => solve_of_not_drawsFor, fun ps qs hsizes => ?_, fun calls ps => ?_⟩
  · obtain ⟨hps, -⟩ := (ofSeed (some seed) source).solveEach_dealt ps
    obtain ⟨hqs, -⟩ := (ofSeed (some seed) source').solveEach_dealt qs
    refine ⟨_, arranges_permutations (drawnSizes ps) (RandomSource.ofSeed seed), hps, ?_⟩
    rw [hsizes]
    exact hqs
  · refine ⟨_, rfl, ?_⟩
    rw [restart_of_seed (after_seed _ calls) source']

def pair : Problem := .assignment Genetic.twoSlots.distance Genetic.twoSlots.flow

/-- Two assignments among problems of other kinds and one without data. -/
def crowd : List Problem :=
  [.empty .assignment, pair,
    (Problem.empty .routing).withData DataKey.distance Genetic.twoSlots.distance, .empty .topology,
    pair]

theorem solveEach_settled_by_sizes_crowd :
    drawnSizes crowd = drawnSizes [pair, pair] ∧ ¬DrawsFor (.empty .assignment) ∧
    ∃ permutations : List (Array Nat), permutations.length = 2 ∧
      drawnAnswers crowd
        ((ofSeed (some 5) (RandomSource.ofSeed 0 : KeyStream)).solveEach crowd).1 =
          permutations.map dealt ∧
      drawnAnswers [pair, pair]
        ((ofSeed (some 5) (RandomSource.ofSeed 1 : KeyStream)).solveEach [pair, pair]).1 =
          permutations.map dealt := by
  have hsizes : drawnSizes crowd = drawnSizes [pair, pair] := by decide +kernel
  have hcount : (drawnSizes crowd).length = 2 := by decide +kernel
  obtain ⟨permutations, harrange, hcrowd, hpairs⟩ := (solveEach_settled_by_sizes 5
    (RandomSource.ofSeed 0 : KeyStream) (RandomSource.ofSeed 1)).2.1 crowd [pair, pair] hsizes
  refine ⟨hsizes, by decide +kernel, permutations, ?_, hcrowd, hpairs⟩
  rw [← harrange.length_eq, hcount]

end Heuristic

end Placement
