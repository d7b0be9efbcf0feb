import Placement.Proofs.ReadyInstances

/-!
# Runs of the bench

A run hands the state of the optimizer on from one name to the next, so a name that drew from it by
mistake would shift every answer behind it. What one name does is laid down by `Scored`: either it
cannot be loaded, and the state goes past it untouched, or its problem is solved once in the state that
the names before it have left. Everything said about whole runs follows from this by induction on the
names, with the state threaded through.

The optimizer is any machine that answers a problem and moves on. In particular it may be one that
writes down what it is asked to solve (`Watched`), so that the calls of a run can be read off.
-/

namespace Placement

/-- An optimizer together with the problems that it was asked to solve, in order. -/
structure Watched (ω : Type) where
  inner : ω
  asked : List Problem

instance {ω : Type} [Optimizer ω] : Optimizer (Watched ω) where
  name w := Optimizer.name w.inner
  kinds w := Optimizer.kinds w.inner
  solve w p :=
    ((Optimizer.solve w.inner p).1, ⟨(Optimizer.solve w.inner p).2, w.asked ++ [p]⟩)

namespace Bench

variable {ω : Type} [Optimizer ω] {b : Bench} {name : String}

/-- The problem that a name stands for, if it can be loaded. -/
def problem? (b : Bench) (name : String) : Option Problem :=
  (b.instanceNamed name).toOption.map BenchInstance.problem

def loads (b : Bench) (name : String) : Bool :=
  (b.problem? name).isSome

/-- What a run makes of one name, and where it leaves an optimizer that was in state `o`. -/
inductive Scored (b : Bench) (name : String) (o : ω) : Score Float → ω → Prop
  | unloaded {cause : Failure} :
      b.instanceNamed name = .error cause →
      Scored b name o (.unloaded name cause.message) o
  | solved {i : BenchInstance} {entry : CatalogEntry} {optimum : Float} {answer : Answer} {o' : ω} :
      b.instanceNamed name = .ok i →
      Catalog.find? name = some entry →
      entry.optimum = some optimum →
      Optimizer.solve o i.problem = (answer, o') →
      Scored b name o
        { name
          size := entry.size
          status := answer.status
          objective := answer.objective
          optimum := some optimum
          gap := answer.gapTo? optimum
          improvement := answer.improvement
          message := answer.error? } o'

theorem exists_optimum {entry : CatalogEntry} (h : entry ∈ Catalog.entries) :
    ∃ optimum, entry.optimum = some optimum := by
  have hall : ∀ optimum ∈ Catalog.entries.map CatalogEntry.optimum, optimum.isSome = true := by
    decide
  exact Option.isSome_iff_exists.mp (hall _ (List.mem_map_of_mem h))

/-! ## One name -/

theorem score_of_error {cause : Failure} (h : b.instanceNamed name = .error cause) (o : ω) :
    b.score o name = (.unloaded name cause.message, o) := by
  rw [score, h]

theorem score_of_ok {i : BenchInstance} (h : b.instanceNamed name = .ok i) (o : ω) :
    b.score o name =
      (scoreOf i (Optimizer.solve o i.problem).1, (Optimizer.solve o i.problem).2) := by
  rw [score, h]

theorem problem?_of_error {cause : Failure} (h : b.instanceNamed name = .error cause) :
    b.problem? name = none := by
  rw [problem?, h]
  rfl

theorem problem?_of_ok {i : BenchInstance} (h : b.instanceNamed name = .ok i) :
    b.problem? name = some i.problem := by
  rw [problem?, h]
  rfl

theorem scored_score (b : Bench) (o : ω) (name : String) :
    Scored b name o (b.score o name).1 (b.score o name).2 := by
  cases h : b.instanceNamed name with
  | error cause =>
      rw [score_of_error h]
      exact .unloaded h
  | ok i =>
      obtain ⟨entry, hfind, rfl, hready⟩ := exists_ready h
      obtain ⟨optimum, hoptimum⟩ := exists_optimum (Catalog.mem_of_find? hfind)
      have hscore : ∀ answer : Answer, scoreOf i answer =
          { name := entry.name
            size := entry.size
            status := answer.status
            objective := answer.objective
            optimum := some optimum
            gap := answer.gapTo? optimum
            improvement := answer.improvement
            message := answer.error? } := by
        intro answer
        simp only [scoreOf, hready.name_eq, hready.size_eq, hready.optimum_eq, hoptimum]
        rfl
      rw [score_of_ok h, hscore]
      exact .solved h hfind hoptimum rfl

theorem Scored.name_eq {o o' : ω} {score : Score Float} (h : Scored b name o score o') :
    score.name = name := by
  cases h with
  | unloaded => rfl
  | solved => rfl

/-- A name that cannot be loaded does not reach the optimizer. -/
theorem score_snd_of_not_loads (h : b.loads name = false) (o : ω) : (b.score o name).2 = o := by
  cases hname : b.instanceNamed name with
  | error cause => rw [score_of_error hname]
  | ok i => simp [loads, problem?_of_ok hname] at h

theorem score_watched (b : Bench) (o : ω) (asked : List Problem) (name : String) :
    b.score (Watched.mk o asked) name =
      ((b.score o name).1, ⟨(b.score o name).2, asked ++ (b.problem? name).toList⟩) := by
  cases h : b.instanceNamed name with
  | error cause => simp [score_of_error h, problem?_of_error h]
  | ok i =>
      simp only [score_of_ok h, problem?_of_ok h]
      rfl

/-! ## Runs -/

theorem scores_append (b : Bench) (o : ω) (xs ys : List String) :
    b.scores o (xs ++ ys) =
      ((b.scores o xs).1 ++ (b.scores (b.scores o xs).2 ys).1,
        (b.scores (b.scores o xs).2 ys).2) := by
  induction xs generalizing o with
  | nil => rfl
  | cons name xs ih => simp only [List.cons_append, scores, ih]

theorem names_scores (b : Bench) (o : ω) (names : List String) :
    (b.scores o names).1.map Score.name = names := by
  induction names generalizing o with
  | nil => rfl
  | cons name names ih =>
      simp only [scores, List.map_cons, ih]
      rw [(scored_score b o name).name_eq]

theorem length_scores (b : Bench) (o : ω) (names : List String) :
    (b.scores o names).1.length = names.length := by
  rw [← List.length_map Score.name, names_scores]

/-- Leaving out what cannot be loaded leaves out its scores, and changes nothing else. -/
theorem scores_filter_loads (b : Bench) (o : ω) (names : List String) :
    b.scores o (names.filter b.loads) =
      ((b.scores o names).1.filter (fun score => b.loads score.name), (b.scores o names).2) := by
  induction names generalizing o with
  | nil => rfl
  | cons name names ih =>
      have hname := (scored_score b o name).name_eq
      by_cases h : b.loads name = true
      · rw [List.filter_cons_of_pos h]
        simp only [scores, ih]
        rw [List.filter_cons_of_pos (by rw [hname, h])]
      · rw [List.filter_cons_of_neg h]
        simp only [scores, ih]
        rw [List.filter_cons_of_neg (by rwa [hname]),
          score_snd_of_not_loads (Bool.eq_false_of_not_eq_true h)]

/-- Being watched changes no answer, and what is written down are the problems of the names that can be
loaded. -/
theorem scores_watched (b : Bench) (o : ω) (asked : List Problem) (names : List String) :
    b.scores (Watched.mk o asked) names =
      ((b.scores o names).1, ⟨(b.scores o names).2, asked ++ names.filterMap b.problem?⟩) := by
  induction names generalizing o asked with
  | nil => simp [scores]
  | cons name names ih =>
      simp only [scores, score_watched, ih]
      cases h : b.problem? name <;> simp [h]

/-- A run over two lists is a run over the first, and then a run over the second from where it left the
optimizer. There is one score for each name, in order, and it is what the name comes to in the state
that the names before it have left. Names that cannot be loaded can be left out: all other scores and
the state in the end stay the same, and the optimizer is asked for the problems of the others, each
once and in order. The summary counts every name, as usable or as failed. -/
theorem run_decomposes (b : Bench) (o : ω) (xs ys : List String) :
    ((b.run o (xs ++ ys)).1.scores =
        (b.run o xs).1.scores ++ (b.run (b.run o xs).2 ys).1.scores ∧
      (b.run o (xs ++ ys)).2 = (b.run (b.run o xs).2 ys).2) ∧
    ((b.run o xs).1.scores.map Score.name = xs ∧
      ∀ front name back, xs = front ++ name :: back → ∃ score,
        (b.run o xs).1.scores[front.length]? = some score ∧
        Scored b name (b.run o front).2 score (b.run o (front ++ [name])).2) ∧
    ((b.run o (xs.filter b.loads)).1.scores =
        (b.run o xs).1.scores.filter (fun score => b.loads score.name) ∧
      (b.run o (xs.filter b.loads)).2 = (b.run o xs).2) ∧
    ((b.run (Watched.mk o []) xs).1.scores = (b.run o xs).1.scores ∧
      (b.run (Watched.mk o []) xs).2 = ⟨(b.run o xs).2, xs.filterMap b.problem?⟩) ∧
    (b.run o xs).1.summary.total = xs.length ∧
    (b.run o xs).1.summary.total =
      (b.run o xs).1.summary.succeeded + (b.run o xs).1.summary.failed ∧
    (b.run o xs).1.summary.succeeded =
      ((b.run o xs).1.scores.filter fun score => score.status.isUsable).length := by
  have hscores : ∀ {ω : Type} [Optimizer ω] (o : ω) (names : List String),
      (b.run o names).1.scores = (b.scores o names).1 := fun _ _ => rfl
  have hlast : ∀ {ω : Type} [Optimizer ω] (o : ω) (names : List String),
      (b.run o names).2 = (b.scores o names).2 := fun _ _ => rfl
  simp only [hscores, hlast]
  refine ⟨?_, ⟨names_scores b o xs, ?_⟩, ?_, ?_, length_scores b o xs, ?_, rfl⟩
  · rw [scores_append]
    exact ⟨rfl, rfl⟩
  · rintro front name back rfl
    refine ⟨(b.score (b.scores o front).2 name).1, ?_, ?_⟩
    · rw [scores_append, List.getElem?_append_right (by rw [length_scores]), length_scores,
        Nat.sub_self]
      rfl
    · rw [scores_append]
      exact scored_score b (b.scores o front).2 name
  · rw [scores_filter_loads]
    exact ⟨rfl, rfl⟩
  · rw [scores_watched]
    exact ⟨rfl, rfl⟩
  · exact (Nat.add_sub_of_le (List.length_filter_le _ (b.scores o xs).1)).symm

end Bench

end Placement
