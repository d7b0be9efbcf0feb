import Placement.Proofs.Arrangement
import Placement.Proofs.FloatOrder
import Placement.Proofs.ParameterGates
import Placement.Random.KeyStream
import Placement.Search.Genetic

/-!
# What a genetic search remembers

Generations are thrown away; of those that are gone a search keeps one assignment and its cost. What
these two say about everyone evaluated so far is `Keeps`: no one has a lower objective, and either no
one was ever better than nothing, or the best is the first in the order of evaluation with its
objective. Taking one more individual into account keeps this, by one case for an individual that is
strictly better and one for all others; infinite objectives and those that are not numbers fall under
the second.

That a search runs through at all is carried by the arrangements: all members of a generation are
arrangements, so all of them can be evaluated, and so are all their children.
-/

namespace Placement

namespace Genetic

open Draw

/-! ## The first of the best -/

/-- `best` is the first of those in `seen` with its objective, and none before it has a lower one. -/
def Foremost (t : Instance Float) (seen : List (Array Nat)) (best : Array Nat) : Prop :=
  ∃ front back, seen = front ++ best :: back ∧
    ∀ q ∈ front, ¬t.objective q ≤ t.objective best

/-- What the best assignment and its cost say of all that were evaluated: before the first with an
objective below infinity they are what the search began with. -/
structure Keeps (t : Instance Float) (first : Array Nat) (seen : List (Array Nat))
    (best : Array Nat × Float) : Prop where
  unbeaten : ∀ q ∈ seen, ¬t.objective q < best.2
  origin : best = (first, unevaluated) ∨
    Foremost t seen best.1 ∧ best.2 = t.objective best.1 ∧ best.2 < unevaluated

variable {t : Instance Float} {first : Array Nat} {seen : List (Array Nat)}
  {best : Array Nat × Float}

theorem keeps_start : Keeps t first [] (first, unevaluated) :=
  ⟨fun _ hq => absurd hq List.not_mem_nil, Or.inl rfl⟩

/-- One more individual takes over only if it is strictly better. -/
theorem Keeps.better (h : Keeps t first seen best) (q : Array Nat) :
    Keeps t first (seen ++ [q]) (better best (q, t.objective q)) := by
  by_cases hlt : t.objective q < best.2
  · rw [Genetic.better, if_pos hlt]
    -- whoever came before and is as good as `q` would have beaten the best so far
    have hnone : ∀ q' ∈ seen, ¬t.objective q' ≤ t.objective q := fun q' hq' hle =>
      h.unbeaten q' hq' (FloatOrder.lt_of_le_of_lt hle hlt)
    refine ⟨fun q' hq' => ?_, Or.inr ⟨⟨seen, [], rfl, hnone⟩, rfl, ?_⟩⟩
    · rcases List.mem_append.mp hq' with hq' | hq'
      · exact fun hlt' => hnone q' hq' (FloatOrder.le_of_lt hlt')
      · rw [List.mem_singleton.mp hq']
        exact FloatOrder.lt_irrefl _
    · exact FloatOrder.lt_infinity_of_lt hlt
  · rw [Genetic.better, if_neg hlt]
    refine ⟨fun q' hq' => ?_, ?_⟩
    · rcases List.mem_append.mp hq' with hq' | hq'
      · exact h.unbeaten q' hq'
      · rw [List.mem_singleton.mp hq']
        exact hlt
    · rcases h.origin with hfirst | ⟨⟨front, back, rfl, hfront⟩, hcost⟩
      · exact Or.inl hfirst
      · refine Or.inr ⟨⟨front, back ++ [q], ?_, hfront⟩, hcost⟩
        rw [List.append_assoc, List.cons_append]

theorem Keeps.foldl (h : Keeps t first seen best) (qs : List (Array Nat)) :
    Keeps t first (seen ++ qs)
      ((qs.map fun q => (q, t.objective q)).foldl Genetic.better best) := by
  induction qs generalizing seen best with
  | nil =>
      rw [List.append_nil]
      exact h
  | cons q qs ih =>
      have hq := ih (h.better q)
      rw [List.append_assoc] at hq
      exact hq

/-- Whoever is evaluated anew at the end, no one has a lower objective. -/
theorem Keeps.not_lt (h : Keeps t first seen best) {q : Array Nat} (hq : q ∈ seen) :
    ¬t.objective q < t.objective best.1 := by
  intro hlt
  rcases h.origin with hfirst | ⟨-, hcost, -⟩
  · refine h.unbeaten q hq ?_
    rw [hfirst]
    exact FloatOrder.lt_infinity_of_lt hlt
  · refine h.unbeaten q hq ?_
    rw [hcost]
    exact hlt

/-- Where someone has a finite objective and the one the search began with was evaluated too, the
best is the first of its kind. -/
theorem Keeps.foremost (h : Keeps t first seen best) (hfirst : first ∈ seen)
    (hfinite : (t.objective best.1).isFinite = true) : Foremost t seen best.1 := by
  rcases h.origin with rfl | ⟨hbest, -⟩
  · exact absurd (FloatOrder.lt_infinity_of_isFinite hfinite) (h.unbeaten first hfirst)
  · exact hbest

/-- A cost that is finite is the objective of the best. -/
theorem Keeps.cost_eq (h : Keeps t first seen best) (hfinite : best.2.isFinite = true) :
    best.2 = t.objective best.1 := by
  rcases h.origin with rfl | ⟨-, hcost, -⟩
  · have hinfinite : unevaluated.isFinite = false := by decide
    exact absurd (hinfinite.symm.trans hfinite) Bool.false_ne_true
  · exact hcost

/-- The best is one of those evaluated, or the one the search began with. -/
theorem Keeps.arranges (h : Keeps t first seen best) (hfirst : Arranges first t.side)
    (hseen : ∀ q ∈ seen, Arranges q t.side) : Arranges best.1 t.side := by
  rcases h.origin with rfl | ⟨⟨front, back, rfl, -⟩, -⟩
  · exact hfirst
  · exact hseen best.1 (List.mem_append_right front List.mem_cons_self)

/-! ## From one generation to the next -/

variable {size : Nat}

theorem mapM_objective?_eq {qs : List (Array Nat)} (h : ∀ q ∈ qs, Arranges q t.side) :
    qs.mapM t.objective? = .ok (qs.map t.objective) := by
  induction qs with
  | nil => rfl
  | cons q qs ih =>
      rw [List.mapM_cons, Instance.objective?_eq (h q List.mem_cons_self),
        ih fun q' hq' => h q' (List.mem_cons_of_mem q hq')]
      rfl

/-- A generation of arrangements can be evaluated. -/
theorem evaluate_eq {population : Vector (Array Nat) size}
    (h : ∀ q ∈ population, Arranges q t.side) :
    evaluate t population = .ok (population.map t.objective) := by
  have hlist : population.toArray.toList.mapM t.objective? =
      .ok (population.toArray.toList.map t.objective) :=
    mapM_objective?_eq fun q hq => h q (Vector.mem_toList_iff.mp hq)
  apply Vector.map_toArray_inj.mp
  rw [evaluate, Vector.toArray_mapM, Array.mapM_eq_mapM_toList, hlist]
  show Except.ok _ = Except.ok _
  rw [Vector.toArray_map, ← Array.toList_map]

theorem foldl_better_eq (population : Vector (Array Nat) size) (best : Array Nat × Float) :
    (population.zip (population.map t.objective)).foldl Genetic.better best =
      (population.toList.map fun q => (q, t.objective q)).foldl Genetic.better best := by
  have hzip := List.zip_map' (f := id) (g := t.objective) (l := population.toList)
  rw [List.map_id] at hzip
  rw [← Vector.foldl_toList, Vector.toList_zip, Vector.toList_map, hzip]
  rfl

/-- What a generation is to the one it came from: arrangements again, counted, and the best of the two
taken over. -/
structure Succeeds (t : Instance Float) (b b' : Brood size) : Prop where
  arranged : ∀ q ∈ b'.population, Arranges q t.side
  best_eq : (b'.best, b'.bestCost) =
    (b.population.toList.map fun q => (q, t.objective q)).foldl Genetic.better (b.best, b.bestCost)
  evaluations_eq : b'.evaluations = b.evaluations + size
  completed_eq : b'.completed = b.completed + 1

variable {σ : Type}

/-- Everyone evaluated before the end of a course of generations, in order. -/
def evaluated (past : List (Brood size × σ)) : List (Array Nat) :=
  past.flatMap fun u => u.1.population.toList

/-- What a search knows after the generations `past`, at `c`. -/
structure Remembers (t : Instance Float) (b : Brood size × σ) (past : List (Brood size × σ))
    (c : Brood size × σ) : Prop where
  arranged : ∀ u ∈ past ++ [c], ∀ q ∈ u.1.population, Arranges q t.side
  keeps : Keeps t b.1.best (evaluated past) (c.1.best, c.1.bestCost)
  evaluations_eq : c.1.evaluations = past.length * size
  completed_eq : c.1.completed = past.length

theorem Remembers.step {b c d : Brood size × σ} {past : List (Brood size × σ)}
    (h : Remembers t b past c) (hs : Succeeds t c.1 d.1) : Remembers t b (past ++ [c]) d where
  arranged u hu := by
    rcases List.mem_append.mp hu with hu | hu
    · exact h.arranged u hu
    · rw [List.mem_singleton.mp hu]
      exact hs.arranged
  keeps := by
    have hseen : evaluated (past ++ [c]) = evaluated past ++ c.1.population.toList := by
      rw [evaluated, List.flatMap_append, List.flatMap_singleton]
      rfl
    rw [hseen, hs.best_eq]
    exact h.keeps.foldl c.1.population.toList
  evaluations_eq := by
    rw [hs.evaluations_eq, h.evaluations_eq, List.length_append, List.length_singleton,
      Nat.add_mul, Nat.one_mul]
  completed_eq := by
    rw [hs.completed_eq, h.completed_eq, List.length_append, List.length_singleton]

theorem Remembers.best_arranges {b c : Brood size × σ} {past : List (Brood size × σ)}
    (h : Remembers t b past c) (hfirst : Arranges b.1.best t.side) :
    Arranges c.1.best t.side := by
  refine h.keeps.arranges hfirst fun q hq => ?_
  obtain ⟨u, hu, hmem⟩ := List.mem_flatMap.mp hq
  exact h.arranged u (List.mem_append_left [c] hu) q (Vector.mem_toList_iff.mp hmem)

/-- The generation that a search begins with, none of which was evaluated. -/
def founders (population : Vector (Array Nat) size) (hsize : 0 < size) : Brood size :=
  { population, best := population[0], bestCost := unevaluated, evaluations := 0, completed := 0 }

theorem remembers_founders {population : Vector (Array Nat) size} (hsize : 0 < size)
    (h : ∀ q ∈ population, Arranges q t.side) (s : σ) :
    Remembers t (founders population hsize, s) [] (founders population hsize, s) where
  arranged u hu := by
    rw [List.nil_append] at hu
    rw [List.mem_singleton.mp hu]
    exact h
  keeps := keeps_start
  evaluations_eq := (Nat.zero_mul size).symm
  completed_eq := rfl

/-- A search ends early at nothing but its deadline. -/
def halt? (deadline : Deadline) (b : Brood size) : Option Bool :=
  if deadline.expired b.completed then some true else none

theorem halt?_eq_none {deadline : Deadline} {b : Brood size} (h : halt? deadline b = none) :
    deadline.expired b.completed = false := by
  unfold halt? at h
  split at h
  · cases h
  · next hnot => exact Bool.eq_false_of_not_eq_true hnot

theorem halt?_eq_some {deadline : Deadline} {b : Brood size} {flag : Bool}
    (h : halt? deadline b = some flag) : deadline.expired b.completed = true := by
  unfold halt? at h
  split at h
  · assumption
  · cases h

/-- What is handed back after a search. -/
def finding (t : Instance Float) (b : Brood size) (timedOut : Bool) : Finding Float :=
  { best := b.best
    objective := if b.bestCost.isFinite then b.bestCost else t.objective b.best
    iterations := b.completed
    timedOut
    annotations :=
      ((∅ : Annotations).insert "population_size" (.ofNat size)
        |>.insert "generations" (.ofNat b.completed)
        |>.insert "evaluations"
          (.ofNat (b.evaluations + if b.bestCost.isFinite then 0 else 1))) }

/-- The objective handed back is that of the assignment handed back, also where it was remembered. -/
theorem finding_objective {b c : Brood size × σ} {past : List (Brood size × σ)}
    (h : Remembers t b past c) (timedOut : Bool) :
    (finding t c.1 timedOut).objective = t.objective c.1.best := by
  rw [finding]
  by_cases hfinite : c.1.bestCost.isFinite = true
  · rw [if_pos hfinite]
    exact h.keeps.cost_eq hfinite
  · rw [if_neg hfinite]

/-! ## Drawing a generation -/

variable [RandomSource σ]

theorem ensures_challenge {n : Nat} (hn : 0 < n) (c : Tournament) (fitness : Vector Float n)
    (contestants : Nat) (champion : Fin n) :
    Ensures (c.challenge fitness contestants champion : Draw σ (Fin n)) fun _ => True := by
  induction contestants generalizing champion with
  | zero => exact ensures_pure trivial
  | succ contestants ih =>
      exact (ensures_index hn).bind fun _ _ => ih _

/-- As long as anyone takes part, a tournament has a winner. -/
theorem ensures_tournament {n : Nat} (hn : 0 < n) (c : Tournament) (fitness : Vector Float n) :
    Ensures (c.run fitness : Draw σ (Fin n)) fun _ => True := by
  rw [Tournament.run, if_neg hn.ne']
  exact (ensures_index hn).bind fun champion _ =>
    ensures_challenge hn c fitness (c.size - 1) champion

theorem ensures_child (g : Genetic) (hsize : 0 < size) {population : Vector (Array Nat) size}
    (h : ∀ q ∈ population, Arranges q t.side) (objectives : Vector Float size) :
    Ensures (g.child population objectives : Draw σ (Array Nat)) (Arranges · t.side) := by
  refine (ensures_tournament hsize g.tournament objectives).bind fun a _ => ?_
  refine (ensures_tournament hsize g.tournament objectives).bind fun b _ => ?_
  have ha : Arranges (population.get a) t.side := h _ (Vector.getElem_mem a.isLt)
  have hb : Arranges (population.get b) t.side := h _ (Vector.getElem_mem b.isLt)
  refine (Crossover.ensures_random ha hb).bind fun c hc => ?_
  refine (ensures_lift (P := fun _ => True) fun _ => trivial).bind fun draw _ => ?_
  split
  · exact ensures_swapMutation hc
  · exact ensures_pure hc

theorem ensures_generation (g : Genetic) (hsize : 0 < size) {b : Brood size}
    (h : ∀ q ∈ b.population, Arranges q t.side) :
    Ensures (g.generation t b : Draw σ (Brood size)) (Succeeds t b) := by
  refine (ensures_checked (P := fun objectives => objectives = b.population.map t.objective)
    (evaluate_eq h) rfl).bind ?_
  rintro objectives rfl
  rw [foldl_better_eq]
  refine ((ensures_child g hsize h _).times size).bind fun population hpopulation => ?_
  exact ensures_pure ⟨hpopulation, rfl, rfl, rfl⟩

/-! ## Whole searches -/

theorem breed_loop (g : Genetic) (t : Instance Float) (deadline : Deadline) :
    Loop (g.generation t : Brood size → Draw σ (Brood size)) (halt? deadline)
      (g.breed t deadline) where
  zero b := rfl
  succ n b := by
    rw [breed, halt?]
    split
    · rfl
    · rfl

theorem remembers_of_passes (g : Genetic) (hsize : 0 < size) {b c : Brood size × σ}
    {past : List (Brood size × σ)} (hp : Passes (g.generation t) b past c)
    (hb : Remembers t b [] b) : Remembers t b past c := by
  refine hp.history hb ?_
  rintro past c d - hc hy
  have hpopulation := hc.arranged c (List.mem_append_right past (List.mem_singleton.mpr rfl))
  exact hc.step ((ensures_generation g hsize hpopulation).of_yields hy)

/-- Every search draws a generation of arrangements, breeds on from it to an end, and hands back the
best of all generations, which is an arrangement too. -/
theorem exists_ran (g : Genetic) (t : Instance Float) (deadline : Deadline) (s : σ) :
    ∃ (population : Vector (Array Nat) (g.populationSize t.side))
      (hsize : 0 < g.populationSize t.side) (s₀ : σ) (past : List (Brood _ × σ))
      (last : Brood _ × σ) (timedOut : Bool),
      Yields (times (liftM (Random.permutation t.side : StateM σ (Array Nat))) _) s population s₀ ∧
      Ran (g.generation t) (halt? deadline) (max (g.maxIterations / g.populationSize t.side) 1)
        (founders population hsize, s₀) past last timedOut ∧
      (∀ {front u}, Passes (g.generation t) (founders population hsize, s₀) front u →
        Remembers t (founders population hsize, s₀) front u) ∧
      Arranges last.1.best t.side ∧
      Yields (g.run t deadline) s (finding t last.1 timedOut) last.2 := by
  have hsize : 0 < g.populationSize t.side :=
    Nat.lt_of_lt_of_le Nat.two_pos (g.two_le_populationSize t.side)
  obtain ⟨population, s₀, hdraw, hpopulation⟩ :=
    (ensures_permutation (σ := σ) t.side).times (g.populationSize t.side) s
  obtain ⟨past, last, timedOut, hbreed, hran, -⟩ := (breed_loop g t deadline).ran
    (I := fun b => ∀ q ∈ b.population, Arranges q t.side)
    (fun _ hb => (ensures_generation g hsize hb).mono fun _ hs => hs.arranged)
    (max (g.maxIterations / g.populationSize t.side) 1) (founders population hsize, s₀) hpopulation
  have hall : ∀ {front u}, Passes (g.generation t) (founders population hsize, s₀) front u →
      Remembers t (founders population hsize, s₀) front u := fun hp =>
    remembers_of_passes g hsize hp (remembers_founders hsize hpopulation s₀)
  have hbest := (hall hran.passes).best_arranges (hpopulation _ (Vector.getElem_mem hsize))
  refine ⟨population, hsize, s₀, past, last, timedOut, hdraw, hran, hall, hbest, ?_⟩
  have hgenerations : g.generations (g.populationSize t.side) =
      .ok (max (g.maxIterations / g.populationSize t.side) 1) := by
    rw [generations, if_neg hsize.ne']
  refine (yields_checked.mpr ⟨hgenerations, rfl⟩).bind (hdraw.bind (hbreed.bind ?_))
  rw [finding]
  by_cases hfinite : last.1.bestCost.isFinite = true
  · simp only [if_pos hfinite]
    exact yields_pure.mpr ⟨rfl, rfl⟩
  · simp only [if_neg hfinite]
    exact (yields_checked.mpr ⟨Instance.objective?_eq hbest, rfl⟩).bind rfl

/-- Up to the bound that was set, a generation has twice as many members as there are slots. -/
theorem populationSize_eq {g : Genetic} {n : Nat} (hp : 2 ≤ g.maxPopulation) (hn : 0 < n) :
    g.populationSize n = min g.maxPopulation (2 * n) := by
  unfold populationSize
  omega

/-- Every search that admitted parameters describe comes to an end on an instance with a slot,
whatever is drawn and whenever the deadline cuts in. All its generations are as large as they should
be and consist of arrangements, and there are as many as the budget gives, if no reading of the
deadline cuts them short. What it hands back is an arrangement with its objective, which no one
evaluated undercuts; if it is finite and someone was evaluated, it is the first that attains it. -/
theorem run_finds_foremost {m p k : Nat} {r : Float} {g : Genetic}
    (hg : ofParameters m p r k = .ok g) {t : Instance Float} (ht : 0 < t.side)
    (deadline : Deadline) (s : σ) :
    ∃ (size : Nat) (population : Vector (Array Nat) size) (hsize : 0 < size) (s₀ : σ)
      (past : List (Brood size × σ)) (last : Brood size × σ) (found : Finding Float),
      size = min p (2 * t.side) ∧
      Yields (times (liftM (Random.permutation t.side : StateM σ (Array Nat))) size)
        s population s₀ ∧
      Ran (g.generation t) (halt? deadline) (max 1 (m / size))
        (founders population hsize, s₀) past last found.timedOut ∧
      Yields (g.run t deadline) s found last.2 ∧
      (∀ u ∈ past ++ [last], u.1.population.toList.length = size ∧
        ∀ q ∈ u.1.population, Arranges q t.side) ∧
      found.iterations = past.length ∧
      ((∀ i < max 1 (m / size), deadline.expired i = false) →
        found.iterations = max 1 (m / size)) ∧
      (deadline.expired 0 = true → found.iterations = 0) ∧
      Arranges found.best t.side ∧ found.objective = t.objective found.best ∧
      (∀ q ∈ evaluated past, ¬t.objective q < found.objective) ∧
      (found.objective.isFinite = true → 0 < found.iterations →
        Foremost t (evaluated past) found.best) ∧
      found.annotations["evaluations"]? =
        some (.ofNat (found.iterations * size + if last.1.bestCost.isFinite then 0 else 1)) := by
  obtain ⟨-, hp, -, -, rfl⟩ := ofParameters_eq_ok.mp hg
  obtain ⟨population, hsize, s₀, past, last, timedOut, hdraw, hran, hall, hbest, hrun⟩ :=
    exists_ran ⟨m, p, r, ⟨k, false⟩⟩ t deadline s
  have hlast := hall hran.passes
  have hobjective := finding_objective hlast timedOut
  have hhead := hran.passes.head?_eq
  rw [Nat.max_comm] at hran
  refine ⟨_, population, hsize, s₀, past, last, finding t last.1 timedOut,
    populationSize_eq hp ht, hdraw, hran, hrun, ?_, hlast.completed_eq, ?_, ?_, hbest,
    hobjective, ?_, ?_, ?_⟩
  · exact fun u hu => ⟨u.1.population.length_toList, hlast.arranged u hu⟩
  · intro hnever
    rcases hran.ended with ⟨hlt, hstop⟩ | ⟨hlen, -⟩
    · have hexpired := hlast.completed_eq ▸ halt?_eq_some hstop
      exact absurd (hexpired.symm.trans (hnever past.length hlt)) Bool.noConfusion
    · exact hlast.completed_eq.trans hlen
  · intro hat
    cases past with
    | nil => exact hlast.completed_eq
    | cons u rest =>
        cases hhead
        have hgo := halt?_eq_none (hran.going _ List.mem_cons_self)
        exact absurd (hat.symm.trans hgo) Bool.noConfusion
  · intro q hq
    rw [hobjective]
    exact hlast.keeps.not_lt hq
  · intro hfinite hpos
    rw [hobjective] at hfinite
    cases past with
    | nil => exact absurd (hpos.trans_eq hlast.completed_eq) (Nat.lt_irrefl 0)
    | cons u rest =>
        cases hhead
        refine hlast.keeps.foremost ?_ hfinite
        exact List.mem_append_left _ (Vector.mem_toList_iff.mpr (Vector.getElem_mem hsize))
  · rw [finding, Std.ExtTreeMap.getElem?_insert_self, hlast.evaluations_eq, hlast.completed_eq]

/-- Two slots, one unit of distance apart, and three units of flow between their units. -/
def twoSlots : Instance Float :=
  { side := 2
    distance := ⟨2, 2, #[0, 1, 1, 0], rfl⟩
    flow := ⟨2, 2, #[0, 3, 3, 0], rfl⟩
    dim_distance := rfl
    dim_flow := rfl }

theorem run_finds_foremost_two_slots :
    ∃ g found s', ofParameters 10 9 0.5 2 = .ok g ∧ 0 < twoSlots.side ∧
      Yields (g.run twoSlots .never) (RandomSource.ofSeed 7 : KeyStream) found s' ∧
      found.iterations = 2 ∧ Arranges found.best 2 := by
  have hg : ofParameters 10 9 0.5 2 = .ok ⟨10, 9, 0.5, ⟨2, false⟩⟩ :=
    ofParameters_eq_ok.mpr ⟨by decide, by decide, by decide, by decide, rfl⟩
  have ht : 0 < twoSlots.side := by decide
  obtain ⟨size, -, -, -, -, last, found, rfl, -, -, hrun, -, -, hall, -, hbest, -⟩ :=
    run_finds_foremost hg ht .never (RandomSource.ofSeed 7 : KeyStream)
  exact ⟨_, found, last.2, hg, ht, hrun, hall fun _ _ => rfl, hbest⟩

end Genetic

end Placement
