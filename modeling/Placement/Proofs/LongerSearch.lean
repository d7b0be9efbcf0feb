import Mathlib.Algebra.Order.Ring.Int
import Mathlib.Data.List.Permutation
import Placement.Proofs.Cooling

/-!
# Longer searches

A search draws the same words whatever its budget is, so with a larger budget it passes the same states
first and then goes on (`Ran.rest`). On the way the best so far is only ever replaced by something with
a strictly lower cost (`KeptOrBeaten`). So a longer search ends with a strictly lower cost, or with the
very assignment that the shorter one found.

For a walk this is about costs in exact arithmetic, where the cost it carries is the objective that it
reports. A genetic search carries objectives as they are; there the two agree as soon as all objectives
are finite.
-/

namespace Placement

open Draw

/-- The best so far and its cost stayed as they were, or the cost became strictly lower. -/
def KeptOrBeaten {α : Type} [LT α] (old new : Array Nat × α) : Prop :=
  new.2 < old.2 ∨ new = old

namespace KeptOrBeaten

variable {α : Type} [LT α]

theorem refl (best : Array Nat × α) : KeptOrBeaten best best :=
  Or.inr rfl

theorem trans [IsTrans α (· < ·)] {a b c : Array Nat × α} (h : KeptOrBeaten a b)
    (h' : KeptOrBeaten b c) : KeptOrBeaten a c := by
  rcases h' with hlt' | rfl
  · rcases h with hlt | rfl
    · exact Or.inl (IsTrans.trans _ _ _ hlt' hlt)
    · exact Or.inl hlt'
  · exact h

/-- What every step of a run keeps or beats is kept or beaten by the whole run. -/
theorem of_passes [IsTrans α (· < ·)] {σ β : Type} {f : β → Draw σ β} (best : β → Array Nat × α)
    (hstep : ∀ {x y : β} {s s' : σ}, Yields (f x) s y s' → KeptOrBeaten (best x) (best y))
    {b c : β × σ} {past : List (β × σ)} (hp : Passes f b past c) :
    KeptOrBeaten (best b.1) (best c.1) := by
  refine hp.history (I := fun _ c => KeptOrBeaten (best b.1) (best c.1)) (refl _) ?_
  intro past c d _ hc hy
  exact hc.trans (hstep hy)

end KeptOrBeaten

/-! ## Walks -/

namespace Annealing

variable {σ α : Type} [RandomSource σ] [CommRing α] [LinearOrder α]
variable {t : Instance α} {rule : α → Float → Float → Bool}

theorem keptOrBeaten_step {rate : Float} {w v : Walk α} {s s' : σ}
    (h : Yields (step t rule rate w) s v s') :
    KeptOrBeaten (w.best, w.bestCost) (v.best, v.bestCost) := by
  obtain ⟨r, k, s₁, accept, -, -, -, rfl⟩ := yields_step.mp h
  cases accept with
  | false => exact KeptOrBeaten.refl _
  | true =>
      by_cases hbetter : w.cost + t.swapDelta w.current r k < w.bestCost
      · left
        show (if _ then _ else _) < w.bestCost
        rw [if_pos hbetter]
        exact hbetter
      · right
        show (ite _ _ _, ite _ _ _) = _
        rw [if_neg hbetter, if_neg hbetter]

/-- The course of a run: from the assignment that it draws it passes the states `past`, ends at `last`,
and hands back `found`. -/
structure Course (a : Annealing) (t : Instance α) (rule : α → Float → Float → Bool)
    (deadline : Deadline) (s : σ) (past : List (Walk α × σ)) (last : Walk α × σ)
    (found : Finding α) : Prop where
  ran : ∃ p s₀, (Random.permutation t.side).run s = (p, s₀) ∧
    Ran (step t rule a.cooling) (halt? a.floor deadline) (a.budget t)
      (Walk.start p (t.objective p) a.temperature, s₀) past last found.timedOut
  found_eq : found = finding t last.1 found.timedOut
  yields : Yields (a.run t rule deadline) s found last.2

theorem exists_course (a : Annealing) (t : Instance α) (rule : α → Float → Float → Bool)
    (deadline : Deadline) (s : σ) : ∃ past last found, a.Course t rule deadline s past last found := by
  obtain ⟨p, s₀, past, last, timedOut, hdraw, hran, -, hrun⟩ := a.exists_ran t rule deadline s
  exact ⟨past, last, finding t last.1 timedOut, ⟨p, s₀, hdraw, hran⟩, rfl, hrun⟩

/-- In exact arithmetic the objective handed back is the cost that the walk kept. -/
theorem Course.objective_eq {a : Annealing} {deadline : Deadline} {s : σ}
    {past : List (Walk α × σ)} {last : Walk α × σ} {found : Finding α}
    (h : a.Course t rule deadline s past last found) : found.objective = last.1.bestCost := by
  obtain ⟨p, s₀, hdraw, hran⟩ := h.ran
  have hp : Arranges p t.side := by
    have hp := permutation_arranges t.side s
    rwa [hdraw] at hp
  have htracks := (tracks_of_passes hran.passes (tracks_start p a.temperature) ⟨hp, hp⟩).1
  rw [h.found_eq]
  exact htracks.bestCost_eq.symm

/-- A walk that does not fall below its floor takes all the steps of its budget. -/
theorem Course.length_of_warm {a : Annealing} {s : σ} {past : List (Walk α × σ)}
    {last : Walk α × σ} {found : Finding α} (h : a.Course t rule .never s past last found)
    (hwarm : ∀ k < a.budget t, a.floor ≤ cooled a.temperature a.cooling k) :
    past.length = a.budget t := by
  obtain ⟨p, s₀, -, hran⟩ := h.ran
  obtain ⟨hend, -⟩ := (isLeast_of_ran hran (counted_start p _) fun _ => rfl).1
  rcases hend with hspent | hcold
  · exact hspent
  · by_contra hne
    exact hcold (hwarm _ (lt_of_le_of_ne hran.length_le hne))

/-- A walk with more steps passes the states of the shorter one first, and is as good or better. -/
theorem Course.longer {a : Annealing} {m : Nat} (hm : a.maxIterations ≤ m) {deadline : Deadline}
    {s : σ} {past past' : List (Walk α × σ)} {last last' : Walk α × σ} {found found' : Finding α}
    (h : a.Course t rule deadline s past last found)
    (h' : Course { a with maxIterations := m } t rule deadline s past' last' found') :
    past ++ [last] <+: past' ++ [last'] ∧
      (found'.objective < found.objective ∨ found'.best = found.best) := by
  have hobjective := h.objective_eq
  have hobjective' := h'.objective_eq
  have hbest : found.best = last.1.best := congrArg Finding.best h.found_eq
  have hbest' : found'.best = last'.1.best := congrArg Finding.best h'.found_eq
  obtain ⟨p, s₀, hdraw, hran⟩ := h.ran
  obtain ⟨p', s₀', hdraw', hran'⟩ := h'.ran
  cases hdraw.symm.trans hdraw'
  have hbudget : a.budget t ≤ budget { a with maxIterations := m } t := by
    unfold budget
    split
    · exact hm
    · exact Nat.le_refl 0
  obtain ⟨more, rfl, hmore⟩ := hran.rest hran' hbudget
  refine ⟨hmore.isPrefix past, ?_⟩
  have hkept : KeptOrBeaten (last.1.best, last.1.bestCost) (last'.1.best, last'.1.bestCost) :=
    KeptOrBeaten.of_passes (fun w : Walk α => (w.best, w.bestCost)) keptOrBeaten_step hmore
  rw [hobjective, hobjective', hbest, hbest']
  rcases hkept with hlt | heq
  · exact Or.inl hlt
  · exact Or.inr (congrArg Prod.fst heq)

end Annealing

/-! ## Generations -/

/-- Strictly smaller than something smaller is smaller still. -/
instance isTrans_lt_float : IsTrans Float (· < ·) :=
  ⟨fun _ _ _ h h' => FloatOrder.lt_of_le_of_lt (FloatOrder.le_of_lt h) h'⟩

namespace Genetic

variable {σ : Type} {t : Instance Float} {size : Nat}

theorem keptOrBeaten_foldl (qs : List (Array Nat × Float)) (best : Array Nat × Float) :
    KeptOrBeaten best (qs.foldl better best) := by
  induction qs generalizing best with
  | nil => exact KeptOrBeaten.refl best
  | cons q qs ih =>
      have hbetter : KeptOrBeaten best (better best q) := by
        unfold better
        split
        · next hlt => exact Or.inl hlt
        · exact KeptOrBeaten.refl best
      exact hbetter.trans (ih (better best q))

variable [RandomSource σ]

/-- The course of a search: from the generation that it draws it passes the states `past`, ends at
`last`, and hands back `found`. -/
structure Course (g : Genetic) (t : Instance Float) (deadline : Deadline) (s : σ)
    (past : List (Brood size × σ)) (last : Brood size × σ) (found : Finding Float) : Prop where
  size_eq : size = g.populationSize t.side
  ran : ∃ population hsize s₀,
    Yields (times (liftM (Random.permutation t.side : StateM σ (Array Nat))) size)
      s population s₀ ∧
    Ran (g.generation t) (halt? deadline) (max (g.maxIterations / size) 1)
      (founders population hsize, s₀) past last found.timedOut
  found_eq : found = finding t last.1 found.timedOut
  yields : Yields (g.run t deadline) s found last.2

theorem exists_course (g : Genetic) (t : Instance Float) (deadline : Deadline) (s : σ) :
    ∃ (past : List (Brood (g.populationSize t.side) × σ)) (last : Brood _ × σ)
      (found : Finding Float), g.Course t deadline s past last found := by
  obtain ⟨population, hsize, s₀, past, last, timedOut, hdraw, hran, -, -, hrun⟩ :=
    g.exists_ran t deadline s
  exact ⟨past, last, finding t last.1 timedOut, rfl, ⟨population, hsize, s₀, hdraw, hran⟩, rfl, hrun⟩

theorem keptOrBeaten_generation {g : Genetic} {b c : Brood size} {s s' : σ}
    (h : Yields (g.generation t b) s c s') :
    KeptOrBeaten (b.best, b.bestCost) (c.best, c.bestCost) := by
  obtain ⟨objectives, s₁, -, h₁⟩ := yields_bind.mp h
  rcases hfold : (b.population.zip objectives).foldl better (b.best, b.bestCost) with
    ⟨best, bestCost⟩
  rw [hfold] at h₁
  obtain ⟨population, s₂, -, h₂⟩ := yields_bind.mp h₁
  obtain ⟨rfl, -⟩ := yields_pure.mp h₂
  have hkept := keptOrBeaten_foldl (b.population.zip objectives).toList (b.best, b.bestCost)
  rw [Vector.foldl_toList, hfold] at hkept
  exact hkept

/-- Without a deadline all generations of the budget are evaluated. -/
theorem Course.length_eq {g : Genetic} {s : σ} {past : List (Brood size × σ)}
    {last : Brood size × σ} {found : Finding Float} (h : g.Course t .never s past last found) :
    past.length = max (g.maxIterations / size) 1 := by
  obtain ⟨population, hsize, s₀, -, hran⟩ := h.ran
  rcases hran.ended with ⟨-, hstop⟩ | ⟨hlen, -⟩
  · cases hstop
  · exact hlen

/-- What a search knows at its end, with the founders that it began with. -/
theorem Course.remembers {g : Genetic} {deadline : Deadline} {s : σ}
    {past : List (Brood size × σ)} {last : Brood size × σ} {found : Finding Float}
    (h : g.Course t deadline s past last found) :
    ∃ population hsize s₀, (past ++ [last]).head? = some (founders population hsize, s₀) ∧
      Remembers t (founders population hsize, s₀) past last := by
  obtain ⟨population, hsize, s₀, hdraw, hran⟩ := h.ran
  have hpopulation : ∀ q ∈ population, Arranges q t.side :=
    ((ensures_permutation (σ := σ) t.side).times size).of_yields hdraw
  exact ⟨population, hsize, s₀, hran.passes.head?_eq,
    remembers_of_passes g hsize hran.passes (remembers_founders hsize hpopulation s₀)⟩

/-- Whatever a search evaluates is an arrangement. -/
theorem Course.arranges {g : Genetic} {deadline : Deadline} {s : σ}
    {past : List (Brood size × σ)} {last : Brood size × σ} {found : Finding Float}
    (h : g.Course t deadline s past last found) {q : Array Nat} (hq : q ∈ evaluated past) :
    Arranges q t.side := by
  obtain ⟨_, _, _, -, hlast⟩ := h.remembers
  obtain ⟨u, hu, hmem⟩ := List.mem_flatMap.mp hq
  exact hlast.arranged u (List.mem_append_left _ hu) q (Vector.mem_toList_iff.mp hmem)

/-- If all objectives are finite, the one handed back is the cost that the search kept: someone was
evaluated, and whoever comes first beats the cost that a search begins with. -/
theorem Course.objective_eq {g : Genetic} {s : σ} {past : List (Brood size × σ)}
    {last : Brood size × σ} {found : Finding Float} (h : g.Course t .never s past last found)
    (hfinite : ∀ q ∈ evaluated past, (t.objective q).isFinite = true) :
    found.objective = last.1.bestCost := by
  obtain ⟨population, hsize, s₀, hhead, hlast⟩ := h.remembers
  have hobjective : found.objective = t.objective last.1.best := by
    rw [h.found_eq]
    exact finding_objective hlast _
  have hfirst : population[0] ∈ evaluated past := by
    have hlen := h.length_eq
    cases past with
    | nil =>
        rw [List.length_nil] at hlen
        omega
    | cons u rest =>
        cases hhead
        exact List.mem_append_left _ (Vector.mem_toList_iff.mpr (Vector.getElem_mem hsize))
  rcases hlast.keeps.origin with horigin | ⟨-, hcost, -⟩
  · have hunbeaten := hlast.keeps.unbeaten population[0] hfirst
    rw [horigin] at hunbeaten
    exact absurd (FloatOrder.lt_infinity_of_isFinite (hfinite _ hfirst)) hunbeaten
  · rw [hobjective]
    exact hcost.symm

/-- A search with more generations passes the states of the shorter one first, and is as good or better
where all objectives are finite. -/
theorem Course.longer {g : Genetic} {m : Nat} (hm : g.maxIterations ≤ m) {s : σ}
    {past past' : List (Brood size × σ)} {last last' : Brood size × σ}
    {found found' : Finding Float} (h : g.Course t .never s past last found)
    (h' : Course { g with maxIterations := m } t .never s past' last' found') :
    past ++ [last] <+: past' ++ [last'] ∧
      ((∀ q ∈ evaluated past', (t.objective q).isFinite = true) →
        found'.objective < found.objective ∨ found'.best = found.best) := by
  have hbest : found.best = last.1.best := congrArg Finding.best h.found_eq
  have hbest' : found'.best = last'.1.best := congrArg Finding.best h'.found_eq
  have hobjective := h.objective_eq
  have hobjective' := h'.objective_eq
  obtain ⟨population, hsize, s₀, hdraw, hran⟩ := h.ran
  obtain ⟨population', hsize', s₀', hdraw', hran'⟩ := h'.ran
  obtain ⟨rfl, rfl⟩ := hdraw.unique hdraw'
  have hgenerations : max (g.maxIterations / size) 1 ≤ max (m / size) 1 :=
    max_le_max (Nat.div_le_div_right hm) (Nat.le_refl 1)
  obtain ⟨more, rfl, hmore⟩ := hran.rest hran' hgenerations
  refine ⟨hmore.isPrefix past, fun hfinite => ?_⟩
  have hkept : KeptOrBeaten (last.1.best, last.1.bestCost) (last'.1.best, last'.1.bestCost) :=
    KeptOrBeaten.of_passes (fun b : Brood size => (b.best, b.bestCost)) keptOrBeaten_generation hmore
  have hpast : ∀ q ∈ evaluated past, (t.objective q).isFinite = true := fun q hq =>
    hfinite q (by
      rw [evaluated, List.flatMap_append]
      exact List.mem_append_left _ hq)
  rw [hobjective hpast, hobjective' hfinite, hbest, hbest']
  rcases hkept with hlt | heq
  · exact Or.inl hlt
  · exact Or.inr (congrArg Prod.fst heq)

end Genetic

/-! ## Both searches -/

/-- Of two runs of a search from the same source whose parameters differ in their budgets alone, the one
with the larger budget passes the states of the other one first. It ends with a strictly lower
objective or with the same assignment: a walk where costs are exact, a genetic search where all
objectives evaluated are finite. -/
theorem longer_search_never_worse {σ : Type} [RandomSource σ] {m m' : Nat} (hm : m ≤ m') (s : σ) :
    (∀ {α : Type} [CommRing α] [LinearOrder α] (t : Instance α) (rule : α → Float → Float → Bool)
      (temperature cooling floor : Float) (a a' : Annealing),
      Annealing.ofParameters m temperature cooling floor = .ok a →
      Annealing.ofParameters m' temperature cooling floor = .ok a' →
      ∃ past last found past' last' found',
        a.Course t rule .never s past last found ∧
        a'.Course t rule .never s past' last' found' ∧
        past ++ [last] <+: past' ++ [last'] ∧
        (found'.objective < found.objective ∨ found'.best = found.best)) ∧
    (∀ (t : Instance Float) (p k : Nat) (r : Float) (g g' : Genetic),
      Genetic.ofParameters m p r k = .ok g →
      Genetic.ofParameters m' p r k = .ok g' →
      ∃ (size : Nat) (past : List (Genetic.Brood size × σ)) (last : Genetic.Brood size × σ)
        (found : Finding Float) (past' : List (Genetic.Brood size × σ))
        (last' : Genetic.Brood size × σ) (found' : Finding Float),
        g.Course t .never s past last found ∧
        g'.Course t .never s past' last' found' ∧
        past ++ [last] <+: past' ++ [last'] ∧
        ((∀ q ∈ Genetic.evaluated past', (t.objective q).isFinite = true) →
          found'.objective < found.objective ∨ found'.best = found.best)) := by
  refine ⟨?_, ?_⟩
  · intro α _ _ t rule temperature cooling floor a a' ha ha'
    obtain ⟨-, -, -, rfl⟩ := Annealing.ofParameters_eq_ok.mp ha
    obtain ⟨-, -, -, rfl⟩ := Annealing.ofParameters_eq_ok.mp ha'
    obtain ⟨past, last, found, hcourse⟩ := Annealing.exists_course
      ⟨m, temperature, cooling, if 0 ≤ floor then floor else 0⟩ t rule .never s
    obtain ⟨past', last', found', hcourse'⟩ := Annealing.exists_course
      ⟨m', temperature, cooling, if 0 ≤ floor then floor else 0⟩ t rule .never s
    exact ⟨past, last, found, past', last', found', hcourse, hcourse', hcourse.longer hm hcourse'⟩
  · intro t p k r g g' hg hg'
    obtain ⟨-, -, -, -, rfl⟩ := Genetic.ofParameters_eq_ok.mp hg
    obtain ⟨-, -, -, -, rfl⟩ := Genetic.ofParameters_eq_ok.mp hg'
    obtain ⟨past, last, found, hcourse⟩ := Genetic.exists_course ⟨m, p, r, ⟨k, false⟩⟩ t .never s
    obtain ⟨past', last', found', hcourse'⟩ :=
      Genetic.exists_course ⟨m', p, r, ⟨k, false⟩⟩ t .never s
    exact ⟨_, past, last, found, past', last', found', hcourse, hcourse',
      hcourse.longer hm hcourse'⟩

/-- Three slots in a line, with whole numbers for distances and flows. -/
def line : Instance ℤ :=
  { side := 3
    distance := ⟨3, 3, #[0, 1, 2, 1, 0, 1, 2, 1, 0], rfl⟩
    flow := ⟨3, 3, #[0, 5, 2, 5, 0, 3, 2, 3, 0], rfl⟩
    dim_distance := rfl
    dim_flow := rfl }

/-- The same three slots for a search that calculates with floats. -/
def paces : Instance Float :=
  { side := 3
    distance := ⟨3, 3, #[0, 1, 2, 1, 0, 1, 2, 1, 0], rfl⟩
    flow := ⟨3, 3, #[0, 5, 2, 5, 0, 3, 2, 3, 0], rfl⟩
    dim_distance := rfl
    dim_flow := rfl }

theorem isFinite_objective_paces {p : Array Nat} (h : Arranges p paces.side) :
    (paces.objective p).isFinite = true := by
  have hall : ∀ vs ∈ (List.range 3).permutations', (paces.objective vs.toArray).isFinite = true := by
    decide +kernel
  exact hall p.toList (List.mem_permutations'.mpr h)

/-- The longer walk takes sixty steps instead of twelve, and the longer search ten generations instead
of two. -/
theorem longer_search_never_worse_line :
    12 ≤ 60 ∧
    (∃ (a a' : Annealing) (past : List (Annealing.Walk ℤ × KeyStream))
      (last : Annealing.Walk ℤ × KeyStream) (found : Finding ℤ)
      (past' : List (Annealing.Walk ℤ × KeyStream)) (last' : Annealing.Walk ℤ × KeyStream)
      (found' : Finding ℤ),
      Annealing.ofParameters 12 10 0.9 0.01 = .ok a ∧
      Annealing.ofParameters 60 10 0.9 0.01 = .ok a' ∧
      a.Course line (fun _ _ _ => true) .never (RandomSource.ofSeed 7) past last found ∧
      a'.Course line (fun _ _ _ => true) .never (RandomSource.ofSeed 7) past' last' found' ∧
      past.length = 12 ∧ past'.length = 60 ∧ past ++ [last] <+: past' ++ [last'] ∧
      (found'.objective < found.objective ∨ found'.best = found.best)) ∧
    ∃ (g g' : Genetic) (past : List (Genetic.Brood 6 × KeyStream))
      (last : Genetic.Brood 6 × KeyStream) (found : Finding Float)
      (past' : List (Genetic.Brood 6 × KeyStream)) (last' : Genetic.Brood 6 × KeyStream)
      (found' : Finding Float),
      Genetic.ofParameters 12 50 0.5 2 = .ok g ∧ Genetic.ofParameters 60 50 0.5 2 = .ok g' ∧
      g.Course paces .never (RandomSource.ofSeed 7) past last found ∧
      g'.Course paces .never (RandomSource.ofSeed 7) past' last' found' ∧
      past.length = 2 ∧ past'.length = 10 ∧ past ++ [last] <+: past' ++ [last'] ∧
      (found'.objective < found.objective ∨ found'.best = found.best) := by
  have hm : 12 ≤ 60 := by decide
  have hwalk : ∀ m, 0 < m → Annealing.ofParameters m 10 0.9 0.01 = .ok ⟨m, 10, 0.9, 0.01⟩ :=
    fun m hpos => Annealing.ofParameters_eq_ok.mpr ⟨hpos, by decide, by decide, rfl⟩
  have hsearch : ∀ m, 0 < m → Genetic.ofParameters m 50 0.5 2 = .ok ⟨m, 50, 0.5, ⟨2, false⟩⟩ :=
    fun m hpos => Genetic.ofParameters_eq_ok.mpr ⟨hpos, by decide, by decide, by decide, rfl⟩
  have hwarm : ∀ k < 60, (0.01 : Float) ≤ Annealing.cooled 10 0.9 k := by decide +kernel
  obtain ⟨hwalks, hsearches⟩ := longer_search_never_worse hm (RandomSource.ofSeed 7 : KeyStream)
  obtain ⟨past, last, found, past', last', found', hcourse, hcourse', hpassed, hbetter⟩ :=
    hwalks line (fun _ _ _ => true) 10 0.9 0.01 _ _ (hwalk 12 (by decide)) (hwalk 60 (by decide))
  obtain ⟨size, past₂, last₂, found₂, past₂', last₂', found₂', hcourse₂, hcourse₂', hpassed₂,
    hbetter₂⟩ := hsearches paces 50 2 0.5 _ _ (hsearch 12 (by decide)) (hsearch 60 (by decide))
  obtain rfl : size = 6 := hcourse₂.size_eq
  refine ⟨hm, ⟨_, _, past, last, found, past', last', found', hwalk 12 (by decide),
    hwalk 60 (by decide), hcourse, hcourse', ?_, ?_, hpassed, hbetter⟩,
    ⟨_, _, past₂, last₂, found₂, past₂', last₂', found₂', hsearch 12 (by decide),
    hsearch 60 (by decide), hcourse₂, hcourse₂', hcourse₂.length_eq, hcourse₂'.length_eq, hpassed₂, ?_⟩⟩
  · exact hcourse.length_of_warm fun k hk => hwarm k (Nat.lt_of_lt_of_le hk hm)
  · exact hcourse'.length_of_warm hwarm
  · exact hbetter₂ fun q hq => isFinite_objective_paces (hcourse₂'.arranges hq)

end Placement
