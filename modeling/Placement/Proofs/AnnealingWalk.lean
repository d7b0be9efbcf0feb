import Placement.Proofs.Arrangement
import Placement.Proofs.Exchange
import Placement.Search.Annealing

/-!
# What an annealing walk keeps track of

A walk carries its current cost along as a sum of changes and never evaluates an assignment on the way.
The first part holds for any numbers: every walk comes to an end, at an arrangement, whatever is drawn
and whenever the deadline cuts in (`exists_ran`).

The second part reads costs in exact arithmetic, where a change is the difference of two objectives.
Then the two costs that a walk carries are objectives, and the best assignment is the least of all that
were visited (`Tracks`). One step keeps this, by one case for a proposal that is left, where nothing
moves, and one for a proposal that is taken, where the new assignment either becomes the best or is no
better than it.
-/

namespace Placement

namespace Annealing

open Draw

variable {σ α : Type} [RandomSource σ]

/-! ## Where a walk ends -/

/-- Why a walk ends before its steps are used up: the deadline has come, or it is too cold. -/
def halt? (floor : Float) (deadline : Deadline) (w : Walk α) : Option Bool :=
  if floor ≤ w.temperature then
    if deadline.expired w.iterations then some true else none
  else some false

theorem halt?_eq_none {floor : Float} {deadline : Deadline} {w : Walk α}
    (h : halt? floor deadline w = none) : deadline.expired w.iterations = false := by
  unfold halt? at h
  split at h
  · split at h
    · cases h
    · next hnot => exact Bool.eq_false_of_not_eq_true hnot
  · cases h

theorem halt?_eq_true {floor : Float} {deadline : Deadline} {w : Walk α}
    (h : halt? floor deadline w = some true) : deadline.expired w.iterations = true := by
  unfold halt? at h
  split at h
  · split at h
    · assumption
    · cases h
  · cases h

/-! ## Single steps -/

/-- Both assignments that a walk carries are arrangements of the slots. -/
structure Valid (t : Instance α) (w : Walk α) : Prop where
  current : Arranges w.current t.side
  best : Arranges w.best t.side

theorem Valid.cool {t : Instance α} {w : Walk α} (h : Valid t w) (rate : Float) :
    Valid t (w.cool rate) :=
  ⟨h.current, h.best⟩

theorem Valid.take [Zero α] [Add α] [LT α] [DecidableLT α] {t : Instance α} {w : Walk α}
    (h : Valid t w) (r s : Nat) (delta : α) : Valid t (w.take r s delta) := by
  refine ⟨h.current.swapIfInBounds r s, ?_⟩
  show Arranges (if w.cost + delta < w.bestCost then w.current.swapIfInBounds r s else w.best) _
  split
  · exact h.current.swapIfInBounds r s
  · exact h.best

/-- A change that does not raise the objective is taken, and nothing is drawn for it. -/
theorem decideOn_of_le [Zero α] [LE α] [DecidableLE α] {rule : α → Float → Float → Bool} {delta : α}
    (h : delta ≤ 0) (temperature : Float) (s : σ) :
    (decideOn rule delta temperature).run s = (true, s) := by
  rw [decideOn, if_pos h]
  rfl

section Step

variable [Zero α] [Add α] [Sub α] [Mul α] [LT α] [DecidableLT α] [LE α] [DecidableLE α]
variable {t : Instance α} {rule : α → Float → Float → Bool} {rate : Float}

/-- All that a step does: it draws a pair of slots, reads off the change, decides about it, and cools
down, after the exchange if it was taken. -/
theorem yields_step {w v : Walk α} {s s' : σ} :
    Yields (step t rule rate w) s v s' ↔ ∃ (r k : Fin t.side) (s₁ : σ) (accept : Bool),
      Yields (distinctPair t.side) s (r, k) s₁ ∧
      t.swapDelta? w.current r k = .ok (t.swapDelta w.current r k) ∧
      (decideOn rule (t.swapDelta w.current r k) w.temperature).run s₁ = (accept, s') ∧
      v = (if accept then w.take r k (t.swapDelta w.current r k) else w).cool rate := by
  constructor
  · intro h
    obtain ⟨⟨r, k⟩, s₁, hpair, h₁⟩ := yields_bind.mp h
    obtain ⟨delta, s₂, hdelta, h₂⟩ := yields_bind.mp h₁
    obtain ⟨accept, s₃, hdecide, h₃⟩ := yields_bind.mp h₂
    obtain ⟨hread, rfl⟩ := yields_checked.mp hdelta
    obtain ⟨rfl, rfl⟩ := yields_pure.mp h₃
    have hvalue : t.swapDelta w.current r k = delta := by
      unfold Instance.swapDelta? at hread
      split at hread
      · exact Except.ok.inj hread
      · cases hread
    subst hvalue
    exact ⟨r, k, s₂, accept, hpair, hread, yields_lift.mp hdecide, rfl⟩
  · rintro ⟨r, k, s₁, accept, hpair, hread, hdecide, rfl⟩
    exact hpair.bind ((yields_checked.mpr ⟨hread, rfl⟩).bind ((yields_lift.mpr hdecide).bind rfl))

theorem ensures_step (ht : 2 ≤ t.side) {w : Walk α} (h : Valid t w) :
    Ensures (step t rule rate w : Draw σ (Walk α)) (Valid t) := by
  refine (ensures_distinctPair ht).bind fun pair _ => ?_
  refine (ensures_checked (P := fun _ => True)
    (Instance.swapDelta?_eq h.current pair.1.isLt pair.2.isLt) trivial).bind fun delta _ => ?_
  refine (ensures_lift (P := fun _ => True) fun _ => trivial).bind fun accept _ => ensures_pure ?_
  cases accept with
  | true => exact (h.take pair.1 pair.2 delta).cool rate
  | false => exact h.cool rate

/-- Every step is counted. -/
theorem iterations_of_step {w v : Walk α} {s s' : σ} (h : Yields (step t rule rate w) s v s') :
    v.iterations = w.iterations + 1 := by
  obtain ⟨r, k, s₁, accept, -, -, -, rfl⟩ := yields_step.mp h
  cases accept with
  | true => rfl
  | false => rfl

theorem iterations_of_passes {b c : Walk α × σ} {past : List (Walk α × σ)}
    (hp : Passes (step t rule rate) b past c) :
    c.1.iterations = b.1.iterations + past.length := by
  refine hp.history (I := fun past c => c.1.iterations = b.1.iterations + past.length) rfl ?_
  intro past c d _ hc hy
  rw [iterations_of_step hy, hc, List.length_append, List.length_singleton, Nat.add_assoc]

/-! ## Whole walks -/

theorem walk_loop (t : Instance α) (rule : α → Float → Float → Bool) (rate floor : Float)
    (deadline : Deadline) : Loop (step t rule rate : Walk α → Draw σ (Walk α))
      (halt? floor deadline) (walk t rule rate floor deadline) where
  zero w := rfl
  succ n w := by
    rw [walk, halt?]
    split
    · split
      · rfl
      · rfl
    · rfl

/-- How many steps a walk may take: none if there is nothing to exchange. -/
def budget (a : Annealing) (t : Instance α) : Nat :=
  if 2 ≤ t.side then a.maxIterations else 0

/-- What is handed back after a walk. -/
def finding (t : Instance α) (w : Walk α) (timedOut : Bool) : Finding α :=
  { best := w.best
    objective := t.objective w.best
    iterations := w.iterations
    timedOut
    annotations :=
      ((∅ : Annotations).insert "accepted_moves" (.ofNat w.accepted)
        |>.insert "improving_moves" (.ofNat w.improving)
        |>.insert "final_temperature" (.number w.temperature)) }

/-- Every run draws an arrangement, walks on from it to an end, and hands back the best assignment of
the walk, which is an arrangement too. -/
theorem exists_ran (a : Annealing) (t : Instance α) (rule : α → Float → Float → Bool)
    (deadline : Deadline) (s : σ) : ∃ p s₀ past last timedOut,
      (Random.permutation t.side).run s = (p, s₀) ∧
      Ran (step t rule a.cooling) (halt? a.floor deadline) (a.budget t)
        (Walk.start p (t.objective p) a.temperature, s₀) past last timedOut ∧
      Valid t last.1 ∧
      Yields (a.run t rule deadline) s (finding t last.1 timedOut) last.2 := by
  rcases hdraw : (Random.permutation t.side).run s with ⟨p, s₀⟩
  have hp : Arranges p t.side := by
    have h := permutation_arranges t.side s
    rwa [hdraw] at h
  have hstart : Valid t (Walk.start p (t.objective p) a.temperature) := ⟨hp, hp⟩
  obtain ⟨past, last, timedOut, hwalk, hran, hlast⟩ : ∃ past last timedOut,
      Yields (walk t rule a.cooling a.floor deadline (a.budget t)
        (Walk.start p (t.objective p) a.temperature)) s₀ (last.1, timedOut) last.2 ∧
      Ran (step t rule a.cooling) (halt? a.floor deadline) (a.budget t)
        (Walk.start p (t.objective p) a.temperature, s₀) past last timedOut ∧
      Valid t last.1 := by
    by_cases ht : 2 ≤ t.side
    · exact (walk_loop t rule a.cooling a.floor deadline).ran (fun _ => ensures_step ht)
        (a.budget t) (_, s₀) hstart
    · -- a pair cannot be drawn here, but the walk has no step to draw one for
      rw [budget, if_neg ht]
      exact ⟨[], (_, s₀), false, rfl, ⟨.start, by simp, Or.inr ⟨rfl, rfl⟩⟩, hstart⟩
  refine ⟨p, s₀, past, last, timedOut, rfl, hran, hlast, ?_⟩
  refine (yields_lift.mpr hdraw).bind ?_
  refine (yields_checked.mpr ⟨Instance.objective?_eq hp, rfl⟩).bind (hwalk.bind ?_)
  exact (yields_checked.mpr ⟨Instance.objective?_eq hlast.best, rfl⟩).bind rfl

end Step

/-! ## Exact costs -/

section Exact

variable [CommRing α] [LinearOrder α]
variable {t : Instance α} {rule : α → Float → Float → Bool} {rate : Float}

/-- What a walk knows of the assignments that it has seen: both its costs are objectives, and the best
is one of those seen and as low as any. -/
structure Tracks (t : Instance α) (seen : List (Array Nat)) (w : Walk α) : Prop where
  cost_eq : w.cost = t.objective w.current
  bestCost_eq : w.bestCost = t.objective w.best
  best_mem : w.best ∈ seen
  least : ∀ p ∈ seen, w.bestCost ≤ t.objective p

theorem tracks_start (p : Array Nat) (temperature : Float) :
    Tracks t [p] (Walk.start p (t.objective p) temperature) where
  cost_eq := rfl
  bestCost_eq := rfl
  best_mem := List.mem_singleton.mpr rfl
  least q hq := by
    rw [List.mem_singleton.mp hq]
    exact le_refl _

variable {seen : List (Array Nat)} {w : Walk α}

/-- A walk that stays where it is sees nothing new. -/
theorem Tracks.cool (h : Tracks t seen w) (hmem : w.current ∈ seen) :
    Tracks t (seen ++ [w.current]) (w.cool rate) where
  cost_eq := h.cost_eq
  bestCost_eq := h.bestCost_eq
  best_mem := List.mem_append_left _ h.best_mem
  least p hp := by
    rcases List.mem_append.mp hp with hp | hp
    · exact h.least p hp
    · rw [List.mem_singleton.mp hp]
      exact h.least w.current hmem

/-- An exchange whose change is exact keeps the costs exact, and makes the new assignment the best if
it is strictly better. -/
theorem Tracks.take (h : Tracks t seen w) {r s : Nat} {delta : α}
    (hdelta : t.objective (w.current.swapIfInBounds r s) = t.objective w.current + delta) :
    Tracks t (seen ++ [w.current.swapIfInBounds r s]) ((w.take r s delta).cool rate) := by
  have hcost : w.cost + delta = t.objective (w.current.swapIfInBounds r s) := by
    rw [hdelta, h.cost_eq]
  by_cases hbetter : w.cost + delta < w.bestCost
  · have hbest : ((w.take r s delta).cool rate).best = w.current.swapIfInBounds r s :=
      if_pos hbetter
    have hbestCost : ((w.take r s delta).cool rate).bestCost = w.cost + delta := if_pos hbetter
    refine ⟨hcost, by rw [hbest, hbestCost, hcost], ?_, fun p hp => ?_⟩
    · rw [hbest]
      exact List.mem_append_right _ (List.mem_singleton.mpr rfl)
    · rw [hbestCost]
      rcases List.mem_append.mp hp with hp | hp
      · exact hbetter.le.trans (h.least p hp)
      · rw [List.mem_singleton.mp hp, hcost]
  · have hbest : ((w.take r s delta).cool rate).best = w.best := if_neg hbetter
    have hbestCost : ((w.take r s delta).cool rate).bestCost = w.bestCost := if_neg hbetter
    refine ⟨hcost, by rw [hbest, hbestCost, h.bestCost_eq], ?_, fun p hp => ?_⟩
    · rw [hbest]
      exact List.mem_append_left _ h.best_mem
    · rw [hbestCost]
      rcases List.mem_append.mp hp with hp | hp
      · exact h.least p hp
      · rw [List.mem_singleton.mp hp, ← hcost]
        exact not_lt.mp hbetter

/-! ### Along a walk -/

/-- The assignments that a walk stood at, in order. -/
def visited (course : List (Walk α × σ)) : List (Array Nat) :=
  course.map fun u => u.1.current

/-- From one state of a walk to the next: two different slots are drawn, and either nothing is
exchanged or these two are. A change that does not raise the objective is always taken. -/
def Moves (t : Instance α) (u v : Walk α × σ) : Prop :=
  ∃ (r k : Fin t.side) (s : σ), Yields (distinctPair t.side) u.2 (r, k) s ∧ r ≠ k ∧
    (v.1.current = u.1.current ∨ v.1.current = u.1.current.swapIfInBounds r k) ∧
    (t.swapDelta u.1.current r k ≤ 0 → v.1.current = u.1.current.swapIfInBounds r k)

theorem moves_of_step {u v : Walk α × σ} (h : Yields (step t rule rate u.1) u.2 v.1 v.2) :
    Moves t u v := by
  obtain ⟨r, k, s, accept, hpair, -, hdecide, hv⟩ := yields_step.mp h
  have hside : 2 ≤ t.side := two_le_of_distinctPair hpair
  refine ⟨r, k, s, hpair, (ensures_distinctPair hside).of_yields hpair, ?_, fun hle => ?_⟩
  · cases accept with
    | true =>
        right
        rw [hv]
        rfl
    | false =>
        left
        rw [hv]
        rfl
  · rw [decideOn_of_le hle] at hdecide
    cases hdecide
    rw [hv]
    rfl

/-- One step keeps track, whether its proposal is taken or left. -/
theorem Tracks.step {v : Walk α} {s s' : σ} (h : Tracks t seen w) (hmem : w.current ∈ seen)
    (hw : Valid t w) (hy : Yields (Annealing.step t rule rate w) s v s') :
    Tracks t (seen ++ [v.current]) v ∧ Valid t v := by
  obtain ⟨r, k, s₁, accept, -, -, -, rfl⟩ := yields_step.mp hy
  cases accept with
  | true =>
      refine ⟨h.take ?_, (hw.take r k _).cool rate⟩
      exact t.objective_swapIfInBounds hw.current.size_eq r.isLt k.isLt
  | false => exact ⟨h.cool hmem, hw.cool rate⟩

theorem tracks_of_passes {b c : Walk α × σ} {past : List (Walk α × σ)}
    (hp : Passes (step t rule rate) b past c) (hb : Tracks t [b.1.current] b.1)
    (hvalid : Valid t b.1) : Tracks t (visited (past ++ [c])) c.1 ∧ Valid t c.1 := by
  refine hp.history (I := fun past c => Tracks t (visited (past ++ [c])) c.1 ∧ Valid t c.1)
    ⟨hb, hvalid⟩ ?_
  rintro past c d - ⟨htracks, hc⟩ hy
  have hmem : c.1.current ∈ visited (past ++ [c]) :=
    List.mem_map_of_mem (List.mem_append_right past (List.mem_singleton.mpr rfl))
  have hvisited : visited (past ++ [c] ++ [d]) = visited (past ++ [c]) ++ [d.1.current] :=
    List.map_append
  rw [hvisited]
  exact htracks.step hmem hc hy

/-- Whatever is drawn and decided, and whenever the deadline cuts in, a run over exact numbers goes
from a random arrangement through single exchanges. At each of its states it keeps track of what it
visited up to there; what it hands back is the best of all, with its objective. -/
theorem run_tracks_least (a : Annealing) (t : Instance α) (rule : α → Float → Float → Bool)
    (deadline : Deadline) (s : σ) : ∃ p s₀ past last found,
      (Random.permutation t.side).run s = (p, s₀) ∧
      Ran (step t rule a.cooling) (halt? a.floor deadline) (a.budget t)
        (Walk.start p (t.objective p) a.temperature, s₀) past last found.timedOut ∧
      Yields (a.run t rule deadline) s found last.2 ∧
      (∀ front u back, past ++ [last] = front ++ u :: back →
        Tracks t (visited (front ++ [u])) u.1) ∧
      (past ++ [last]).IsChain (Moves t) ∧
      found.iterations = past.length ∧
      found.best = last.1.best ∧ found.objective = last.1.bestCost ∧
      ∀ q ∈ visited (past ++ [last]), found.objective ≤ t.objective q := by
  obtain ⟨p, s₀, past, last, timedOut, hdraw, hran, -, hrun⟩ := a.exists_ran t rule deadline s
  have hp : Arranges p t.side := by
    have h := permutation_arranges t.side s
    rwa [hdraw] at h
  have htracks : ∀ {front u}, Passes (step t rule a.cooling)
      (Walk.start p (t.objective p) a.temperature, s₀) front u →
      Tracks t (visited (front ++ [u])) u.1 := fun h =>
    (tracks_of_passes h (tracks_start p a.temperature) ⟨hp, hp⟩).1
  have hend := htracks hran.passes
  have hobjective : (finding t last.1 timedOut).objective = last.1.bestCost :=
    hend.bestCost_eq.symm
  refine ⟨p, s₀, past, last, _, hdraw, hran, hrun, ?_, ?_, ?_, rfl, hobjective, ?_⟩
  · intro front u back h
    exact htracks (hran.passes.split h)
  · exact hran.passes.isChain fun _ _ _ _ hy => moves_of_step hy
  · exact (iterations_of_passes hran.passes).trans (Nat.zero_add _)
  · intro q hq
    rw [hobjective]
    exact hend.least q hq

end Exact

end Annealing

end Placement
