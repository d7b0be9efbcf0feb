import Placement.Proofs.Draws
import Placement.Proofs.FloatOrder
import Placement.Random.KeyStream
import Placement.Search.Tournament

/-!
# Who wins a tournament

A tournament draws its contestants one at a time and keeps only the best so far. Nothing it does in
between is drawn, so it can as well draw all of them first and then let them meet
(`exists_crown`): a tournament of `k` contestants takes exactly `k` indices from the source, whatever
the fitness is.

Who wins is settled by `FirstBest`: no contestant is better than the winner, and none drawn before it
is as good. One more challenger keeps this, since a challenger takes over only if it is strictly better
(`FirstBest.duel`). That step needs fitness that can be compared; it is the only place where a value
that is not a number could do harm.
-/

namespace Placement

namespace Tournament

open Draw

variable {n : Nat} {t : Tournament}

/-! ## Better, and as good as -/

/-- A contestant of fitness `a` is as good as one of fitness `b`. -/
def Matches (t : Tournament) (a b : Float) : Prop :=
  if t.higherWins then b ≤ a else a ≤ b

section Fitness

variable {a b c : Float}

theorem Matches.refl (t : Tournament) (ha : a.isNaN = false) : t.Matches a a := by
  rcases t with ⟨size, _ | _⟩
  · exact FloatOrder.le_refl_of_number ha
  · exact FloatOrder.le_refl_of_number ha

theorem matches_of_beats (h : t.beats a b = true) : t.Matches a b := by
  rcases t with ⟨size, _ | _⟩
  · exact FloatOrder.le_of_lt (of_decide_eq_true h)
  · exact FloatOrder.le_of_lt (of_decide_eq_true h)

theorem not_matches_of_beats (h : t.beats a b = true) : ¬t.Matches b a := by
  rcases t with ⟨size, _ | _⟩
  · exact FloatOrder.not_le_of_lt (of_decide_eq_true h)
  · exact FloatOrder.not_le_of_lt (of_decide_eq_true h)

/-- Who is not beaten is as good, provided that both are numbers. -/
theorem matches_of_not_beats (ha : a.isNaN = false) (hb : b.isNaN = false)
    (h : ¬t.beats b a = true) : t.Matches a b := by
  rcases t with ⟨size, _ | _⟩
  · exact FloatOrder.le_of_not_lt hb ha fun hlt => h (decide_eq_true hlt)
  · exact FloatOrder.le_of_not_lt ha hb fun hlt => h (decide_eq_true hlt)

theorem beats_of_beats_of_matches (h : t.beats a b = true) (h' : t.Matches b c) :
    t.beats a c = true := by
  rcases t with ⟨size, _ | _⟩
  · exact decide_eq_true (FloatOrder.lt_of_lt_of_le (of_decide_eq_true h) h')
  · exact decide_eq_true (FloatOrder.lt_of_le_of_lt h' (of_decide_eq_true h))

end Fitness

/-! ## The first of the best -/

/-- Among the contestants in the order in which they were drawn, `winner` stands at the first place
that no other is better than. -/
structure FirstBest (t : Tournament) (fitness : Vector Float n) (drawn : List (Fin n))
    (winner : Fin n) : Prop where
  best : ∀ i ∈ drawn, t.Matches (fitness.get winner) (fitness.get i)
  first : ∃ front back, drawn = front ++ winner :: back ∧
    ∀ i ∈ front, ¬t.Matches (fitness.get i) (fitness.get winner)

variable {fitness : Vector Float n} {drawn : List (Fin n)} {winner : Fin n}

theorem firstBest_alone (t : Tournament) (hnumbers : ∀ i, (fitness.get i).isNaN = false)
    (i : Fin n) : FirstBest t fitness [i] i := by
  refine ⟨fun j hj => ?_, [], [], rfl, fun j hj => absurd hj List.not_mem_nil⟩
  rw [List.mem_singleton.mp hj]
  exact Matches.refl t (hnumbers i)

/-- The winner against one more challenger is the first of the best again. -/
theorem FirstBest.duel (h : FirstBest t fitness drawn winner)
    (hnumbers : ∀ i, (fitness.get i).isNaN = false) (challenger : Fin n) :
    FirstBest t fitness (drawn ++ [challenger]) (t.duel fitness winner challenger) := by
  unfold Tournament.duel
  by_cases hbeats : t.beats (fitness.get challenger) (fitness.get winner) = true
  · rw [if_pos hbeats]
    have hall : ∀ i ∈ drawn, t.beats (fitness.get challenger) (fitness.get i) = true :=
      fun i hi => beats_of_beats_of_matches hbeats (h.best i hi)
    refine ⟨fun i hi => ?_, drawn, [], rfl, fun i hi => not_matches_of_beats (hall i hi)⟩
    rcases List.mem_append.mp hi with hi | hi
    · exact matches_of_beats (hall i hi)
    · rw [List.mem_singleton.mp hi]
      exact Matches.refl t (hnumbers challenger)
  · rw [if_neg hbeats]
    obtain ⟨front, back, rfl, hfront⟩ := h.first
    refine ⟨fun i hi => ?_, front, back ++ [challenger], ?_, hfront⟩
    · rcases List.mem_append.mp hi with hi | hi
      · exact h.best i hi
      · rw [List.mem_singleton.mp hi]
        exact matches_of_not_beats (hnumbers winner) (hnumbers challenger) hbeats
    · rw [List.append_assoc, List.cons_append]

theorem FirstBest.mem (h : FirstBest t fitness drawn winner) : winner ∈ drawn := by
  obtain ⟨front, back, rfl, -⟩ := h.first
  exact List.mem_append_right front List.mem_cons_self

/-- There is but one winner. -/
theorem FirstBest.unique {other : Fin n} (h : FirstBest t fitness drawn winner)
    (h' : FirstBest t fitness drawn other) : winner = other := by
  obtain ⟨front, back, hdrawn, hfront⟩ := h.first
  obtain ⟨front', back', hdrawn', hfront'⟩ := h'.first
  -- of two places, the earlier one would lie in front of the later one
  rcases List.append_eq_append_iff.mp (hdrawn.symm.trans hdrawn') with
    ⟨between, rfl, hrest⟩ | ⟨between, rfl, hrest⟩
  · cases between with
    | nil => exact (List.cons.inj hrest).1
    | cons i between =>
        obtain ⟨rfl, -⟩ := List.cons.inj hrest
        exact absurd (h.best other h'.mem)
          (hfront' winner (List.mem_append_right front List.mem_cons_self))
  · cases between with
    | nil => exact (List.cons.inj hrest).1.symm
    | cons i between =>
        obtain ⟨rfl, -⟩ := List.cons.inj hrest
        exact absurd (h'.best winner h.mem)
          (hfront other (List.mem_append_right front' List.mem_cons_self))

/-! ## Drawing first, meeting later -/

variable {σ : Type} [RandomSource σ]

/-- The last contestant may as well be drawn when all others have met. -/
theorem challenge_succ {α : Type} [LT α] [DecidableLT α] (t : Tournament) (fitness : Vector α n)
    (contestants : Nat) (champion : Fin n) :
    (t.challenge fitness (contestants + 1) champion : Draw σ (Fin n)) =
      (do let winner ← t.challenge fitness contestants champion
          let challenger ← index n
          pure (t.duel fitness winner challenger)) := by
  induction contestants generalizing champion with
  | zero => simp only [challenge, pure_bind]
  | succ contestants ih =>
      rw [challenge, challenge]
      simp only [bind_assoc, ih]

/-- A champion and so many challengers can all be drawn first. Who is crowned then depends on nothing
but the contestants. -/
theorem exists_crown (t : Tournament) (hnumbers : ∀ i, (fitness.get i).isNaN = false)
    (contestants : Nat) : ∃ crown : Vector (Fin n) (contestants + 1) → Fin n,
      (∀ draws, FirstBest t fitness draws.toList (crown draws)) ∧
      (index n >>= t.challenge fitness contestants : Draw σ (Fin n)) =
        crown <$> times (index n) (contestants + 1) := by
  -- `challenge` puts the next draw in front; the induction has to take off the draw made last,
  -- since that is the one who meets the winner among all others
  induction contestants with
  | zero =>
      have hall : (times (index n) 0 : Draw σ (Vector (Fin n) 0)) = pure #v[] := Vector.ofFnM_zero
      refine ⟨fun draws => draws[0], fun draws => ?_, ?_⟩
      · obtain ⟨before, i, rfl⟩ := draws.exists_push
        obtain rfl := before.eq_empty
        exact firstBest_alone t hnumbers i
      · rw [times_succ, hall]
        simp only [challenge, bind_pure, pure_bind, map_bind, map_pure, Vector.getElem_push_eq]
  | succ contestants ih =>
      obtain ⟨crown, hfirst, hcrown⟩ := ih
      refine ⟨fun draws => t.duel fitness (crown draws.pop) draws[contestants + 1], fun draws => ?_, ?_⟩
      · obtain ⟨drawn, challenger, rfl⟩ := draws.exists_push
        simp only [Vector.toList_push, Vector.pop_push, Vector.getElem_push_eq]
        exact (hfirst drawn).duel hnumbers challenger
      · calc (index n >>= t.challenge fitness (contestants + 1) : Draw σ (Fin n))
            = (do let winner ← index n >>= t.challenge fitness contestants
                  let challenger ← index n
                  pure (t.duel fitness winner challenger)) := by
              rw [bind_assoc]
              exact bind_congr fun champion => t.challenge_succ fitness contestants champion
          _ = (do let draws ← times (index n) (contestants + 1)
                  let challenger ← index n
                  pure (t.duel fitness (crown draws) challenger)) := by
              rw [hcrown, bind_map_left]
          _ = _ := by
              rw [times_succ (index n) (contestants + 1)]
              simp only [map_bind, map_pure, Vector.pop_push, Vector.getElem_push_eq]

/-- A tournament with at least one place takes as many indices from the source as it has places,
neither more nor fewer, and crowns the first of the best among them: whichever way it ranks, whatever
the indices are, and however often one of them is drawn. Where there is no one to draw it fails, and
leaves the source where it stands. -/
theorem run_crowns_first_best (t : Tournament) (hsize : 1 ≤ t.size) (fitness : Vector Float n)
    (hnumbers : ∀ i, (fitness.get i).isNaN = false) :
    (n = 0 → ∀ s : σ, (t.run fitness : Draw σ (Fin n)).run s =
      (.error (.failure (.algorithm "Cannot run a tournament on an empty population")), s)) ∧
    (0 < n → ∃ crown : Vector (Fin n) t.size → Fin n,
      (∀ draws, FirstBest t fitness draws.toList (crown draws)) ∧
      ∀ s : σ, ∃ draws s', Yields (times (index n) t.size) s draws s' ∧
        Yields (t.run fitness) s (crown draws) s') := by
  constructor
  · intro hnone s
    rw [run, if_pos hnone]
    rfl
  · intro hn
    obtain ⟨contestants, hcontestants⟩ : ∃ k, t.size = k + 1 := ⟨t.size - 1, by omega⟩
    obtain ⟨crown, hfirst, hcrown⟩ := exists_crown (σ := σ) t hnumbers contestants
    have hrun : (t.run fitness : Draw σ (Fin n)) = crown <$> times (index n) (contestants + 1) := by
      rw [run, if_neg hn.ne', hcontestants, Nat.add_sub_cancel, hcrown]
    rw [hcontestants, hrun]
    refine ⟨crown, hfirst, fun s => ?_⟩
    obtain ⟨draws, s', hdraws, -⟩ := (ensures_index hn).times (contestants + 1) s
    refine ⟨draws, s', hdraws, ?_⟩
    rw [map_eq_pure_bind]
    exact hdraws.bind rfl

/-- Four contestants, of whom two share the lowest fitness. -/
def tied : Vector Float 4 := #v[2, 1, 1, 3]

/-- Of two with the lowest fitness, the one that is drawn first wins. -/
theorem run_crowns_first_best_tied :
    1 ≤ (⟨4, false⟩ : Tournament).size ∧ (∀ i, (tied.get i).isNaN = false) ∧ 0 < 4 ∧
    ∃ crown : Vector (Fin 4) 4 → Fin 4, crown #v[0, 2, 1, 2] = 2 ∧
      ∀ s : KeyStream, ∃ draws s', Yields (times (index 4) 4) s draws s' ∧
        Yields ((⟨4, false⟩ : Tournament).run tied) s (crown draws) s' := by
  have hnumbers : ∀ i, (tied.get i).isNaN = false := by decide
  obtain ⟨-, hruns⟩ := run_crowns_first_best (σ := KeyStream) ⟨4, false⟩ (by decide) tied hnumbers
  obtain ⟨crown, hfirst, hcrown⟩ := hruns (by decide)
  refine ⟨by decide, hnumbers, by decide, crown, ?_, hcrown⟩
  have htied : FirstBest ⟨4, false⟩ tied [0, 2, 1, 2] 2 := by
    refine ⟨?_, [0], [1, 2], rfl, ?_⟩
    · show ∀ i ∈ ([0, 2, 1, 2] : List (Fin 4)), tied.get 2 ≤ tied.get i
      decide
    · show ∀ i ∈ ([0] : List (Fin 4)), ¬tied.get i ≤ tied.get 2
      decide
  exact (hfirst #v[0, 2, 1, 2]).unique htied

end Tournament

end Placement
